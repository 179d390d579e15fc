/-
Splicing in one pass. Going through a source once, and writing before each byte what is inserted there, gives
the text that the insertions give when they are applied one by one from the highest offset down. So the order
of the list matters within an offset only.

Every insertion takes a segment of the result for itself. All insertions at `p` together take the stretch
from `p + shift ins p` to `p + shift ins (p + 1)`, and the byte `p` of the source stands right behind it; so
what is left without the segments is the source.
-/
import DocAtlas.Proofs.Edit.Splicing

namespace DocAtlas.Insertion

/-! ## One pass -/

/-- The text written in one pass: for each position what is inserted there, then the byte there, if there is one. -/
def onePass (ins : List Insertion) (src : Text) : Text :=
  (List.range (src.length + 1)).flatMap fun p => textAt ins p ++ src[p]?.toList

theorem laced_eq_flatMap (ins : List Insertion) (t : Text) (p : Nat) :
    laced ins p t ++ textAt ins (p + t.length) =
      (List.range' p (t.length + 1)).flatMap fun q => textAt ins q ++ t[q - p]?.toList := by
  induction t generalizing p with
  | nil => simp [laced]
  | cons b t ih =>
    -- behind the first position the bytes are those of the rest
    have hrest : ((List.range' (p + 1) (t.length + 1)).flatMap fun q => textAt ins q ++ (b :: t)[q - p]?.toList) =
        (List.range' (p + 1) (t.length + 1)).flatMap fun q => textAt ins q ++ t[q - (p + 1)]?.toList := by
      refine List.flatMap_congr fun q hq => ?_
      have hle := (List.mem_range'_1.1 hq).1
      rw [show q - p = q - (p + 1) + 1 by omega, List.getElem?_cons_succ]
    rw [List.length_cons, List.range'_succ, List.flatMap_cons, hrest, ← ih (p + 1), laced,
      show p + (t.length + 1) = p + 1 + t.length by omega, Nat.sub_self]
    simp

theorem weave_eq_onePass (ins : List Insertion) (src : Text) : weave ins src = onePass ins src := by
  have h := laced_eq_flatMap ins src 0
  rw [Nat.zero_add, ← List.range_eq_range'] at h
  exact h

/-! ## Failing -/

theorem not_inRange {size : Nat} {i : Insertion} : ¬ i.InRange size ↔ i.offset < 0 ∨ (size : Int) < i.offset := by
  unfold InRange
  omega

/-- Splicing fails exactly if an offset is outside the text. -/
theorem apply_eq_error_iff {src : Text} {ins : List Insertion} :
    (∃ e, apply src ins = .error e) ↔ ∃ i ∈ ins, i.offset < 0 ∨ (src.length : Int) < i.offset := by
  unfold apply
  cases h : ins.find? fun i => !decide (i.InRange src.length) with
  | some i =>
    have hi := List.find?_some h
    exact iff_of_true ⟨_, rfl⟩ ⟨i, List.mem_of_find?_eq_some h, not_inRange.1 (by simpa using hi)⟩
  | none =>
    refine iff_of_false (fun ⟨e, he⟩ => by cases he) fun ⟨i, hi, hout⟩ => not_inRange.2 hout ?_
    simpa using List.find?_eq_none.1 h i hi

/-- All insertions fit a text in which they could be made. -/
theorem inRange_of_apply {src out : Text} {ins : List Insertion} (h : apply src ins = .ok out) :
    ∀ i ∈ ins, i.InRange src.length := by
  intro i hi
  by_contra hout
  obtain ⟨e, he⟩ := apply_eq_error_iff.2 ⟨i, hi, not_inRange.1 hout⟩
  rw [h] at he
  cases he

/-! ## Lists in another order -/

/-- The same insertions, those of one offset in the same order. -/
structure Rearranged (ins ins' : List Insertion) : Prop where
  perm : ins'.Perm ins
  kept : ∀ p : Int, (ins'.filter fun i => i.offset = p) = ins.filter fun i => i.offset = p

/-- The lists agree at an offset that is not negative. -/
theorem Rearranged.textAt_eq {ins ins' : List Insertion} (h : Rearranged ins ins') (hin : ∀ i ∈ ins, 0 ≤ i.offset)
    (p : Nat) :
    textAt ins' p = textAt ins p := by
  have hnat : ∀ I : List Insertion, (∀ i ∈ I, 0 ≤ i.offset) →
      (I.filter fun i => i.offset.toNat = p) = I.filter fun i => i.offset = (p : Int) := by
    intro I hI
    refine List.filter_congr fun i hi => ?_
    have := hI i hi
    simp only [decide_eq_decide]
    omega
  unfold textAt
  rw [hnat ins hin, hnat ins' fun i hi => hin i (h.perm.mem_iff.1 hi), h.kept]

/-- Lists in another order give the same result, or none. -/
theorem Rearranged.apply_eq {ins ins' : List Insertion} (h : Rearranged ins ins') (src : Text) :
    (apply src ins').toOption = (apply src ins).toOption := by
  by_cases hall : ∀ i ∈ ins, i.InRange src.length
  · have hall' : ∀ i ∈ ins', i.InRange src.length := fun i hi => hall i (h.perm.mem_iff.1 hi)
    have hin : ∀ i ∈ ins, 0 ≤ i.offset := fun i hi => (hall i hi).1
    rw [apply_eq_weave hall, apply_eq_weave hall']
    unfold weave
    rw [h.textAt_eq hin, laced_congr src 0 fun q _ _ => h.textAt_eq hin q]
  · push Not at hall
    obtain ⟨i, hi, hout⟩ := hall
    obtain ⟨e, he⟩ := apply_eq_error_iff.2 ⟨i, hi, not_inRange.1 hout⟩
    obtain ⟨e', he'⟩ := apply_eq_error_iff.2 ⟨i, h.perm.mem_iff.2 hi, not_inRange.1 hout⟩
    rw [he, he']
    rfl

/-! ## Segments -/

/-- The position is in one of the segments, which are given by where they begin and how long they are. -/
def Covered (segs : List (Nat × Nat)) (n : Nat) : Prop := ∃ s ∈ segs, s.1 ≤ n ∧ n < s.1 + s.2

instance (segs : List (Nat × Nat)) (n : Nat) : Decidable (Covered segs n) :=
  inferInstanceAs (Decidable (∃ s ∈ segs, _ ∧ _))

/-- The bytes of a text that are in none of the segments; the first byte has the position `n`. -/
def without (segs : List (Nat × Nat)) (n : Nat) (t : Text) : Text :=
  ((t.zipIdx n).filter fun b => !decide (Covered segs b.2)).map Prod.fst

/-- Where in the result each insertion is. -/
def segments (ins : List Insertion) : List (Nat × Nat) := ins.zipIdx.map fun (i, k) => (landing ins k i, i.text.length)

section Without

variable {segs : List (Nat × Nat)}

theorem without_append (n : Nat) (s t : Text) :
    without segs n (s ++ t) = without segs n s ++ without segs (n + s.length) t := by
  unfold without
  rw [List.zipIdx_append, List.filter_append, List.map_append]

theorem without_covered {n : Nat} {t : Text} (h : ∀ m < t.length, Covered segs (n + m)) : without segs n t = [] := by
  unfold without
  rw [List.map_eq_nil_iff, List.filter_eq_nil_iff]
  rintro ⟨b, k⟩ hb
  obtain ⟨hle, hlt, -⟩ := List.mem_zipIdx hb
  have hcovered := h (k - n) (by omega)
  rw [Nat.add_sub_cancel' hle] at hcovered
  simpa using hcovered

theorem without_cons {n : Nat} (h : ¬ Covered segs n) (b : UInt8) (t : Text) :
    without segs n (b :: t) = b :: without segs (n + 1) t := by
  unfold without
  rw [List.zipIdx_cons, List.filter_cons, if_pos (by simpa using h), List.map_cons]

end Without

theorem mem_segments {ins : List Insertion} {s : Nat × Nat} :
    s ∈ segments ins ↔ ∃ k i, ins[k]? = some i ∧ s = (landing ins k i, i.text.length) := by
  unfold segments
  rw [List.mem_map]
  constructor
  · rintro ⟨⟨i, k⟩, hik, rfl⟩
    exact ⟨k, i, List.mem_zipIdx_iff_getElem?.1 hik, rfl⟩
  · rintro ⟨k, i, hik, rfl⟩
    exact ⟨(i, k), List.mem_zipIdx_iff_getElem?.2 hik, rfl⟩

/-- A segment ends where all that goes at its position ends, or before. -/
theorem landing_le {ins : List Insertion} {k : Nat} {i : Insertion} (hk : ins[k]? = some i) :
    landing ins k i + i.text.length ≤ i.offset.toNat + shift ins (i.offset.toNat + 1) := by
  have hlength := congrArg List.length (textAt_split hk)
  simp only [List.length_append] at hlength
  unfold landing
  rw [shift_succ]
  omega

/-- Of what goes at a position every byte is in the text of one of the insertions there. -/
theorem exists_of_lt_length_textAt {ins : List Insertion} {p m : Nat} (h : m < (textAt ins p).length) :
    ∃ k i, ins[k]? = some i ∧ i.offset.toNat = p ∧ (textAt (ins.take k) p).length ≤ m ∧
      m < (textAt (ins.take k) p).length + i.text.length := by
  induction ins using List.reverseRecOn with
  | nil => simp [textAt] at h
  | append_singleton ins j ih =>
    have hlast : textAt (ins ++ [j]) p = textAt ins p ++ if j.offset.toNat = p then j.text else [] := by
      rw [textAt_append, textAt_cons, textAt_eq_nil (List.forall_mem_nil _), List.append_nil]
    rcases Nat.lt_or_ge m (textAt ins p).length with hlt | hge
    · obtain ⟨k, i, hk, hi, hle, hlt⟩ := ih hlt
      have hlen := (List.getElem?_eq_some_iff.1 hk).1
      refine ⟨k, i, by rw [List.getElem?_append_left hlen, hk], hi, ?_⟩
      rw [List.take_append_of_le_length hlen.le]
      exact ⟨hle, hlt⟩
    · -- the byte is in what the last insertion adds, so this one is at the position
      rw [hlast, List.length_append] at h
      have hj : j.offset.toNat = p := by
        by_contra hne
        rw [if_neg hne, List.length_nil] at h
        omega
      rw [if_pos hj] at h
      refine ⟨ins.length, j, by simp, hj, ?_⟩
      rw [List.take_left]
      exact ⟨hge, h⟩

theorem covered_textAt (ins : List Insertion) (p : Nat) :
    ∀ m < (textAt ins p).length, Covered (segments ins) (p + shift ins p + m) := by
  intro m hm
  obtain ⟨k, i, hk, rfl, hle, hlt⟩ := exists_of_lt_length_textAt hm
  refine ⟨_, mem_segments.2 ⟨k, i, hk, rfl⟩, ?_⟩
  unfold landing
  constructor <;> simp only <;> omega

/-- The place of a byte of the source is in no segment. -/
theorem not_covered (ins : List Insertion) (p : Nat) : ¬ Covered (segments ins) (p + shift ins (p + 1)) := by
  rintro ⟨s, hs, hle, hlt⟩
  obtain ⟨k, i, hk, rfl⟩ := mem_segments.1 hs
  simp only at hle hlt
  rcases Nat.lt_or_ge p i.offset.toNat with hafter | hbefore
  · have hmono := shift_mono ins (show p + 1 ≤ i.offset.toNat from hafter)
    unfold landing at hle
    omega
  · have hmono := shift_mono ins (show i.offset.toNat + 1 ≤ p + 1 by omega)
    have := landing_le hk
    omega

theorem without_laced (ins : List Insertion) (t : Text) (p : Nat) :
    without (segments ins) (p + shift ins p) (laced ins p t ++ textAt ins (p + t.length)) = t := by
  induction t generalizing p with
  | nil => exact without_covered (covered_textAt ins p)
  | cons b t ih =>
    have hplace : p + shift ins p + (textAt ins p).length = p + shift ins (p + 1) := by
      rw [shift_succ]
      omega
    have hnext : p + shift ins (p + 1) + 1 = p + 1 + shift ins (p + 1) := by omega
    rw [laced, List.append_assoc, without_append, without_covered (covered_textAt ins p), List.nil_append, hplace,
      List.cons_append, without_cons (not_covered ins p), hnext, List.length_cons,
      show p + (t.length + 1) = p + 1 + t.length by omega, ih (p + 1)]

/-- What is left of the result without the segments of the insertions is the source. -/
theorem without_segments (ins : List Insertion) (src : Text) : without (segments ins) 0 (weave ins src) = src := by
  have h := without_laced ins src 0
  rw [shift_zero, Nat.zero_add, Nat.zero_add] at h
  exact h

/-! ## The result -/

/-- Splicing fails exactly if an offset is outside the source, and gives the text written in one pass else.
Lists that differ in the order of insertions at different offsets give the same. In the result each
insertion has its segment, and without the segments the result is the source. -/
theorem apply_is_onePass (src : Text) (ins : List Insertion) :
    ((∃ e, apply src ins = .error e) ↔ ∃ i ∈ ins, i.offset < 0 ∨ (src.length : Int) < i.offset) ∧
    ((∃ e, apply src ins = .error e) ∨ apply src ins = .ok (onePass ins src)) ∧
    (∀ ins', Rearranged ins ins' → (apply src ins').toOption = (apply src ins).toOption) ∧
    (∀ out, apply src ins = .ok out → without (segments ins) 0 out = src ∧
      ∀ k i, ins[k]? = some i → Text.slice out (landing ins k i) (landing ins k i + i.text.length) = i.text) := by
  refine ⟨apply_eq_error_iff, ?_, fun ins' h => h.apply_eq src, fun out hout => ?_⟩
  · by_cases hall : ∀ i ∈ ins, i.InRange src.length
    · rw [apply_eq_weave hall, weave_eq_onePass]
      exact .inr rfl
    · push Not at hall
      obtain ⟨i, hi, hout⟩ := hall
      exact .inl (apply_eq_error_iff.2 ⟨i, hi, not_inRange.1 hout⟩)
  · have hall := inRange_of_apply hout
    rw [apply_eq_weave hall] at hout
    cases hout
    refine ⟨without_segments ins src, fun k i hk => ?_⟩
    have hi := hall i (List.mem_of_getElem? hk)
    unfold InRange at hi
    exact slice_landing hk (by omega) (List.append_nil _).symm

/-- Four insertions, two of them at one offset. -/
def fourInsertions : List Insertion := [⟨1, "1"⟩, ⟨2, "]"⟩, ⟨1, "2"⟩, ⟨0, "["⟩]

/-- The insertions by offset: the two at one offset in the same order. -/
theorem fourInsertions_onePass : Rearranged fourInsertions [⟨0, "["⟩, ⟨1, "1"⟩, ⟨1, "2"⟩, ⟨2, "]"⟩] ∧
    (apply "ab" [⟨0, "["⟩, ⟨1, "1"⟩, ⟨1, "2"⟩, ⟨2, "]"⟩]).toOption = (apply "ab" fourInsertions).toOption ∧
      apply "ab" fourInsertions = .ok "[a12b]" ∧ without (segments fourInsertions) 0 "[a12b]" = "ab" := by
  have hkept : Rearranged fourInsertions [⟨0, "["⟩, ⟨1, "1"⟩, ⟨1, "2"⟩, ⟨2, "]"⟩] := by
    refine ⟨by decide, fun p => ?_⟩
    unfold fourInsertions
    simp only [List.filter_cons, List.filter_nil, decide_eq_true_eq]
    split_ifs <;> first | rfl | omega
  obtain ⟨hfails, hresult, hsame, hsegments⟩ := apply_is_onePass "ab" fourInsertions
  have hout : apply "ab" fourInsertions = .ok "[a12b]" := by
    rw [hresult.resolve_left fun h => absurd (hfails.1 h) (by decide)]
    decide
  exact ⟨hkept, hsame _ hkept, hout, (hsegments _ hout).1⟩

end DocAtlas.Insertion
