/-
Splicing as weaving: insertions applied from the highest offset down give the text in which every
position is preceded by what was inserted there, in the order of the list. From this follow the two
facts that readers of the result need: a stretch of the source with nothing inserted inside it stands
in the result unchanged, moved by the bytes inserted before it, and every insertion stands in the
result as it was given.
-/
import DocAtlas.Edit.Splice
import DocAtlas.Proofs.Order.Sorting
import DocAtlas.Proofs.Text.Pieces

namespace DocAtlas.Insertion

/-- What is inserted at a position, in the order of the list. -/
def textAt (ins : List Insertion) (p : Nat) : Text := (ins.filter fun i => i.offset.toNat = p).flatMap Insertion.text

/-- The number of bytes inserted before a position. -/
def shift (ins : List Insertion) (p : Nat) : Nat :=
  ((ins.filter fun i => i.offset.toNat < p).map fun i => i.text.length).sum

/-- The bytes `t` from the position `p` on, each after what is inserted there. -/
def laced (ins : List Insertion) (p : Nat) : Text → Text
  | [] => []
  | b :: t => textAt ins p ++ b :: laced ins (p + 1) t

/-- The text with everything inserted. -/
def weave (ins : List Insertion) (src : Text) : Text := laced ins 0 src ++ textAt ins src.length

/-! ## Positions -/

theorem textAt_cons (i : Insertion) (ins : List Insertion) (p : Nat) :
    textAt (i :: ins) p = (if i.offset.toNat = p then i.text else []) ++ textAt ins p := by
  unfold textAt
  rw [List.filter_cons]
  by_cases h : i.offset.toNat = p <;> simp [h]

theorem textAt_append (I J : List Insertion) (p : Nat) : textAt (I ++ J) p = textAt I p ++ textAt J p := by
  unfold textAt
  rw [List.filter_append, List.flatMap_append]

theorem textAt_eq_nil {ins : List Insertion} {p : Nat} (h : ∀ i ∈ ins, i.offset.toNat ≠ p) : textAt ins p = [] := by
  unfold textAt
  rw [List.filter_eq_nil_iff.2 (by simpa using h)]
  rfl

@[simp] theorem shift_zero (ins : List Insertion) : shift ins 0 = 0 := by
  unfold shift
  rw [List.filter_eq_nil_iff.2 (by simp)]
  rfl

theorem shift_cons (i : Insertion) (ins : List Insertion) (p : Nat) :
    shift (i :: ins) p = (if i.offset.toNat < p then i.text.length else 0) + shift ins p := by
  unfold shift
  rw [List.filter_cons]
  by_cases h : i.offset.toNat < p <;> simp [h]

theorem shift_succ (ins : List Insertion) (p : Nat) : shift ins (p + 1) = shift ins p + (textAt ins p).length := by
  induction ins with
  | nil => rfl
  | cons i ins ih =>
    rw [shift_cons, shift_cons, textAt_cons, List.length_append, ih]
    by_cases heq : i.offset.toNat = p
    · rw [if_pos (by omega), if_neg (by omega), if_pos heq]
      omega
    · rw [if_neg heq, List.length_nil]
      by_cases hlt : i.offset.toNat < p
      · rw [if_pos (by omega), if_pos hlt]
        omega
      · rw [if_neg (by omega), if_neg hlt]
        omega

theorem shift_mono (ins : List Insertion) {p q : Nat} (h : p ≤ q) : shift ins p ≤ shift ins q := by
  induction q with
  | zero => rw [Nat.le_zero.1 h]
  | succ q ih =>
    rcases Nat.lt_or_ge q p with hlt | hge
    · rw [show p = q + 1 by omega]
    · rw [shift_succ]
      have := ih hge
      omega

/-- Nothing inserted between two positions: both move alike. -/
theorem shift_eq {ins : List Insertion} {p q : Nat} (hpq : p ≤ q)
    (h : ∀ i ∈ ins, ¬ (p ≤ i.offset.toNat ∧ i.offset.toNat < q)) : shift ins q = shift ins p := by
  unfold shift
  congr 2
  refine List.filter_congr fun i hi => ?_
  have := h i hi
  simp only [decide_eq_decide]
  omega

/-! ## Lacing -/

theorem laced_append (ins : List Insertion) (s t : Text) (p : Nat) :
    laced ins p (s ++ t) = laced ins p s ++ laced ins (p + s.length) t := by
  induction s generalizing p with
  | nil => rfl
  | cons b s ih =>
    rw [List.cons_append, laced, laced, ih (p + 1), List.append_assoc, List.cons_append, List.length_cons]
    rw [show p + 1 + s.length = p + (s.length + 1) by omega]

theorem length_laced (ins : List Insertion) (t : Text) (p : Nat) :
    (laced ins p t).length + shift ins p = t.length + shift ins (p + t.length) := by
  induction t generalizing p with
  | nil => simp [laced]
  | cons b t ih =>
    have h1 := ih (p + 1)
    have h2 := shift_succ ins p
    rw [laced, List.length_append, List.length_cons, List.length_cons,
      show p + (t.length + 1) = p + 1 + t.length by omega]
    omega

theorem laced_congr {I J : List Insertion} (t : Text) (p : Nat)
    (h : ∀ q, p ≤ q → q < p + t.length → textAt I q = textAt J q) : laced I p t = laced J p t := by
  induction t generalizing p with
  | nil => rfl
  | cons b t ih =>
    rw [List.length_cons] at h
    rw [laced, laced, h p le_rfl (by omega), ih (p + 1) fun q h1 h2 => h q (by omega) (by omega)]

theorem laced_nil (t : Text) (p : Nat) : laced [] p t = t := by
  induction t generalizing p with
  | nil => rfl
  | cons b t ih => rw [laced, ih]; rfl

theorem weave_nil (src : Text) : weave [] src = src := by
  unfold weave
  rw [laced_nil]
  exact List.append_nil src

/-- Where nothing is inserted the text stays as it is. -/
theorem laced_eq {ins : List Insertion} {t : Text} {p : Nat}
    (h : ∀ i ∈ ins, ¬ (p ≤ i.offset.toNat ∧ i.offset.toNat < p + t.length)) : laced ins p t = t := by
  rw [laced_congr (J := []) t p, laced_nil]
  intro q h1 h2
  refine (textAt_eq_nil fun i hi he => ?_).trans rfl
  exact h i hi ⟨by omega, by omega⟩

/-! ## Applying is weaving -/

/-- One more insertion, before all others. -/
theorem splice_weave {J : List Insertion} {i : Insertion} {src : Text} (hi : i.offset.toNat ≤ src.length)
    (hJ : ∀ j ∈ J, i.offset.toNat ≤ j.offset.toNat) : splice (weave J src) i = weave (i :: J) src := by
  obtain ⟨A, B, rfl, hA⟩ : ∃ A B, src = A ++ B ∧ A.length = i.offset.toNat :=
    ⟨src.take i.offset.toNat, src.drop i.offset.toNat, (List.take_append_drop _ _).symm, by simp [hi]⟩
  -- nothing goes before the offset, neither with the new insertion nor without
  have hlead : ∀ I : List Insertion, (∀ j ∈ I, i.offset.toNat ≤ j.offset.toNat) → laced I 0 A = A := by
    intro I hI
    refine laced_eq fun j hj h => ?_
    have := hI j hj
    omega
  unfold weave splice
  rw [laced_append, laced_append, hlead J hJ, hlead (i :: J) (List.forall_mem_cons.2 ⟨le_rfl, hJ⟩), ← hA]
  simp only [List.append_assoc, List.take_left, List.drop_left, Nat.zero_add]
  congr 1
  cases B with
  | nil => simp [laced, textAt_cons, hA]
  | cons b B =>
    have hrest : laced (i :: J) (A.length + 1) B = laced J (A.length + 1) B := by
      refine laced_congr B _ fun q h1 h2 => ?_
      rw [textAt_cons, if_neg (by omega)]
      rfl
    have hend : textAt (i :: J) (A ++ b :: B).length = textAt J (A ++ b :: B).length := by
      rw [textAt_cons, if_neg (by rw [← hA, List.length_append, List.length_cons]; omega)]
      rfl
    rw [laced, laced, hrest, hend, textAt_cons, if_pos hA.symm]
    simp only [List.append_assoc, List.cons_append]

theorem foldl_splice_weave {src : Text} : ∀ (L J : List Insertion), (∀ i ∈ L, i.offset.toNat ≤ src.length) →
    L.Pairwise (fun a b => b.offset.toNat ≤ a.offset.toNat) →
      (∀ i ∈ L, ∀ j ∈ J, i.offset.toNat ≤ j.offset.toNat) → L.foldl splice (weave J src) = weave (L.reverse ++ J) src
  | [], _, _, _, _ => rfl
  | i :: L, J, hr, hs, hJ => by
    obtain ⟨hi, hs⟩ := List.pairwise_cons.1 hs
    rw [List.foldl_cons, splice_weave (hr i (List.mem_cons_self ..)) (hJ i (List.mem_cons_self ..)),
      foldl_splice_weave L (i :: J) (fun j hj => hr j (List.mem_cons_of_mem _ hj)) hs, List.reverse_cons,
      List.append_assoc]
    · rfl
    · intro j hj
      exact List.forall_mem_cons.2 ⟨hi j hj, hJ j (List.mem_cons_of_mem _ hj)⟩

theorem mem_order {ins : List Insertion} {i : Insertion} : i ∈ order ins ↔ i ∈ ins := by
  unfold order
  rw [(List.mergeSort_perm _ _).mem_iff, List.mem_reverse]

theorem order_trans (a b c : Insertion) (hab : decide (b.offset ≤ a.offset) = true)
    (hbc : decide (c.offset ≤ b.offset) = true) :
    decide (c.offset ≤ a.offset) = true := by
  simp only [decide_eq_true_eq] at *
  exact hbc.trans hab

theorem order_total (a b : Insertion) : (decide (b.offset ≤ a.offset) || decide (a.offset ≤ b.offset)) = true := by
  simp only [Bool.or_eq_true, decide_eq_true_eq]
  exact Int.le_total _ _

theorem pairwise_order (ins : List Insertion) : (order ins).Pairwise fun a b => b.offset ≤ a.offset :=
  (List.pairwise_mergeSort order_trans order_total ins.reverse).imp fun h => by simpa using h

/-- The order of application keeps the insertions of one offset together, the last listed first. -/
theorem filter_order {ins : List Insertion} (hin : ∀ i ∈ ins, 0 ≤ i.offset) (p : Nat) :
    (order ins).filter (fun i => i.offset.toNat = p) = (ins.filter fun i => i.offset.toNat = p).reverse := by
  rw [← List.filter_reverse]
  refine filter_mergeSort order_trans order_total fun a ha b hb hap hbp => ?_
  have := hin a (List.mem_reverse.1 ha)
  have := hin b (List.mem_reverse.1 hb)
  simp only [decide_eq_true_eq] at hap hbp ⊢
  omega

theorem textAt_order {ins : List Insertion} (hin : ∀ i ∈ ins, 0 ≤ i.offset) (p : Nat) :
    textAt (order ins).reverse p = textAt ins p := by
  unfold textAt
  rw [List.filter_reverse, filter_order hin, List.reverse_reverse]

/-- Insertions that fit are made, and the result is the text they are woven into. -/
theorem apply_eq_weave {src : Text} {ins : List Insertion} (h : ∀ i ∈ ins, i.InRange src.length) :
    apply src ins = .ok (weave ins src) := by
  have hin : ∀ i ∈ ins, 0 ≤ i.offset := fun i hi => (h i hi).1
  have hfit : ∀ i ∈ order ins, i.offset.toNat ≤ src.length := by
    intro i hi
    have := h i (mem_order.1 hi)
    unfold InRange at this
    omega
  have hsorted : (order ins).Pairwise fun a b => b.offset.toNat ≤ a.offset.toNat :=
    (pairwise_order ins).imp fun h => Int.toNat_le_toNat h
  have hnone : ins.find? (fun i => !decide (i.InRange src.length)) = none := by
    rw [List.find?_eq_none]
    intro i hi
    simpa using h i hi
  unfold apply
  rw [hnone]
  simp only
  conv_lhs => rw [← weave_nil src]
  rw [foldl_splice_weave (order ins) [] hfit hsorted (by simp), List.append_nil]
  unfold weave
  rw [textAt_order hin, laced_congr src 0 fun q _ _ => textAt_order hin q]

/-! ## What stands in the result -/

theorem length_laced_zero (ins : List Insertion) (t : Text) :
    (laced ins 0 t).length = t.length + shift ins t.length := by
  have := length_laced ins t 0
  rwa [shift_zero, Nat.zero_add] at this

theorem length_weave (ins : List Insertion) (src : Text) :
    (weave ins src).length = src.length + shift ins (src.length + 1) := by
  unfold weave
  rw [List.length_append, length_laced_zero, shift_succ, Nat.add_assoc]

/-- A stretch of the source with nothing inserted inside it stands in the result as it is. -/
theorem slice_kept {ins : List Insertion} {src : Text} {p q : Nat} (hpq : p < q) (hq : q ≤ src.length)
    (hno : ∀ i ∈ ins, ¬ (p < i.offset.toNat ∧ i.offset.toNat < q)) :
    Text.slice (weave ins src) (p + shift ins (p + 1)) (q + shift ins q) = Text.slice src p q := by
  obtain ⟨A, b, M, C, rfl, hA, hM⟩ : ∃ A b M C, src = A ++ b :: M ++ C ∧ A.length = p ∧ p + 1 + M.length = q := by
    refine ⟨src.take p, src.get ⟨p, by omega⟩, (src.take q).drop (p + 1), src.drop q, ?_, ?_, ?_⟩
    · conv_lhs => rw [← List.take_append_drop q src, ← List.take_append_drop p (src.take q)]
      rw [List.take_take, Nat.min_eq_left hpq.le]
      congr 2
      rw [List.drop_eq_getElem_cons (by rw [List.length_take]; omega)]
      simp
    · rw [List.length_take]; omega
    · rw [List.length_drop, List.length_take]; omega
  -- the stretch is `b :: M`: what goes at its first position stands before it
  have hmid : laced ins (p + 1) M = M := laced_eq fun i hi h => hno i hi ⟨by omega, by omega⟩
  have hx : (laced ins 0 A ++ textAt ins p).length = p + shift ins (p + 1) := by
    rw [List.length_append, length_laced_zero, hA, shift_succ]
    omega
  have hy : (b :: M).length = M.length + 1 := rfl
  have hq' : q + shift ins q = (laced ins 0 A ++ textAt ins p).length + (b :: M).length := by
    rw [hx, hy, shift_eq (show p + 1 ≤ q by omega) fun i hi h => hno i hi ⟨by omega, h.2⟩]
    omega
  have hw : weave ins (A ++ b :: M ++ C) =
      (laced ins 0 A ++ textAt ins p) ++ (b :: M) ++ (laced ins q C ++ textAt ins (A ++ b :: M ++ C).length) := by
    unfold weave
    rw [laced_append, laced_append, laced, Nat.zero_add, Nat.zero_add, hA, hmid, List.length_append, hA, hy,
      show p + (M.length + 1) = q by omega]
    simp only [List.append_assoc]
  rw [hw, hq', ← hx, Text.slice_append, ← hA, show q = A.length + (b :: M).length by rw [hA, hy]; omega,
    Text.slice_append]

/-- Where an insertion begins in the result. -/
def landing (ins : List Insertion) (k : Nat) (i : Insertion) : Nat :=
  i.offset.toNat + shift ins i.offset.toNat + (textAt (ins.take k) i.offset.toNat).length

/-- Of what goes at the position of an insertion, the insertions listed earlier stand before it. -/
theorem textAt_split {ins : List Insertion} {k : Nat} {i : Insertion} (hk : ins[k]? = some i) :
    textAt ins i.offset.toNat =
      textAt (ins.take k) i.offset.toNat ++ i.text ++ textAt (ins.drop (k + 1)) i.offset.toNat := by
  obtain ⟨hlt, he⟩ := List.getElem?_eq_some_iff.1 hk
  conv_lhs => rw [← List.take_append_drop k ins, textAt_append, List.drop_eq_getElem_cons hlt, he, textAt_cons,
    if_pos rfl]
  rw [List.append_assoc]

/-- Every insertion stands in the result as it was given. -/
theorem slice_landing {ins : List Insertion} {src : Text} {k : Nat} {i : Insertion} (hk : ins[k]? = some i)
    (hi : i.offset.toNat ≤ src.length) {u v : Text} (huv : i.text = u ++ v) :
    Text.slice (weave ins src) (landing ins k i) (landing ins k i + u.length) = u := by
  obtain ⟨A, B, rfl, hA⟩ : ∃ A B, src = A ++ B ∧ A.length = i.offset.toNat :=
    ⟨src.take i.offset.toNat, src.drop i.offset.toNat, (List.take_append_drop _ _).symm, by simp [hi]⟩
  have hsplit : textAt ins A.length =
      textAt (ins.take k) A.length ++ u ++ (v ++ textAt (ins.drop (k + 1)) A.length) := by
    rw [hA, textAt_split hk, huv]
    simp only [List.append_assoc]
  have hw : ∃ y, weave ins (A ++ B) = laced ins 0 A ++ textAt ins A.length ++ y := by
    unfold weave
    rw [laced_append, Nat.zero_add]
    cases B with
    | nil => exact ⟨[], by simp [laced]⟩
    | cons b B => exact ⟨b :: laced ins (A.length + 1) B ++ textAt ins (A ++ b :: B).length, by simp [laced]⟩
  obtain ⟨y, hw⟩ := hw
  have hx : (laced ins 0 A ++ textAt (ins.take k) A.length).length = landing ins k i := by
    unfold landing
    rw [List.length_append, length_laced_zero, ← hA]
  rw [hw, hsplit, ← hx]
  have := Text.slice_append (laced ins 0 A ++ textAt (ins.take k) A.length) u
    (v ++ textAt (ins.drop (k + 1)) A.length ++ y)
  simpa only [List.append_assoc] using this

end DocAtlas.Insertion
