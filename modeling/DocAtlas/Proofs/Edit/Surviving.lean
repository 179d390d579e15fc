/-
When a change can be shown as a diff: exactly if the lines before are among the lines after, in their
order. The alignment keeps a line as soon as it can, and gives up a match only if too few lines follow,
when there is nothing left to find.

Insertions can always be shown if they come at the start of their lines: the text inserted ends with a
newline and what stands before the offset on its line, so the line is cut into a new one and itself.
-/
import DocAtlas.Edit.Patch
import DocAtlas.Proofs.Edit.Splicing

namespace DocAtlas

namespace Patch

/-! ## Alignment -/

/-- The alignment finds the lines before among the lines after if they are there. -/
theorem alignFrom_isSome_iff {old new : List Text} (i j : Nat) :
    (alignFrom i j old new).isSome = true ↔ old.Sublist new := by
  induction new generalizing i j old with
  | nil => cases old <;> simp [alignFrom]
  | cons line rest ih =>
    cases old with
    | nil => simp [alignFrom, ih]
    | cons o old =>
      rw [alignFrom]
      by_cases hline : line = o
      · subst hline
        by_cases hroom : old.length ≤ rest.length
        · rw [if_pos ⟨rfl, hroom⟩, Option.isSome_map, ih, List.cons_sublist_cons]
        · -- too few lines are left, with this one or without
          rw [if_neg (fun h => hroom h.2), Option.isSome_map, ih, List.cons_sublist_cons]
          refine iff_of_false (fun h => ?_) fun h => hroom h.length_le
          have := h.length_le
          rw [List.length_cons] at this
          omega
      · rw [if_neg (fun h => hline h.1), Option.isSome_map, ih]
        constructor
        · exact fun h => h.cons _
        · intro h
          cases h with
          | cons _ h => exact h
          | cons_cons _ _ => exact absurd rfl hline

/-- A change has a diff exactly if the lines before survive in the text after. -/
theorem diff_ok_iff (path before after : Text) :
    (∃ p, diff path before after = .ok p) ↔ (linesOf before).Sublist (linesOf after) := by
  unfold diff
  by_cases heq : before = after
  · rw [if_pos heq, heq]
    exact ⟨fun _ => List.Sublist.refl _, fun _ => ⟨_, rfl⟩⟩
  · rw [if_neg heq, ← alignFrom_isSome_iff 1 1]
    unfold hunks? align?
    cases alignFrom 1 1 (linesOf before) (linesOf after) with
    | none => simp
    | some ls =>
      simp only [Option.map_some, Option.isSome_some, iff_true]
      cases (gather none [] ls).map Hunk.ofLines with
      | nil => exact ⟨_, rfl⟩
      | cons h hs => exact ⟨_, rfl⟩

/-! ## Lines -/

theorem trimSuffix_concat (t : Text) (b : UInt8) :
    Text.trimSuffix [Text.newline] (t ++ [b]) = if b = Text.newline then t else t ++ [b] := by
  have hsuffix : [Text.newline].isSuffixOf (t ++ [b]) = decide (b = Text.newline) := by
    rw [Bool.eq_iff_iff, List.isSuffixOf_iff_suffix, decide_eq_true_eq]
    constructor
    · rintro ⟨u, hu⟩
      exact (List.singleton_inj.1 (List.append_inj_right' hu rfl)).symm
    · rintro rfl
      exact ⟨t, rfl⟩
  unfold Text.trimSuffix Text.dropSuffix?
  by_cases hb : b = Text.newline <;> simp [hsuffix, hb]

/-- A newline inside a text parts its lines. -/
theorem linesOf_append (s : Text) {t : Text} (ht : t ≠ []) :
    linesOf (s ++ Text.newline :: t) = Text.lines s ++ linesOf t := by
  obtain rfl | ⟨u, b, rfl⟩ := List.eq_nil_or_concat' t
  · exact absurd rfl ht
  have htrim : Text.trimSuffix [Text.newline] (s ++ Text.newline :: (u ++ [b])) =
      s ++ Text.newline :: Text.trimSuffix [Text.newline] (u ++ [b]) := by
    have hassoc : s ++ Text.newline :: (u ++ [b]) = (s ++ Text.newline :: u) ++ [b] := by simp
    rw [hassoc, trimSuffix_concat, trimSuffix_concat]
    by_cases hb : b = Text.newline <;> simp [hb]
  unfold linesOf
  rw [if_neg (by simp), if_neg (by simp), htrim, Text.lines_append]

end Patch

namespace Insertion

/-! ## Insertions at the start of a line -/

/-- What stands before an offset on its line. -/
def lineLead (src : Text) (offset : Nat) : Text := ((src.take offset).reverse.takeWhile (· != Text.newline)).reverse

/-- The insertion cuts a line into a new one and itself: what it inserts ends with a newline and what
stands before the offset on its line. -/
def CutsLine (src : Text) (i : Insertion) : Prop :=
  i.offset.toNat < src.length ∧ ∃ body, i.text = body ++ Text.newline :: lineLead src i.offset.toNat

/-- The part of a text before an offset is what is on its line, after nothing or after a newline. -/
theorem take_eq_lineLead (src : Text) (offset : Nat) :
    src.take offset = lineLead src offset ∨ ∃ s, src.take offset = s ++ Text.newline :: lineLead src offset := by
  have hsplit := congrArg List.reverse
    (List.takeWhile_append_dropWhile (p := (· != Text.newline)) (l := (src.take offset).reverse))
  rw [List.reverse_append, List.reverse_reverse] at hsplit
  unfold lineLead
  cases hrest : (src.take offset).reverse.dropWhile (· != Text.newline) with
  | nil =>
    rw [hrest, List.reverse_nil, List.nil_append] at hsplit
    exact .inl hsplit.symm
  | cons b rest =>
    -- the line begins after the byte at which the search back stops
    have hb : b = Text.newline := by
      have hne : (src.take offset).reverse.dropWhile (· != Text.newline) ≠ [] := by simp [hrest]
      simpa [hrest] using List.head_dropWhile_not (· != Text.newline) hne
    refine .inr ⟨rest.reverse, ?_⟩
    rw [hrest, hb, List.reverse_cons, List.append_assoc] at hsplit
    exact hsplit.symm

/-- Every line survives a cut. -/
theorem linesOf_splice {src : Text} {i : Insertion} (h : i.CutsLine src) :
    (Patch.linesOf src).Sublist (Patch.linesOf (splice src i)) := by
  obtain ⟨hlt, body, htext⟩ := h
  have hline : lineLead src i.offset.toNat ++ src.drop i.offset.toNat ≠ [] := by simp; omega
  have hcut : (Patch.linesOf (lineLead src i.offset.toNat ++ src.drop i.offset.toNat)).Sublist
      (Patch.linesOf ((lineLead src i.offset.toNat ++ body) ++
        Text.newline :: (lineLead src i.offset.toNat ++ src.drop i.offset.toNat))) := by
    rw [Patch.linesOf_append _ hline]
    exact List.sublist_append_right _ _
  unfold splice
  rw [htext]
  rcases take_eq_lineLead src i.offset.toNat with htake | ⟨s, htake⟩
  · conv_lhs => rw [← List.take_append_drop i.offset.toNat src]
    rw [htake]
    simpa only [List.append_assoc, List.cons_append] using hcut
  · conv_lhs => rw [← List.take_append_drop i.offset.toNat src]
    rw [htake]
    have := hcut.append_left (Text.lines s)
    rw [← Patch.linesOf_append _ hline, ← Patch.linesOf_append _ (by simp)] at this
    simpa only [List.append_assoc, List.cons_append] using this

/-- A cut leaves the text before its offset, so it stays a cut after one further on. -/
theorem CutsLine.splice {src : Text} {i j : Insertion} (hj : j.CutsLine src) (h : i.offset.toNat ≤ src.length)
    (hji : j.offset.toNat ≤ i.offset.toNat) : j.CutsLine (splice src i) := by
  obtain ⟨hlt, body, htext⟩ := hj
  have htake : (Insertion.splice src i).take j.offset.toNat = src.take j.offset.toNat := by
    unfold Insertion.splice
    rw [List.append_assoc, List.take_append_of_le_length (by rw [List.length_take]; omega), List.take_take,
      Nat.min_eq_left hji]
  refine ⟨?_, body, ?_⟩
  · simp [Insertion.splice]
    omega
  · rw [htext]
    unfold lineLead
    rw [htake]

/-- Lines survive insertions that come at the start of theirs. -/
theorem linesOf_foldl_splice {src : Text} (L : List Insertion) (hL : ∀ i ∈ L, i.CutsLine src)
    (hsorted : L.Pairwise fun a b => b.offset.toNat ≤ a.offset.toNat) :
    (Patch.linesOf src).Sublist (Patch.linesOf (L.foldl splice src)) := by
  induction L generalizing src with
  | nil => exact List.Sublist.refl _
  | cons i L ih =>
    obtain ⟨hi, hL⟩ := List.forall_mem_cons.1 hL
    obtain ⟨hfirst, hsorted⟩ := List.pairwise_cons.1 hsorted
    exact (linesOf_splice hi).trans (ih (fun j hj => (hL j hj).splice hi.1.le (hfirst j hj)) hsorted)

theorem linesOf_apply {src out : Text} {ins : List Insertion} (h : apply src ins = .ok out)
    (hins : ∀ i ∈ ins, i.CutsLine src) :
    (Patch.linesOf src).Sublist (Patch.linesOf out) := by
  unfold apply at h
  split at h
  · cases h
  · cases h
    exact linesOf_foldl_splice _ (fun i hi => hins i (mem_order.1 hi))
      ((pairwise_order ins).imp fun h => Int.toNat_le_toNat h)

end Insertion

end DocAtlas
