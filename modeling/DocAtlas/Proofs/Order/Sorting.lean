/-
Sorting is stable: members that compare as equal keep their order. So a list sorted by one key and then by
another is in order by the second key, and by the first where the second does not decide. And lists that are related
member by member stay so, if related members are compared alike.
-/
import Mathlib.Tactic

namespace DocAtlas

section Stable

variable {α : Type} {le : α → α → Bool}

/-- Members that are in order already stay as they are. -/
theorem filter_mergeSort (htrans : ∀ a b c, le a b = true → le b c = true → le a c = true)
    (htotal : ∀ a b, (le a b || le b a) = true) {p : α → Bool} {l : List α}
    (h : ∀ a ∈ l, ∀ b ∈ l, p a = true → p b = true → le a b = true) : (l.mergeSort le).filter p = l.filter p := by
  have hsub : (l.filter p).Sublist (l.mergeSort le) := by
    refine List.sublist_mergeSort htrans htotal (List.pairwise_of_forall_mem_list fun a ha b hb => ?_)
      List.filter_sublist
    obtain ⟨ha, hpa⟩ := List.mem_filter.1 ha
    obtain ⟨hb, hpb⟩ := List.mem_filter.1 hb
    exact h a ha b hb hpa hpb
  have hfilter := hsub.filter p
  rw [List.filter_filter] at hfilter
  simp only [Bool.and_self] at hfilter
  exact (hfilter.eq_of_length ((List.mergeSort_perm l le).filter p).length_eq.symm).symm

end Stable

/-- A list in some order, sorted by a key: the key decides, and where it does not the order is the old one. -/
theorem pairwise_mergeSort_key {α : Type} (key : α → Nat) {R : α → α → Prop} {l : List α} (h : l.Pairwise R) :
    (l.mergeSort fun a b => decide (key a ≤ key b)).Pairwise fun a b => key a < key b ∨ key a = key b ∧ R a b := by
  have htrans : ∀ a b c, decide (key a ≤ key b) = true → decide (key b ≤ key c) = true →
    decide (key a ≤ key c) = true := by
    intro a b c hab hbc
    simp only [decide_eq_true_eq] at *
    exact hab.trans hbc
  have htotal : ∀ a b, (decide (key a ≤ key b) || decide (key b ≤ key a)) = true := by
    intro a b
    simp only [Bool.or_eq_true, decide_eq_true_eq]
    exact Nat.le_total _ _
  rw [List.pairwise_iff_forall_sublist]
  intro a b hab
  have hle : key a ≤ key b := by
    simpa using List.pairwise_iff_forall_sublist.1 (List.pairwise_mergeSort htrans htotal l) hab
  refine hle.lt_or_eq.imp_right fun heq => ⟨heq, ?_⟩
  -- the two are among the members with this key, which stand as they stood
  have hkeep : (l.mergeSort fun a b => decide (key a ≤ key b)).filter (fun c => key c = key b) =
      l.filter fun c => key c = key b := by
    refine filter_mergeSort htrans htotal fun c _ d _ hc hd => ?_
    simp only [decide_eq_true_eq] at *
    exact (hc.trans hd.symm).le
  have hpair := hab.filter fun c => decide (key c = key b)
  rw [hkeep] at hpair
  simp only [List.filter_cons, heq, decide_true, if_true, List.filter_nil] at hpair
  exact List.pairwise_iff_forall_sublist.1 h (hpair.trans List.filter_sublist)

/-- Sorting keeps lists related if it compares related members alike. -/
theorem forall₂_mergeSort {α β : Type} {S : α → β → Prop} {le : α → α → Bool} {le' : β → β → Bool} {l : List α}
    {l' : List β} (h : List.Forall₂ S l l') (hle : ∀ a a' b b', S a a' → S b b' → le a b = le' a' b') :
    List.Forall₂ S (l.mergeSort le) (l'.mergeSort le') := by
  obtain ⟨hlength, hzip⟩ := List.forall₂_iff_zip.1 h
  -- both are the list of pairs, sorted by its first or by its second members
  have hpairs : ∀ p ∈ l.zip l', S p.1 p.2 := fun p hp => hzip hp
  have hfst := List.map_mergeSort (r := fun p q => le p.1 q.1) (f := Prod.fst) (s := le) (l := l.zip l')
    fun _ _ _ _ => rfl
  have hsnd := List.map_mergeSort (r := fun p q => le p.1 q.1) (f := Prod.snd) (s := le') (l := l.zip l')
    fun p hp q hq => hle _ _ _ _ (hpairs p hp) (hpairs q hq)
  rw [List.map_fst_zip (Nat.le_of_eq hlength)] at hfst
  rw [List.map_snd_zip (Nat.le_of_eq hlength.symm)] at hsnd
  rw [← hfst, ← hsnd, List.forall₂_map_left_iff, List.forall₂_map_right_iff, List.forall₂_same]
  exact fun p hp => hpairs p (List.mem_mergeSort.1 hp)

end DocAtlas
