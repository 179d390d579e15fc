/-
What a query lists. Its patterns are tried at every place of a tree, and the matches are sorted twice: by their
last captures, which is the order they are found in, and by where the places start, which is the order they are
recorded in. If a match is recorded at some places and at no other, and once at each, then the records are those
of these places, sorted by where they start; of two that start together the one whose match ended first comes
first.
-/
import DocAtlas.Knowledge.Symbols
import DocAtlas.Proofs.Order.Sorting
import DocAtlas.Proofs.Tree.Commented

namespace DocAtlas

namespace Cursor

/-! ## The places of a tree -/

theorem mem_preorder {c d : Cursor} : d ∈ c.preorder ↔ c.Contains d := by
  constructor
  · obtain ⟨n, above⟩ := c
    induction n using Node.ind generalizing above with
    | h n ih =>
      intro h
      rw [preorder_eq] at h
      rcases List.mem_cons.1 h with rfl | h
      · exact .refl _
      · obtain ⟨e, he, hd⟩ := List.mem_flatMap.1 h
        exact (contains_of_child he).trans (ih e.node (node_mem_of_child he) e.above hd)
  · intro h
    induction h using Relation.ReflTransGen.head_induction_on with
    | refl =>
      rw [preorder_eq]
      exact List.mem_cons_self ..
    | head hchild _ ih =>
      rw [preorder_eq]
      exact List.mem_cons_of_mem _ (List.mem_flatMap.2 ⟨_, hchild, ih⟩)

/-- Every place of a tree comes once. -/
theorem nodup_preorder (c : Cursor) : c.preorder.Nodup := by
  obtain ⟨n, above⟩ := c
  induction n using Node.ind generalizing above with
  | h n ih =>
    rw [preorder_eq, List.nodup_cons, List.nodup_flatMap]
    refine ⟨fun h => ?_, fun d hd => ih d.node (node_mem_of_child hd) d.above, ?_⟩
    · obtain ⟨d, hd, hc⟩ := List.mem_flatMap.1 h
      exact ne_of_child_contains hd (mem_preorder.1 hc) rfl
    · refine (pairwise_children _).imp fun ⟨hlength, hne⟩ => List.disjoint_left.2 fun x hx hx' => ?_
      exact (Apart.of_siblings hlength hne (mem_preorder.1 hx).path (mem_preorder.1 hx').path).1 (List.suffix_refl _)

/-- The places of a tree at which there is a node of some sort: each of them once, sorted by where they start. -/
structure Enumerates (root : Node) (sort : Node → Bool) (places : List Cursor) : Prop where
  nodup : places.Nodup
  mem : ∀ c, c ∈ places ↔ c ∈ (ofRoot root).preorder ∧ sort c.node = true
  sorted : places.Pairwise fun a b => a.node.start ≤ b.node.start

end Cursor

/-! ## Records in document order -/

/-- Records of places, put in document order. -/
theorem inDocumentOrder_eq {α : Type} (items : List (Cursor × α)) :
    inDocumentOrder (items.map fun x => (x.1.node.start, x.2)) =
      (items.mergeSort fun x y => decide (x.1.node.start ≤ y.1.node.start)).map Prod.snd := by
  have hsort := List.map_mergeSort (r := fun x y : Cursor × α => decide (x.1.node.start ≤ y.1.node.start))
    (s := fun a b : Nat × α => decide (a.1 ≤ b.1)) (f := fun x : Cursor × α => (x.1.node.start, x.2)) (l := items)
    fun _ _ _ _ => rfl
  unfold inDocumentOrder
  rw [← hsort, List.map_map]
  rfl

namespace QueryKind

theorem mem_run {q : QueryKind} {g : Grammar} {root : Node} {m : Match} :
    m ∈ q.run g root ↔ ∃ c ∈ (Cursor.ofRoot root).preorder, m ∈ matchesAt (q.patterns g) c := by
  rw [run, List.mem_mergeSort, List.mem_flatMap]

/-- A match at the one place ends no later than a match at the other. -/
def EndsBefore (ps : List Pattern) (a b : Cursor) : Prop :=
  ∃ m ∈ matchesAt ps a, ∃ m' ∈ matchesAt ps b, m.lastStart ≤ m'.lastStart

section Listing

variable {α : Type} {record? : Match → Option (Nat × α)} {at? : Cursor → Option α}

/-- The matches at a place, with the place. -/
def placedAt (ps : List Pattern) (c : Cursor) : List (Cursor × Match) := (matchesAt ps c).map fun m => (c, m)

/-- The record of a match, with the place. -/
def placedRecord? (record? : Match → Option (Nat × α)) (x : Cursor × Match) : Option (Cursor × α) :=
  (record? x.2).map fun r => (x.1, r.2)

/-- The matches of a query with their places, in the order of the query. -/
def placed (q : QueryKind) (g : Grammar) (root : Node) : List (Cursor × Match) :=
  ((Cursor.ofRoot root).preorder.flatMap (placedAt (q.patterns g))).mergeSort
    fun x y => decide (x.2.lastStart ≤ y.2.lastStart)

variable {q : QueryKind} {g : Grammar} {root : Node}

theorem map_snd_placed : (placed q g root).map Prod.snd = q.run g root := by
  have hsort := List.map_mergeSort (r := fun x y : Cursor × Match => decide (x.2.lastStart ≤ y.2.lastStart))
    (s := fun a b : Match => decide (a.lastStart ≤ b.lastStart)) (f := Prod.snd)
    (l := (Cursor.ofRoot root).preorder.flatMap (placedAt (q.patterns g))) fun _ _ _ _ => rfl
  unfold placed run
  rw [hsort, List.map_flatMap]
  simp [placedAt]

theorem mem_placed {x : Cursor × Match} :
    x ∈ placed q g root ↔ x.1 ∈ (Cursor.ofRoot root).preorder ∧ x.2 ∈ matchesAt (q.patterns g) x.1 := by
  unfold placed placedAt
  rw [List.mem_mergeSort, List.mem_flatMap]
  constructor
  · rintro ⟨c, hc, hx⟩
    obtain ⟨m, hm, rfl⟩ := List.mem_map.1 hx
    exact ⟨hc, hm⟩
  · rintro ⟨hc, hm⟩
    exact ⟨x.1, hc, List.mem_map.2 ⟨x.2, hm, rfl⟩⟩

theorem pairwise_placed : (placed q g root).Pairwise fun x y => EndsBefore (q.patterns g) x.1 y.1 := by
  have hsorted := pairwise_mergeSort_key (fun x : Cursor × Match => x.2.lastStart)
    (l := (Cursor.ofRoot root).preorder.flatMap (placedAt (q.patterns g))) (List.pairwise_of_forall fun _ _ => trivial)
  refine hsorted.imp_of_mem fun {x y} hx hy hle => ?_
  exact ⟨x.2, (mem_placed.1 hx).2, y.2, (mem_placed.1 hy).2, hle.elim Nat.le_of_lt fun h => h.1.le⟩

variable (h : ∀ c ∈ (Cursor.ofRoot root).preorder,
  (matchesAt (q.patterns g) c).filterMap record? = ((at? c).map fun x => (c.node.start, x)).toList)

include h

/-- The record of a match is the one of its place. -/
theorem at?_of_record {c : Cursor} (hc : c ∈ (Cursor.ofRoot root).preorder) {m : Match}
    (hm : m ∈ matchesAt (q.patterns g) c) {r : Nat × α} (hr : record? m = some r) :
      r.1 = c.node.start ∧ at? c = some r.2 := by
  have hmem : r ∈ ((at? c).map fun x => (c.node.start, x)).toList := h c hc ▸ List.mem_filterMap.2 ⟨m, hm, hr⟩
  obtain ⟨x, hx, rfl⟩ := Option.map_eq_some_iff.1 (Option.mem_toList.1 hmem)
  exact ⟨rfl, hx⟩

theorem mem_records {x : α} : x ∈ inDocumentOrder ((q.run g root).filterMap record?) ↔
    ∃ c ∈ (Cursor.ofRoot root).preorder, at? c = some x := by
  unfold inDocumentOrder
  simp only [List.mem_map, List.mem_mergeSort, List.mem_filterMap, mem_run]
  constructor
  · rintro ⟨r, ⟨m, ⟨c, hc, hm⟩, hr⟩, rfl⟩
    exact ⟨c, hc, (at?_of_record h hc hm hr).2⟩
  · rintro ⟨c, hc, hx⟩
    have hmem : (c.node.start, x) ∈ (matchesAt (q.patterns g) c).filterMap record? := by
      rw [h c hc, hx]
      exact List.mem_singleton_self _
    obtain ⟨m, hm, hr⟩ := List.mem_filterMap.1 hmem
    exact ⟨_, ⟨m, ⟨c, hc, hm⟩, hr⟩, rfl⟩

/-- A query records the matches at their places. -/
theorem filterMap_run : (q.run g root).filterMap record? =
    ((placed q g root).filterMap (placedRecord? record?)).map fun x => (x.1.node.start, x.2) := by
  rw [← map_snd_placed, List.filterMap_map, List.map_filterMap]
  refine List.filterMap_congr fun x hx => ?_
  obtain ⟨hc, hm⟩ := mem_placed.1 hx
  unfold placedRecord? Function.comp
  cases hr : record? x.2 with
  | none => rfl
  | some r => rw [Option.map_some, Option.map_some, ← (at?_of_record h hc hm hr).1]

/-- The places with a record, before they are sorted by where they start. -/
theorem places_perm : (((placed q g root).filterMap (placedRecord? record?)).map Prod.fst).Perm
    ((Cursor.ofRoot root).preorder.filter fun c => (at? c).isSome) := by
  have hperm := (List.mergeSort_perm ((Cursor.ofRoot root).preorder.flatMap (placedAt (q.patterns g)))
    fun x y => decide (x.2.lastStart ≤ y.2.lastStart)).filterMap (placedRecord? record?)
  refine (hperm.map Prod.fst).trans (List.Perm.of_eq ?_)
  rw [List.filterMap_flatMap, List.map_flatMap, ← List.filterMap_eq_filter, List.filterMap_eq_flatMap_toList]
  refine List.flatMap_congr fun c hc => ?_
  have hat : (placedAt (q.patterns g) c).filterMap (placedRecord? record?) =
      ((matchesAt (q.patterns g) c).filterMap record?).map fun r => (c, r.2) := by
    rw [placedAt, List.filterMap_map, List.map_filterMap]
    rfl
  rw [hat, h c hc]
  cases ho : at? c <;> simp [Option.guard, ho]

/-- If a query records what there is to record at each place, its records are those of the places with a record, in
document order. -/
theorem exists_places {sort : Node → Bool} (hsort : ∀ c, (at? c).isSome = sort c.node) :
    ∃ places, Cursor.Enumerates root sort places ∧
      places.Pairwise (fun a b => a.node.start < b.node.start ∨ a.node.start = b.node.start ∧
        EndsBefore (q.patterns g) a b) ∧
        List.Forall₂ (fun c x => at? c = some x) places (inDocumentOrder ((q.run g root).filterMap record?)) := by
  have hperm := places_perm h
  have hbefore : ((placed q g root).filterMap (placedRecord? record?)).Pairwise fun x y =>
      EndsBefore (q.patterns g) x.1 y.1 := by
    refine pairwise_placed.filterMap _ fun x x' hxx y hy y' hy' => ?_
    obtain ⟨-, -, rfl⟩ := Option.map_eq_some_iff.1 hy
    obtain ⟨-, -, rfl⟩ := Option.map_eq_some_iff.1 hy'
    exact hxx
  have hrecord : ∀ y ∈ (placed q g root).filterMap (placedRecord? record?), at? y.1 = some y.2 := by
    intro y hy
    obtain ⟨x, hx, hxy⟩ := List.mem_filterMap.1 hy
    obtain ⟨hc, hm⟩ := mem_placed.1 hx
    obtain ⟨r, hr, rfl⟩ := Option.map_eq_some_iff.1 hxy
    exact (at?_of_record h hc hm hr).2
  rw [filterMap_run h, inDocumentOrder_eq]
  generalize (placed q g root).filterMap (placedRecord? record?) = items at hperm hbefore hrecord
  have hsorted := pairwise_mergeSort_key (fun x : Cursor × α => x.1.node.start) hbefore
  have hplaces := ((List.mergeSort_perm items fun x y => decide (x.1.node.start ≤ y.1.node.start)).map Prod.fst).trans
    hperm
  refine ⟨_, ⟨hplaces.nodup_iff.2 ((Cursor.nodup_preorder _).filter _), fun c => ?_, ?_⟩,
    List.pairwise_map.2 hsorted, ?_⟩
  · rw [hplaces.mem_iff, List.mem_filter, hsort]
  · exact List.pairwise_map.2 (hsorted.imp fun hle => hle.elim Nat.le_of_lt fun h => h.1.le)
  · rw [List.forall₂_map_left_iff, List.forall₂_map_right_iff, List.forall₂_same]
    exact fun y hy => hrecord y (List.mem_mergeSort.1 hy)

end Listing

end QueryKind

end DocAtlas
