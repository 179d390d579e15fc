/-
Where a survey puts its blocks. Every documented component has an anchor, a node around its declaration
that is neither empty nor beyond the source, and its block is inserted where the anchor begins. So the
insertions of a survey always fit; and no anchor lies inside a component other than as the place where
it is declared.
-/
import DocAtlas.Proofs.Component.Blocks
import DocAtlas.Proofs.Edit.Splicing
import DocAtlas.Proofs.Tree.Fitting

namespace DocAtlas

/-! ## Anchors -/

namespace Candidate

variable {root : Node} {k : Classifier} {c : Cursor} {cand : Candidate}

theorem exportAnchor_contains (hc : (Cursor.ofRoot root).Contains c) :
    (Cursor.ofRoot root).Contains (exportAnchor c) ∧ (exportAnchor c).Contains c := by
  unfold exportAnchor
  split
  · rename_i p hp
    obtain ⟨hm, hin⟩ := Cursor.child_of_parent? hc hp
    split
    · exact ⟨hin, Cursor.contains_of_child hm⟩
    · exact ⟨hc, .refl c⟩
  · exact ⟨hc, .refl c⟩

theorem declaratorAnchor_contains (hc : (Cursor.ofRoot root).Contains c) :
    (Cursor.ofRoot root).Contains (declaratorAnchor c) ∧ (declaratorAnchor c).Contains c := by
  unfold declaratorAnchor
  split
  · rename_i p hp
    obtain ⟨hm, hin⟩ := Cursor.child_of_parent? hc hp
    split
    · obtain ⟨h1, h2⟩ := exportAnchor_contains hin
      exact ⟨h1, h2.trans (Cursor.contains_of_child hm)⟩
    · exact ⟨hc, .refl c⟩
  · exact ⟨hc, .refl c⟩

/-- The anchor of a candidate is a place of the tree around the declaration. -/
theorem anchor_contains (hc : (Cursor.ofRoot root).Contains c) (h : at? k c = some cand) :
    (Cursor.ofRoot root).Contains cand.anchor ∧ cand.anchor.Contains c := by
  obtain ⟨-, -, -, ha⟩ | ⟨v, -, -, ⟨-, ha⟩ | ⟨-, ha⟩⟩ := at?_cases h
  · rw [ha]; exact exportAnchor_contains hc
  · rw [ha]; exact declaratorAnchor_contains hc
  · rw [ha]; exact ⟨hc, .refl c⟩

end Candidate

namespace Survey

variable (s : Survey)

/-! ## Placements -/

/-- A block and the anchor it goes above. -/
structure Placement where
  anchor : Cursor
  info : ComponentInfo
  insertion : Insertion

/-- The block for the component declared at a place, if it gets one. -/
def placement? (c : Cursor) : Option Placement :=
  (s.component? c).bind fun p =>
    match s.judge p.1 (some p.2) with
    | .documented info insertion => some ⟨p.1.anchor, info, insertion⟩
    | .skipped _ => none

/-- The blocks of a survey in the order of its findings. -/
def placements : List Placement := ((Cursor.ofRoot s.tree.root).frontier s.closes).filterMap s.placement?

theorem placement?_eq_some {c : Cursor} {p : Placement} :
    s.placement? c = some p ↔ ∃ cand f, s.component? c = some (cand, f) ∧
      s.judge cand (some f) = .documented p.info p.insertion ∧ p.anchor = cand.anchor := by
  unfold placement?
  constructor
  · intro h
    obtain ⟨⟨cand, f⟩, hc, h⟩ := Option.bind_eq_some_iff.1 h
    split at h
    · rename_i info ins hj
      cases h
      exact ⟨cand, f, hc, hj, rfl⟩
    · cases h
  · rintro ⟨cand, f, hc, hj, ha⟩
    rw [hc, Option.bind_some, hj, ← ha]

/-- What is read off the documented findings alone is read off the placements. -/
theorem map_placements_eq {α : Type} {read : Finding → Option α} {sel : Placement → α}
    (hskip : ∀ entry, read (.skipped entry) = none)
    (hdoc : ∀ anchor info ins, read (.documented info ins) = some (sel ⟨anchor, info, ins⟩)) :
    s.placements.map sel = s.findings.filterMap read := by
  have hin : ∀ f, ((s.entriesIn f).map Entry.finding).filterMap read = [] := by
    intro f
    rw [List.filterMap_eq_nil_iff]
    intro x hx
    obtain ⟨e, he, rfl⟩ := List.mem_map.1 hx
    obtain ⟨d, -, hd⟩ := List.mem_filterMap.1 he
    obtain ⟨p, -, rfl⟩ := Option.map_eq_some_iff.1 hd
    exact hskip _
  have hof : ∀ c, ((s.entriesOf c).map Entry.finding).filterMap read = (s.placement? c).toList.map sel := by
    intro c
    unfold entriesOf placement?
    cases s.component? c with
    | none => rfl
    | some p =>
      simp only [List.map_append, List.filterMap_append, hin, List.nil_append, Option.bind_some, List.map_cons,
        List.map_nil]
      cases s.judge p.1 (some p.2) with
      | documented info ins => rw [List.filterMap_cons_some (hdoc p.1.anchor info ins)]; rfl
      | skipped entry => rw [List.filterMap_cons_none (hskip entry)]; rfl
  rw [← s.map_finding_entries]
  unfold entries placements
  generalize (Cursor.ofRoot s.tree.root).frontier s.closes = l
  induction l with
  | nil => rfl
  | cons c l ih =>
    rw [List.flatMap_cons, List.map_append, List.filterMap_append, hof, ← ih, List.filterMap_cons]
    cases s.placement? c <;> rfl

/-- The insertions of a survey are those of its placements. -/
theorem map_insertion_placements : s.placements.map Placement.insertion = s.insertions :=
  s.map_placements_eq (fun _ => rfl) fun _ _ _ => rfl

/-- The components of a survey are those of its placements. -/
theorem map_info_placements : s.placements.map Placement.info = s.components :=
  s.map_placements_eq (fun _ => rfl) fun _ _ _ => rfl

/-- What is known of a placement. -/
structure Placed (p : Placement) : Prop where
  declared : ∃ c ∈ (Cursor.ofRoot s.tree.root).frontier s.closes, p.anchor.Contains c
  anchor : (Cursor.ofRoot s.tree.root).Contains p.anchor
  nonempty : p.anchor.node.start < p.anchor.node.stop
  stop : p.anchor.node.stop ≤ s.src.length
  insertion : p.insertion = ⟨p.anchor.node.start, s.blockFor p.info p.anchor.node.start⟩

theorem placed {p : Placement} (h : p ∈ s.placements) : s.Placed p := by
  obtain ⟨c, hc, hp⟩ := List.mem_filterMap.1 h
  obtain ⟨cand, f, hcomp, hj, ha⟩ := s.placement?_eq_some.1 hp
  obtain ⟨ho, -, -, hins⟩ := s.judge_eq_documented hj
  obtain ⟨-, hne, hstop⟩ := offset?_eq_some.1 ho
  have hin := Cursor.contains_of_enters (Cursor.mem_frontier.1 hc).1
  obtain ⟨hanchor, haround⟩ := Candidate.anchor_contains hin (s.component?_eq_some.1 hcomp).1
  rw [← ha] at hne hstop hins hanchor haround
  exact ⟨⟨c, hc, haround⟩, hanchor, hne, hstop, hins⟩

theorem offset_of_placed {p : Placement} (h : s.Placed p) : p.insertion.offset.toNat = p.anchor.node.start := by
  rw [h.insertion]; rfl

/-- The insertions of a survey fit its source, so they are made. -/
theorem apply_insertions : Insertion.apply s.src s.insertions = .ok (Insertion.weave s.insertions s.src) := by
  refine Insertion.apply_eq_weave fun i hi => ?_
  rw [← s.map_insertion_placements] at hi
  obtain ⟨p, hp, rfl⟩ := List.mem_map.1 hi
  have hp := s.placed hp
  have := hp.nonempty
  have := hp.stop
  rw [hp.insertion]
  unfold Insertion.InRange
  simp only
  omega

/-- Inside a component no anchor lies deeper than another place: the only anchor there can be is the
declaration itself. -/
theorem eq_anchor_of_contains {c e : Cursor} {p : Placement} (hc : c ∈ (Cursor.ofRoot s.tree.root).frontier s.closes)
    (he : c.Contains e) (hp : p ∈ s.placements) (h : e.Contains p.anchor) : e = p.anchor := by
  obtain ⟨c₂, hc₂, hin⟩ := (s.placed hp).declared
  have hcc : c.Contains c₂ := (he.trans h).trans hin
  have heq : c = c₂ := by
    by_contra hne
    have : Std.Symm Cursor.Apart := ⟨fun _ _ hab => hab.symm⟩
    exact ((Cursor.pairwise_frontier s.closes _).forall hc hc₂ hne).1 hcc.path
  rw [← heq] at hin
  exact h.antisymm (hin.trans he)

end Survey

end DocAtlas
