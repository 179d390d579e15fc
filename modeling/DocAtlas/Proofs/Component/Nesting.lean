/-
Two ways to tell that a component lies inside a component. The survey walks down and never enters a
component, and lists what it finds inside; the classifier looks up from a node for a function that
is a component. Main statement: they agree on every finding, and the look upwards made while listing
never drops a component.

The look starts at the function or call behind a declaration, not at the declaration itself, but
only parentheses, declarators and exports stand between the two, and none of these is a function. The way
down passes no component, so above a judged declaration there is none; and a listed one lies below
the function of a component, which is a component on its own, also if it was found inside wrapper
calls.
-/
import DocAtlas.Proofs.Component.Ledger

namespace DocAtlas

namespace Cursor

/-- Stripping parentheses adds only them to the nodes above. -/
theorem mem_ancestors_of_stripParens? {c d : Cursor} (h : c.stripParens? = some d) {p : Node} (hp : p ∈ d.ancestors) :
    p ∈ c.ancestors ∨ p.shape = .parenthesized := by
  obtain ⟨n, above⟩ := c
  induction n using Node.ind generalizing above with
  | h n ih =>
    rw [stripParens?_eq] at h
    split at h
    · rename_i hs
      obtain ⟨e, he, hd⟩ := Option.bind_eq_some_iff.1 h
      have hm := firstProper?_mem he
      rcases ih e.node (node_mem_of_child hm) e.above hd with hp | hp
      · rw [ancestors_of_child hm] at hp
        rcases List.mem_cons.1 hp with rfl | hp
        · exact .inr hs
        · exact .inl hp
      · exact .inr hp
    · cases h
      exact .inl hp

theorem mem_ancestors_of_contains {c d : Cursor} (h : c.Contains d) {p : Node} (hp : p ∈ c.ancestors) :
    p ∈ d.ancestors := by
  induction h with
  | refl => exact hp
  | tail _ hs ih =>
    rw [ancestors_of_child hs]
    exact List.mem_cons_of_mem _ ih

/-- All nodes above a place that a walk comes to were passed without a stop. -/
theorem mem_ancestors_of_enters {stop : Cursor → Bool} {root : Node} {c : Cursor}
    (h : Relation.ReflTransGen (Enters stop) (ofRoot root) c) {p : Node} (hp : p ∈ c.ancestors) :
    ∃ b : Cursor, b.node = p ∧ stop b = false := by
  induction h with
  | refl => cases hp
  | @tail e c _ hstep ih =>
    rw [ancestors_of_child hstep.child] at hp
    rcases List.mem_cons.1 hp with rfl | hp
    · exact ⟨e, rfl, hstep.1⟩
    · exact ih hp

end Cursor

/-! ## The look upwards -/

theorem Classifier.isNested_iff {k : Classifier} {c : Cursor} :
    k.isNested c = true ↔ ∃ p ∈ c.ancestors, p.isFunction = true ∧ k.isComponent p = true := by
  simp [isNested]

/-- Looking up from the function or call behind a declaration is looking up from the declaration. -/
theorem Candidate.isNested_node {k : Classifier} {c : Cursor} {cand : Candidate} (h : at? k c = some cand) :
    k.isNested cand.node = k.isNested c := by
  obtain ⟨-, -, hn, -⟩ | ⟨v, hv, hs, hshape⟩ := at?_cases h
  · rw [hn]
  · -- the value of a declarator or an export, which is no function, through parentheses
    have hc : c.node.isFunction = false := by
      rcases hshape with ⟨hs, -⟩ | ⟨hs, -⟩ <;> simp [Node.isFunction, hs, Shape.isFunction]
    have hm := Cursor.child?_mem hv
    rw [Bool.eq_iff_iff, Classifier.isNested_iff, Classifier.isNested_iff]
    constructor
    · rintro ⟨p, hp, hf, hcomp⟩
      rcases Cursor.mem_ancestors_of_stripParens? hs hp with hp | hp
      · rw [Cursor.ancestors_of_child hm] at hp
        rcases List.mem_cons.1 hp with rfl | hp
        · rw [hc] at hf; cases hf
        · exact ⟨p, hp, hf, hcomp⟩
      · simp [Node.isFunction, hp, Shape.isFunction] at hf
    · rintro ⟨p, hp, hf, hcomp⟩
      refine ⟨p, Cursor.mem_ancestors_of_contains (contains_node h) hp, hf, hcomp⟩

namespace Survey

variable (s : Survey)

/-- Above a place the survey comes to there is no component. -/
theorem isNested_of_surveyed {c : Cursor} (h : s.Surveyed c) : s.classifier.isNested c = false := by
  rw [← Bool.not_eq_true, Classifier.isNested_iff]
  rintro ⟨p, hp, hf, hcomp⟩
  obtain ⟨b, rfl, hb⟩ := Cursor.mem_ancestors_of_enters (Cursor.leads_iff.1 h) hp
  simp [closes, hf, hcomp] at hb

/-- Inside the function of a component the look upwards finds a component. -/
theorem isNested_inside {outer c d : Cursor} {p : Candidate × Cursor} (ho : s.component? outer = some p)
    (hd : d ∈ p.2.proper) (hc : d.Contains c) : s.classifier.isNested c = true := by
  have hcomp := (s.component?_spec ho).2.2
  exact Classifier.isNested_iff.2 ⟨p.2.node, Cursor.mem_ancestors_of_child (List.mem_filter.1 hd).1 hc,
    s.classifier.isFunction_of_isComponent hcomp, hcomp⟩

/-- So every candidate in there that is a component passes it. -/
theorem isNestedComponent_inside {outer c d : Cursor} {p : Candidate × Cursor} {inner : Candidate}
    (ho : s.component? outer = some p) (hd : d ∈ p.2.proper) (hc : d.Contains c)
    (hi : Candidate.at? s.classifier c = some inner) :
    s.isNestedComponent inner = (inner.function? s.classifier).isSome := by
  have hn := s.isNested_inside ho hd (hc.trans (Candidate.contains_node hi))
  simp [isNestedComponent, hn]

/-! ## What is reported -/

end Survey

/-- Whether a finding says of a component that it lies inside a component. -/
def Finding.isNested : Finding → Bool
  | skipped ⟨_, _, .nested⟩ => true
  | _ => false

namespace Survey

variable (s : Survey)

theorem isNested_judge (cand : Candidate) (fn : Option Cursor) : (s.judge cand fn).isNested = false := by
  unfold judge
  split
  · rfl
  · simp only
    split
    · rfl
    · split <;> rfl

/-- A component is reported as nested exactly if a function around the function or call behind it is
a component; and the listing of what is inside a component drops no candidate that is one. -/
theorem reported_nested_iff (s : Survey) :
    s.entries.map Entry.finding = s.findings ∧
      (∀ e ∈ s.entries, ∃ cand f, s.component? e.place = some (cand, f) ∧
        (e.finding = s.judge cand (some f) ∨
          e.finding = .skipped ⟨cand.name, s.tree.lineAt e.place.node.start, .nested⟩) ∧
        e.finding.isNested = s.classifier.isNested cand.node) ∧
      ∀ outer cand f, s.component? outer = some (cand, f) → ∀ d ∈ f.proper, ∀ c inner, d.Contains c →
        Candidate.at? s.classifier c = some inner →
          s.isNestedComponent inner = (inner.function? s.classifier).isSome := by
  refine ⟨s.map_finding_entries, fun e he => ?_, fun outer cand f ho d hd c inner hc hi =>
    s.isNestedComponent_inside ho hd hc hi⟩
  obtain ⟨cand, f, hp, h⟩ := s.mem_entries_cases he
  have hup := Candidate.isNested_node (s.component?_eq_some.1 hp).1
  refine ⟨cand, f, hp, ?_⟩
  rcases h with ⟨hs, hf⟩ | ⟨hl, hf⟩
  · rw [hup, s.isNested_of_surveyed hs, hf]
    exact ⟨.inl rfl, s.isNested_judge cand _⟩
  · obtain ⟨outer, out, g, -, ho, d, hd, hl⟩ := hl
    rw [hup, s.isNested_inside ho hd hl.1, hf]
    exact ⟨.inr rfl, rfl⟩

/-- Of three components one inside the other the outermost is judged and the middle one listed, and
each way of telling says so. -/
theorem threeDeep_reported_nested :
    (∃ e ∈ threeDeep.entries, e.finding.isNested = false ∧ ∃ cand f, threeDeep.component? e.place = some (cand, f) ∧
      threeDeep.classifier.isNested cand.node = false) ∧
    ∃ e ∈ threeDeep.entries, e.finding.isNested = true ∧ ∃ cand f, threeDeep.component? e.place = some (cand, f) ∧
      threeDeep.classifier.isNested cand.node = true ∧ threeDeep.isNestedComponent cand = true := by
  obtain ⟨-, hreported, hkept⟩ := reported_nested_iff threeDeep
  have hsaid : threeDeep.entries.map (fun e => e.finding.isNested) = [true, false] := by decide +kernel
  have hmem : ∀ b, b ∈ threeDeep.entries.map (fun e => e.finding.isNested) →
      ∃ e ∈ threeDeep.entries, e.finding.isNested = b := fun b hb => List.mem_map.1 hb
  constructor
  · obtain ⟨e, he, hb⟩ := hmem false (by rw [hsaid]; decide)
    obtain ⟨cand, f, hp, -, hup⟩ := hreported e he
    exact ⟨e, he, hb, cand, f, hp, hup ▸ hb⟩
  · obtain ⟨e, he, hb⟩ := hmem true (by rw [hsaid]; decide)
    obtain ⟨cand, f, hp, -, hup⟩ := hreported e he
    refine ⟨e, he, hb, cand, f, hp, hup ▸ hb, ?_⟩
    obtain ⟨hcand, hfn⟩ := threeDeep.component?_eq_some.1 hp
    obtain ⟨cand', f', hp', ⟨-, hj⟩ | ⟨⟨outer, out, g, -, ho, d, hd, hl⟩, -⟩⟩ := threeDeep.mem_entries_cases he
    · rw [hj, isNested_judge] at hb
      cases hb
    · rw [hkept outer out g ho d hd e.place cand hl.1 hcand, hfn]
      rfl

end Survey

end DocAtlas
