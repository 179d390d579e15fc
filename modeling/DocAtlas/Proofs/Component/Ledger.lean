/-
The findings of a survey with the places they are about. The survey walks down to the first
component on each way and judges it; the components inside the function of a judged one are listed,
again the first on each way. `entries` is the list of findings with their places, and no place
has two.

Main statement: a component declaration has its entry exactly if the survey comes to it, or comes to
a declaration around it whose function holds it with no further declaration between. Components
inside a callback that is a component, inside a listed component, or inside a wrapper call beside
the wrapped function have none.
-/
import DocAtlas.Component.Survey
import DocAtlas.Proofs.Component.Wrappers

namespace DocAtlas

namespace Candidate

variable {k : Classifier} {c : Cursor} {cand : Candidate}

/-! ## Candidates -/

/-- The three forms of declaration, with the node and the anchor of their candidates. -/
theorem at?_cases (h : at? k c = some cand) :
    (c.node.shape = .functionDecl ∧ cand.kind = .function ∧ cand.node = c ∧ cand.anchor = exportAnchor c) ∨
      (∃ value, c.child? "value" = some value ∧ value.stripParens? = some cand.node ∧
        ((c.node.shape = .declarator ∧ cand.anchor = declaratorAnchor c) ∨
          (c.node.shape = .exportStmt ∧ cand.anchor = c))) := by
  unfold at? at h
  split at h
  · rename_i hs
    obtain ⟨name, -, rfl⟩ := Option.map_eq_some_iff.1 h
    exact .inl ⟨hs, rfl, rfl, rfl⟩
  · rename_i hs
    unfold ofDeclarator? at h
    split at h
    · rename_i name value hn hv
      obtain ⟨v, hc, hv⟩ := Option.bind_eq_some_iff.1 hv
      split at h
      · obtain ⟨kind, -, rfl⟩ := Option.map_eq_some_iff.1 h
        exact .inr ⟨v, hc, hv, .inl ⟨hs, rfl⟩⟩
      · cases h
    · cases h
  · rename_i hs
    unfold ofExport? at h
    split at h
    · cases h
    · rename_i value hv
      obtain ⟨v, hc, hv⟩ := Option.bind_eq_some_iff.1 hv
      split at h
      · cases h; exact .inr ⟨v, hc, hv, .inr ⟨hs, rfl⟩⟩
      · split at h
        · cases h; exact .inr ⟨v, hc, hv, .inr ⟨hs, rfl⟩⟩
        · cases h
  · cases h

theorem contains_node (h : at? k c = some cand) : c.Contains cand.node := by
  obtain ⟨-, -, hn, -⟩ | ⟨v, hc, hv, -⟩ := at?_cases h
  · rw [hn]; exact .refl c
  · exact (Cursor.contains_of_child (Cursor.child?_mem hc)).trans (Cursor.contains_of_stripParens? hv)

/-- The function behind a candidate that is a component is found, and is a component. -/
theorem function?_spec {fn : Option Cursor} (h : cand.function? k = some fn) :
    ∃ f, fn = some f ∧ cand.node.Contains f ∧ k.isComponent f.node = true := by
  unfold function? at h
  split at h
  · split at h
    · rename_i hw
      cases h
      exact k.wrappedFunction?_of_isWrapped hw
    · cases h
  · split at h
    · rename_i hc
      cases h
      exact ⟨cand.node, rfl, .refl _, hc⟩
    · cases h

end Candidate

namespace Survey

variable (s : Survey)

/-! ## Places of components -/

/-- The component declared at a place: its candidate and the function behind it. -/
def component? (c : Cursor) : Option (Candidate × Cursor) :=
  (Candidate.at? s.classifier c).bind fun cand => (cand.function? s.classifier).join.map fun f => (cand, f)

/-- Whether a component is declared at a place. -/
def declares (c : Cursor) : Bool := (s.component? c).isSome

/-- Whether the survey goes no further at a place: a component is declared there, or the node is a
function that is a component without a declaration of its own. -/
def closes (c : Cursor) : Bool := s.declares c || (c.node.isFunction && s.classifier.isComponent c.node)

theorem component?_eq_some {c : Cursor} {cand : Candidate} {f : Cursor} :
    s.component? c = some (cand, f) ↔
      Candidate.at? s.classifier c = some cand ∧ cand.function? s.classifier = some (some f) := by
  unfold component?
  constructor
  · intro h
    obtain ⟨cand', hc, h⟩ := Option.bind_eq_some_iff.1 h
    obtain ⟨f', hf, h⟩ := Option.map_eq_some_iff.1 h
    cases h
    exact ⟨hc, Option.join_eq_some_iff.1 hf⟩
  · rintro ⟨hc, hf⟩
    simp [hc, hf]

theorem component?_eq_none {c : Cursor} {cand : Candidate} (hc : Candidate.at? s.classifier c = some cand) :
    s.component? c = none ↔ cand.function? s.classifier = none := by
  cases hf : cand.function? s.classifier with
  | none => simp [component?, hc, hf]
  | some fn =>
    obtain ⟨f, rfl, -⟩ := Candidate.function?_spec hf
    simp [component?, hc, hf]

/-- What is known of a declared component. -/
theorem component?_spec {c : Cursor} {cand : Candidate} {f : Cursor} (h : s.component? c = some (cand, f)) :
    c.Contains cand.node ∧ c.Contains f ∧ s.classifier.isComponent f.node = true := by
  obtain ⟨hc, hf⟩ := s.component?_eq_some.1 h
  obtain ⟨f', he, hin, hcomp⟩ := Candidate.function?_spec hf
  cases he
  exact ⟨Candidate.contains_node hc, (Candidate.contains_node hc).trans hin, hcomp⟩

/-- A candidate that is a function and a component declares one. -/
theorem declares_of_function {c : Cursor} {cand : Candidate} (hc : Candidate.at? s.classifier c = some cand)
    (hf : c.node.isFunction = true) (hcomp : s.classifier.isComponent c.node = true) : s.declares c = true := by
  obtain ⟨-, hk, hn, -⟩ | ⟨v, -, -, ⟨hs, -⟩ | ⟨hs, -⟩⟩ := Candidate.at?_cases hc
  · have : cand.function? s.classifier = some (some c) := by simp [Candidate.function?, hk, hn, hcomp]
    simp [declares, s.component?_eq_some.2 ⟨hc, this⟩]
  · simp [Node.isFunction, hs, Shape.isFunction] at hf
  · simp [Node.isFunction, hs, Shape.isFunction] at hf

/-- Where nothing is a candidate, the survey goes on unless the node is a component. -/
theorem closes_of_no_candidate {c : Cursor} (hc : Candidate.at? s.classifier c = none) :
    s.closes c = (c.node.isFunction && s.classifier.isComponent c.node) := by
  simp [closes, declares, component?, hc]

/-- The survey goes on below a candidate that is no component. -/
theorem not_closes_of_no_function {c : Cursor} {cand : Candidate} (hc : Candidate.at? s.classifier c = some cand)
    (hf : cand.function? s.classifier = none) : s.closes c = false := by
  have hd : s.declares c = false := by simp [declares, (s.component?_eq_none hc).2 hf]
  by_contra hcl
  simp only [closes, hd, Bool.false_or, Bool.not_eq_false, Bool.and_eq_true] at hcl
  rw [s.declares_of_function hc hcl.1 hcl.2] at hd
  cases hd

/-! ## The entries of a survey -/

/-- A finding with the place it is about. -/
structure Entry where
  place : Cursor
  finding : Finding

/-- The entry of a component inside a component. -/
def nestedEntry (c : Cursor) (cand : Candidate) : Entry :=
  ⟨c, .skipped ⟨cand.name, s.tree.lineAt c.node.start, .nested⟩⟩

/-- The entries of the components inside a function, the first on each way down. -/
def entriesIn (f : Cursor) : List Entry :=
  (f.proper.flatMap (Cursor.frontier s.declares)).filterMap fun c => (s.component? c).map fun p => s.nestedEntry c p.1

/-- The entries made where the survey stops. -/
def entriesOf (c : Cursor) : List Entry :=
  match s.component? c with
  | none => []
  | some (cand, f) => s.entriesIn f ++ [⟨c, s.judge cand (some f)⟩]

/-- The entries of a survey in the order they were made. -/
def entries : List Entry := ((Cursor.ofRoot s.tree.root).frontier s.closes).flatMap s.entriesOf

theorem findingsEach_eq (parent : Node) (above : List Frame) : ∀ before cs,
    s.findingsEach parent before above cs =
      ((Cursor.childrenFrom parent above before cs).filter fun d => d.node.isNamed).flatMap fun d =>
        s.findingsAt d.above d.node
  | _, [] => by simp [findingsEach, Cursor.childrenFrom]
  | before, c :: cs => by
    rw [findingsEach, Cursor.flatMap_entered, findingsEach_eq parent above (c :: before) cs]

theorem nestedEach_eq (parent : Node) (above : List Frame) : ∀ before cs,
    s.nestedEach parent before above cs =
      ((Cursor.childrenFrom parent above before cs).filter fun d => d.node.isNamed).flatMap fun d =>
        s.nestedAt d.above d.node
  | _, [] => by simp [nestedEach, Cursor.childrenFrom]
  | before, c :: cs => by
    rw [nestedEach, Cursor.flatMap_entered, nestedEach_eq parent above (c :: before) cs]

/-- Inside a component every declared component is nested. -/
theorem isNestedComponent_of_ancestor {c : Cursor} {cand : Candidate} {f : Node}
    (hc : Candidate.at? s.classifier c = some cand) (hcomp : s.classifier.isComponent f = true)
    (hin : ∀ d, c.Contains d → f ∈ d.ancestors) : s.isNestedComponent cand = s.declares c := by
  have hn : s.classifier.isNested cand.node = true :=
    List.any_eq_true.2 ⟨f, hin _ (Candidate.contains_node hc), by
      simp [hcomp, s.classifier.isFunction_of_isComponent hcomp]⟩
  unfold isNestedComponent declares
  rw [hn, Bool.and_true]
  cases hf : cand.function? s.classifier with
  | none => simp [(s.component?_eq_none hc).2 hf]
  | some fn =>
    obtain ⟨f', rfl, -⟩ := Candidate.function?_spec hf
    simp [s.component?_eq_some.2 ⟨hc, hf⟩]

/-- The listing below a place inside a component. -/
theorem nestedAt_eq {f : Node} (hcomp : s.classifier.isComponent f = true) (c : Cursor)
    (hin : ∀ d, c.Contains d → f ∈ d.ancestors) :
    s.nestedAt c.above c.node = ((c.frontier s.declares).filterMap fun d =>
      (s.component? d).map fun p => s.nestedEntry d p.1).map Entry.finding := by
  obtain ⟨n, above⟩ := c
  induction n using Node.ind generalizing above with
  | h n ih =>
    have hsub : s.declares ⟨n, above⟩ = false → s.nestedEach n [] above n.children =
        (((Cursor.mk n above).frontier s.declares).filterMap fun d =>
          (s.component? d).map fun p => s.nestedEntry d p.1).map Entry.finding := by
      intro hd
      rw [s.nestedEach_eq n above [], Cursor.frontier_eq, hd, if_neg (by simp), List.filterMap_flatMap,
        List.map_flatMap]
      change (Cursor.entered ⟨n, above⟩).flatMap _ = _
      refine List.flatMap_congr fun e he => ?_
      -- what lies below the child has the component among its ancestors too
      have hm := (Cursor.mem_entered.1 he).1
      exact ih e.node (Cursor.node_mem_of_child hm) e.above fun d hd => hin d ((Cursor.contains_of_child hm).trans hd)
    cases n with
    | mk i cs =>
      rw [nestedAt]
      cases hc : Candidate.at? s.classifier ⟨.mk i cs, above⟩ with
      | none => exact hsub (by simp [declares, component?, hc])
      | some cand =>
        simp only
        rw [s.isNestedComponent_of_ancestor hc hcomp hin]
        cases hd : s.declares ⟨.mk i cs, above⟩ with
        | false => exact hsub hd
        | true =>
          obtain ⟨⟨cand', f'⟩, hp⟩ := Option.isSome_iff_exists.1 hd
          have : cand' = cand := by
            have := (s.component?_eq_some.1 hp).1
            rw [hc] at this; cases this; rfl
          subst this
          rw [Cursor.frontier_eq, hd]
          simp [hp, nestedEntry, Node.start]

theorem nestedIn_eq {f : Cursor} (hcomp : s.classifier.isComponent f.node = true) :
    s.nestedIn (some f) = (s.entriesIn f).map Entry.finding := by
  unfold nestedIn entriesIn
  simp only [List.filterMap_flatMap, List.map_flatMap]
  refine List.flatMap_congr fun c hc => ?_
  exact s.nestedAt_eq hcomp c fun d hd => Cursor.mem_ancestors_of_child (List.mem_filter.1 hc).1 hd

/-- The findings below a place. -/
theorem findingsAt_eq (c : Cursor) :
    s.findingsAt c.above c.node = ((c.frontier s.closes).flatMap s.entriesOf).map Entry.finding := by
  obtain ⟨n, above⟩ := c
  induction n using Node.ind generalizing above with
  | h n ih =>
    -- the survey goes on to the children, or stops here
    have hsub : s.closes ⟨n, above⟩ = false → s.findingsEach n [] above n.children =
        (((Cursor.mk n above).frontier s.closes).flatMap s.entriesOf).map Entry.finding := by
      intro hcl
      rw [s.findingsEach_eq n above [], Cursor.frontier_eq, hcl, if_neg (by simp), List.flatMap_assoc, List.map_flatMap]
      change (Cursor.entered ⟨n, above⟩).flatMap _ = _
      refine List.flatMap_congr fun e he => ?_
      exact ih e.node (Cursor.node_mem_of_child (Cursor.mem_entered.1 he).1) e.above
    have hstop : s.closes ⟨n, above⟩ = true →
        (((Cursor.mk n above).frontier s.closes).flatMap s.entriesOf).map Entry.finding =
          (s.entriesOf ⟨n, above⟩).map Entry.finding := by
      intro hcl
      rw [Cursor.frontier_eq, hcl]; simp
    cases n with
    | mk i cs =>
      rw [findingsAt]
      cases hc : Candidate.at? s.classifier ⟨.mk i cs, above⟩ with
      | none =>
        have hnone : s.component? ⟨.mk i cs, above⟩ = none := by simp [component?, hc]
        have hcl := s.closes_of_no_candidate hc
        simp only
        split
        · rename_i hfc
          rw [hstop (hcl.trans hfc)]
          simp [entriesOf, hnone]
        · rename_i hfc
          exact hsub (by rw [hcl]; simpa using hfc)
      | some cand =>
        simp only
        cases hf : cand.function? s.classifier with
        | none => exact hsub (s.not_closes_of_no_function hc hf)
        | some fn =>
          obtain ⟨f, rfl, -, hcomp⟩ := Candidate.function?_spec hf
          have hp := s.component?_eq_some.2 ⟨hc, hf⟩
          rw [hstop (by simp [closes, declares, hp])]
          simp [entriesOf, hp, s.nestedIn_eq hcomp]

/-- The entries are the findings with their places. -/
theorem map_finding_entries : s.entries.map Entry.finding = s.findings :=
  (s.findingsAt_eq (Cursor.ofRoot s.tree.root)).symm

/-- A documented component is one the survey comes to, and was judged so. -/
theorem judged_of_documented {info : ComponentInfo} {ins : Insertion} (h : Finding.documented info ins ∈ s.findings) :
    ∃ c cand f, c ∈ (Cursor.ofRoot s.tree.root).frontier s.closes ∧ s.component? c = some (cand, f) ∧
      s.judge cand (some f) = .documented info ins := by
  rw [← s.map_finding_entries] at h
  obtain ⟨e, he, hfinding⟩ := List.mem_map.1 h
  obtain ⟨c, hc, he⟩ := List.mem_flatMap.1 he
  unfold entriesOf at he
  split at he
  · cases he
  · rename_i cand f hp
    rcases List.mem_append.1 he with he | he
    · obtain ⟨d, -, hd⟩ := List.mem_filterMap.1 he
      obtain ⟨p, -, rfl⟩ := Option.map_eq_some_iff.1 hd
      cases hfinding
    · rw [List.mem_singleton.1 he] at hfinding
      exact ⟨c, cand, f, hc, hp, hfinding⟩

/-! ## One entry per place -/

/-- The places of the components inside a function, the first on each way down. -/
theorem mem_entriesIn {f : Cursor} {e : Entry} :
    e ∈ s.entriesIn f ↔ ∃ d ∈ f.proper, ∃ p, d.Leads s.declares e.place ∧ s.component? e.place = some p ∧
      e = s.nestedEntry e.place p.1 := by
  unfold entriesIn
  simp only [List.mem_filterMap, List.mem_flatMap, Option.map_eq_some_iff]
  constructor
  · rintro ⟨c, ⟨d, hd, hc⟩, p, hp, rfl⟩
    exact ⟨d, hd, p, Cursor.leads_iff.2 (Cursor.mem_frontier.1 hc).1, hp, rfl⟩
  · rintro ⟨d, hd, p, hl, hp, he⟩
    refine ⟨e.place, ⟨d, hd, Cursor.mem_frontier.2 ⟨Cursor.leads_iff.1 hl, ?_⟩⟩, p, hp, he.symm⟩
    simp [declares, hp]

theorem path_of_mem_entriesIn {f : Cursor} {e : Entry} (h : e ∈ s.entriesIn f) :
    ∃ i, i :: f.path <:+ e.place.path := by
  obtain ⟨d, hd, -, hl, -⟩ := s.mem_entriesIn.1 h
  obtain ⟨i, hi⟩ := Cursor.path_of_child (List.mem_filter.1 hd).1
  exact ⟨i, hi ▸ hl.1.path⟩

theorem path_of_mem_entriesOf {c : Cursor} {e : Entry} (h : e ∈ s.entriesOf c) : c.path <:+ e.place.path := by
  unfold entriesOf at h
  split at h
  · cases h
  · rename_i cand f hp
    rcases List.mem_append.1 h with h | h
    · obtain ⟨i, hi⟩ := s.path_of_mem_entriesIn h
      exact (s.component?_spec hp).2.1.path.trans ((List.suffix_cons _ _).trans hi)
    · rw [List.mem_singleton.1 h]

theorem pairwise_entriesIn (f : Cursor) :
    (s.entriesIn f).Pairwise fun a b => a.place.path ≠ b.place.path := by
  have hplaces : (f.proper.flatMap (Cursor.frontier s.declares)).Pairwise Cursor.Apart := by
    refine List.pairwise_flatMap.2 ⟨fun d _ => Cursor.pairwise_frontier _ d, ?_⟩
    refine (f.pairwise_children.filter _).imp fun ⟨hl, hne⟩ x hx y hy => ?_
    exact Cursor.Apart.of_siblings hl hne (Cursor.path_of_mem_frontier hx) (Cursor.path_of_mem_frontier hy)
  refine hplaces.filterMap _ fun a b hab x hx y hy => ?_
  obtain ⟨-, -, rfl⟩ := Option.map_eq_some_iff.1 hx
  obtain ⟨-, -, rfl⟩ := Option.map_eq_some_iff.1 hy
  exact fun h => hab.1 (by rw [show a.path = b.path from h])

theorem pairwise_entriesOf (c : Cursor) : (s.entriesOf c).Pairwise fun a b => a.place.path ≠ b.place.path := by
  unfold entriesOf
  split
  · exact .nil
  · rename_i cand f hp
    refine List.pairwise_append.2 ⟨s.pairwise_entriesIn f, List.pairwise_singleton _ _, fun x hx y hy hxy => ?_⟩
    rw [List.mem_singleton.1 hy] at hxy
    -- what is listed inside the function lies deeper than the declaration
    obtain ⟨i, hi⟩ := s.path_of_mem_entriesIn hx
    have h1 := (s.component?_spec hp).2.1.path.length_le
    have h2 := hi.length_le
    rw [hxy] at h2
    simp at h2
    omega

/-- No place has two entries. -/
theorem pairwise_entries : s.entries.Pairwise fun a b => a.place.path ≠ b.place.path := by
  refine List.pairwise_flatMap.2 ⟨fun c _ => s.pairwise_entriesOf c, ?_⟩
  refine (Cursor.pairwise_frontier s.closes _).imp fun {c d} hcd x hx y hy hxy => ?_
  have hc := s.path_of_mem_entriesOf hx
  have hd := s.path_of_mem_entriesOf hy
  rw [hxy] at hc
  rcases List.suffix_or_suffix_of_suffix hc hd with h | h
  · exact hcd.1 h
  · exact hcd.2 h

/-! ## Which components have an entry -/

/-- How many entries the survey makes about a place. -/
def timesReported (c : Cursor) : Nat := (s.entries.map fun e => e.place.path).count c.path

/-- The survey comes to a place: it lies in no component. -/
def Surveyed (c : Cursor) : Prop := (Cursor.ofRoot s.tree.root).Leads s.closes c

/-- The survey comes to a component declaration around a place, whose function holds the place with
no component declaration between. -/
def ListedAsNested (c : Cursor) : Prop :=
  ∃ outer cand f, s.Surveyed outer ∧ s.component? outer = some (cand, f) ∧ ∃ d ∈ f.proper, d.Leads s.declares c

theorem contains_of_listed {c : Cursor} (h : s.ListedAsNested c) : (Cursor.ofRoot s.tree.root).Contains c := by
  obtain ⟨outer, cand, f, hs, hp, d, hd, hl⟩ := h
  have hf := (s.component?_spec hp).2.1
  exact (hs.1.trans hf).trans ((Cursor.contains_of_child (List.mem_filter.1 hd).1).trans hl.1)

/-- What is known of an entry: the component declared at its place was judged where the survey came
to it, or listed inside another. -/
theorem mem_entries_cases {e : Entry} (h : e ∈ s.entries) : ∃ cand f, s.component? e.place = some (cand, f) ∧
    ((s.Surveyed e.place ∧ e.finding = s.judge cand (some f)) ∨
      (s.ListedAsNested e.place ∧ e.finding = (s.nestedEntry e.place cand).finding)) := by
  obtain ⟨outer, ho, he⟩ := List.mem_flatMap.1 h
  have hs : s.Surveyed outer := Cursor.leads_iff.2 (Cursor.mem_frontier.1 ho).1
  unfold entriesOf at he
  split at he
  · cases he
  · rename_i cand f hp
    -- first the entries of what is listed inside the component, then that of the component
    rcases List.mem_append.1 he with he | he
    · obtain ⟨d, hd, ⟨inner, g⟩, hl, hq, he⟩ := s.mem_entriesIn.1 he
      exact ⟨inner, g, hq, .inr ⟨⟨outer, cand, f, hs, hp, d, hd, hl⟩, congrArg Entry.finding he⟩⟩
    · rw [List.mem_singleton.1 he]
      exact ⟨cand, f, hp, .inl ⟨hs, rfl⟩⟩

theorem place_mem_entries {c : Cursor} (hc : s.declares c = true) :
    (∃ e ∈ s.entries, e.place = c) ↔ s.Surveyed c ∨ s.ListedAsNested c := by
  obtain ⟨⟨cand, f⟩, hp⟩ := Option.isSome_iff_exists.1 hc
  constructor
  · rintro ⟨e, he, rfl⟩
    obtain ⟨_, _, _, hplace⟩ := s.mem_entries_cases he
    exact hplace.imp And.left And.left
  · have hmem : ∀ o q, s.Surveyed o → s.component? o = some q → o ∈ (Cursor.ofRoot s.tree.root).frontier s.closes :=
      fun o q hs hq => Cursor.mem_frontier.2 ⟨Cursor.leads_iff.1 hs, by simp [closes, declares, hq]⟩
    rintro (hs | ⟨outer, cand', f', hs, hp', d, hd, hl⟩)
    · exact ⟨⟨c, s.judge cand (some f)⟩, List.mem_flatMap.2 ⟨c, hmem c _ hs hp, by simp [entriesOf, hp]⟩, rfl⟩
    · refine ⟨s.nestedEntry c cand, List.mem_flatMap.2 ⟨outer, hmem outer _ hs hp', ?_⟩, rfl⟩
      have : s.nestedEntry c cand ∈ s.entriesIn f' := s.mem_entriesIn.2 ⟨d, hd, (cand, f), hl, hp, rfl⟩
      simp [entriesOf, hp', this]

theorem contains_of_mem_entries {e : Entry} (h : e ∈ s.entries) : (Cursor.ofRoot s.tree.root).Contains e.place := by
  obtain ⟨_, _, _, ⟨hs, -⟩ | ⟨hlisted, -⟩⟩ := s.mem_entries_cases h
  · exact hs.1
  · exact s.contains_of_listed hlisted

/-- Every finding is about one place, and no place has two. A component declaration is reported
exactly if the survey comes to it, or comes to a declaration around it whose function holds it
with no declaration between. -/
theorem reported_once_iff (s : Survey) :
    s.entries.map Entry.finding = s.findings ∧
      ∀ c cand fn, (Cursor.ofRoot s.tree.root).Contains c → Candidate.at? s.classifier c = some cand →
        cand.function? s.classifier = some fn →
          s.timesReported c ≤ 1 ∧ (s.timesReported c = 1 ↔ s.Surveyed c ∨ s.ListedAsNested c) := by
  refine ⟨s.map_finding_entries, fun c cand fn hc hcand hfn => ?_⟩
  have hd : s.declares c = true := by
    obtain ⟨f, rfl, -⟩ := Candidate.function?_spec hfn
    simp [declares, s.component?_eq_some.2 ⟨hcand, hfn⟩]
  have hnd : (s.entries.map fun e => e.place.path).Nodup := List.pairwise_map.2 s.pairwise_entries
  have hle := List.nodup_iff_count_le_one.1 hnd c.path
  refine ⟨hle, ?_⟩
  have hpos : s.timesReported c = 1 ↔ c.path ∈ s.entries.map fun e => e.place.path := by
    rw [← List.count_pos_iff]
    unfold timesReported
    omega
  rw [hpos, ← s.place_mem_entries hd, List.mem_map]
  constructor
  · rintro ⟨e, he, hpath⟩
    exact ⟨e, he, Cursor.eq_of_path (s.contains_of_mem_entries he) hc hpath⟩
  · rintro ⟨e, he, rfl⟩
    exact ⟨e, he, rfl⟩

/-! ## A component that is lost -/

/-- `function N() { inner return <m/>; }` with names of one letter. -/
def plainFunction (start stop : Nat) (inner : List Node) : Node :=
  .named "function_declaration" none start stop
    [.token "function" start (start + 8), .named "identifier" (some "name") (start + 9) (start + 10) [],
      .named "formal_parameters" (some "parameters") (start + 10) (start + 12)
        [.token "(" (start + 10) (start + 11), .token ")" (start + 11) (start + 12)],
      .named "statement_block" (some "body") (start + 13) stop
        ([.token "\x7b" (start + 13) (start + 14)] ++ inner ++
          [.named "return_statement" none (stop - 14) (stop - 2)
            [.token "return" (stop - 14) (stop - 8),
              .named "jsx_self_closing_element" none (stop - 7) (stop - 3)
                [.token "<" (stop - 7) (stop - 6), .named "identifier" (some "name") (stop - 6) (stop - 5) [],
                  .token "/>" (stop - 5) (stop - 3)],
              .token ";" (stop - 3) (stop - 2)],
            .token "\x7d" (stop - 1) stop])]

def threeDeepText : Text :=
  "function A() \x7b function B() \x7b function C() \x7b return <c/>; \x7d return <C/>; \x7d return <B/>; \x7d\n"

/-- The survey of a component inside a component inside a component. -/
def threeDeep : Survey where
  options := ⟨defaultWrappers, none, false⟩
  tree := ⟨threeDeepText, .named "program" none 0 90
    [plainFunction 0 89 [plainFunction 15 74 [plainFunction 30 59 []]]]⟩
  src := threeDeepText

/-- Whether a component is declared at the end of a way down and reported so many times. -/
def isReportedAt (way : List Nat) (times : Nat) : Bool :=
  ((Cursor.ofRoot s.tree.root).down? way).any fun c =>
    (Candidate.at? s.classifier c).any fun cand =>
      (cand.function? s.classifier).isSome && s.timesReported c == times

theorem isReportedAt_iff {way : List Nat} {times : Nat} :
    s.isReportedAt way times = true ↔ ∃ c cand fn, (Cursor.ofRoot s.tree.root).down? way = some c ∧
      Candidate.at? s.classifier c = some cand ∧ cand.function? s.classifier = some fn ∧
        s.timesReported c = times := by
  unfold isReportedAt
  simp only [Option.any_eq_true, Bool.and_eq_true, beq_iff_eq, Option.isSome_iff_exists]
  constructor
  · rintro ⟨c, hc, cand, hcand, ⟨fn, hfn⟩, ht⟩
    exact ⟨c, cand, fn, hc, hcand, hfn, ht⟩
  · rintro ⟨c, cand, fn, hc, hcand, hfn, ht⟩
    exact ⟨c, hc, cand, hcand, ⟨fn, hfn⟩, ht⟩

/-- The component in the middle is reported once: the survey comes to the one around it. -/
theorem middle_reported_once : ∃ c cand fn, (Cursor.ofRoot threeDeep.tree.root).Contains c ∧
    Candidate.at? threeDeep.classifier c = some cand ∧ cand.function? threeDeep.classifier = some fn ∧
      threeDeep.timesReported c = 1 ∧ (threeDeep.Surveyed c ∨ threeDeep.ListedAsNested c) := by
  obtain ⟨c, cand, fn, hc, hcand, hfn, h1⟩ :=
    threeDeep.isReportedAt_iff.1 (show threeDeep.isReportedAt [0, 3, 1] 1 = true by decide +kernel)
  have hin := Cursor.contains_of_down? hc
  exact ⟨c, cand, fn, hin, hcand, hfn, h1, ((reported_once_iff threeDeep).2 c cand fn hin hcand hfn).2.1 h1⟩

/-- The innermost component is not reported at all. -/
theorem innermost_not_reported : ¬ ∀ (s : Survey) c cand fn, (Cursor.ofRoot s.tree.root).Contains c →
    Candidate.at? s.classifier c = some cand → cand.function? s.classifier = some fn → s.timesReported c = 1 := by
  intro h
  obtain ⟨c, cand, fn, hc, hcand, hfn, h0⟩ :=
    threeDeep.isReportedAt_iff.1 (show threeDeep.isReportedAt [0, 3, 1, 3, 1] 0 = true by decide +kernel)
  have h1 := h threeDeep c cand fn (Cursor.contains_of_down? hc) hcand hfn
  omega

end Survey

end DocAtlas
