/-
The insertions of a survey and the components they are for. The two lists are the two sides of one list
of placements, whatever the tree and the source have to do with each other; every insertion begins where
the anchor of its component does, strictly inside the source, and leaves the anchor as far from the start
of its line as it was. So the insertions can always be made.

Where the anchor of one candidate lies is of no concern to the others: if two trees differ by where nodes
lie that can be anchors, then their surveys have the same entries but for those whose own anchor was
moved. An anchor moved out of the source costs its own candidate the block, and no other.
-/
import DocAtlas.Proofs.Component.Counterparts
import DocAtlas.Proofs.Component.Settling
import DocAtlas.Proofs.Edit.Surviving
import Mathlib.Data.List.TakeWhile

namespace DocAtlas

/-! ## Trees with anchors moved -/

namespace Node

/-- The shapes of the nodes documentation goes above. -/
def anchorShapes : List Shape := [.functionDecl, .declarator, .declaration, .exportStmt]

/-- Whether a node can be an anchor. Names and properties are read as words whatever their kind. -/
def mayAnchor (n : Node) : Bool := anchorShapes.contains n.shape && !n.hasField "name" && !n.hasField "property"

/-- The second node is the first with another place for nodes that can be anchors. -/
inductive AnchorsMoved : Node → Node → Prop where
  | mk {n n' : Node} : n'.info = { n.info with start := n'.start, stop := n'.stop } →
      (n.mayAnchor = false → n'.info = n.info) → List.Forall₂ AnchorsMoved n.children n'.children → AnchorsMoved n n'

namespace AnchorsMoved

variable {n n' : Node}

theorem info (h : n.AnchorsMoved n') : n'.info = { n.info with start := n'.start, stop := n'.stop } := by
  cases h with | mk hi _ _ => exact hi

theorem info_eq (h : n.AnchorsMoved n') (ha : n.mayAnchor = false) : n'.info = n.info := by
  cases h with | mk _ hi _ => exact hi ha

theorem children (h : n.AnchorsMoved n') : List.Forall₂ AnchorsMoved n.children n'.children := by
  cases h with | mk _ _ hc => exact hc

theorem refl (n : Node) : n.AnchorsMoved n := by
  induction n using Node.ind with
  | h n ih => exact .mk rfl (fun _ => rfl) (List.forall₂_same.2 ih)

theorem pairing : Node.Pairing AnchorsMoved where
  kind h := by unfold kind; rw [h.info]
  field h := by rw [h.info]
  named h := by unfold isNamed; rw [h.info]
  error h := by rw [h.info]
  missing h := by rw [h.info]
  children h := .of_forall₂ h.children

/-- What cannot be an anchor has its text. -/
theorem text_eq (h : n.AnchorsMoved n') (ha : n.mayAnchor = false) (src : Text) : n'.text src = n.text src := by
  unfold text start stop
  rw [h.info_eq ha]

end AnchorsMoved

theorem not_mayAnchor_of_shape {n : Node} (h : n.shape ∉ anchorShapes) : n.mayAnchor = false := by
  simp [mayAnchor, h]

theorem not_mayAnchor_of_word {n : Node} (h : n.isWord = true) : n.mayAnchor = false := by
  refine not_mayAnchor_of_shape ?_
  have hshapes : ∀ k ∈ wordKinds, Shape.ofKind k ∉ anchorShapes := by decide
  exact hshapes n.kind (List.contains_iff_mem.1 h)

theorem not_mayAnchor_of_property {n : Node} (h : n.hasField "property" = true) : n.mayAnchor = false := by
  simp [mayAnchor, h]

theorem AnchorsMoved.sameWords {n n' : Node} (h : n.AnchorsMoved n') (src : Text) : SameWords src src n n' where
  identifier hs := h.text_eq (not_mayAnchor_of_word (isWord_of_identifier hs)) src
  property _ p p' hp hp' := by
    have hrel := pairing.child? h "property"
    rw [hp, hp'] at hrel
    cases hrel with
    | some hpp => exact hpp.text_eq (not_mayAnchor_of_property (List.find?_some hp)) src

theorem not_mayAnchor_of_name {n : Node} (h : n.hasField "name" = true) : n.mayAnchor = false := by
  simp [mayAnchor, h]

theorem not_mayAnchor_of_comment {n : Node} (h : n.isComment = true) : n.mayAnchor = false := by
  refine not_mayAnchor_of_shape ?_
  unfold shape
  rw [beq_iff_eq.1 h]
  decide

end Node

/-- Corresponding steps of the ways to two places of such trees. -/
structure Frame.AnchorsMoved (f f' : Frame) : Prop where
  parent : f.parent.AnchorsMoved f'.parent
  before : List.Forall₂ Node.AnchorsMoved f.before f'.before

/-- The places correspond. -/
structure Cursor.AnchorsMoved (c c' : Cursor) : Prop where
  node : c.node.AnchorsMoved c'.node
  above : List.Forall₂ Frame.AnchorsMoved c.above c'.above

namespace Cursor.AnchorsMoved

variable {c c' : Cursor}

theorem ofRoot {root root' : Node} (h : root.AnchorsMoved root') :
    (Cursor.ofRoot root).AnchorsMoved (.ofRoot root') := ⟨h, .nil⟩

theorem forall₂_childrenFrom {parent parent' : Node} {above above' : List Frame} (hp : parent.AnchorsMoved parent')
    (ha : List.Forall₂ Frame.AnchorsMoved above above') {cs cs' : List Node}
    (h : List.Forall₂ Node.AnchorsMoved cs cs') : ∀ {before before' : List Node},
      List.Forall₂ Node.AnchorsMoved before before' →
        List.Forall₂ Cursor.AnchorsMoved (childrenFrom parent above before cs)
          (childrenFrom parent' above' before' cs') := by
  induction h with
  | nil => exact fun _ => .nil
  | cons hab _ ih => exact fun hb => .cons ⟨hab, .cons ⟨hp, hb⟩ ha⟩ (ih (.cons hab hb))

theorem pairing : Cursor.Pairing Cursor.AnchorsMoved where
  info h := h.node.info
  children h := .of_forall₂ (forall₂_childrenFrom h.node h.above h.node.children .nil)

theorem parent? (h : c.AnchorsMoved c') : Option.Rel Cursor.AnchorsMoved c.parent? c'.parent? := by
  obtain ⟨n, above⟩ := c
  obtain ⟨n', above'⟩ := c'
  unfold Cursor.parent?
  cases h.above with
  | nil => exact .none
  | cons hf ha => exact .some ⟨hf.parent, ha⟩

/-- Corresponding places have as many siblings before them, on every step of the way. -/
theorem path_eq (h : c.AnchorsMoved c') : c'.path = c.path := by
  unfold Cursor.path
  have habove := h.above
  generalize c.above = l at habove
  generalize c'.above = l' at habove
  induction habove with
  | nil => rfl
  | cons hf _ ih => rw [List.map_cons, List.map_cons, ih, hf.before.length_eq]

theorem before (h : c.AnchorsMoved c') : List.Forall₂ Node.AnchorsMoved c.before c'.before := by
  obtain ⟨n, above⟩ := c
  obtain ⟨n', above'⟩ := c'
  unfold Cursor.before
  cases h.above with
  | nil => exact .nil
  | cons hf _ => exact hf.before

end Cursor.AnchorsMoved

namespace Survey

variable (s : Survey)

/-! ## What an insertion leaves before its anchor -/

/-- The blanks repeated before an anchor: what stands before it on its line, unless that is more than
spaces and tabs. -/
inductive PadAt (src : Text) (offset : Nat) : Text → Prop where
  | blank {before lead : Text} : src.take offset = before ++ lead →
    (before = [] ∨ before.getLast? = some Text.newline) →
      (∀ b ∈ lead, Doc.IsIndent b) → PadAt src offset lead
  | other {before lead : Text} : src.take offset = before ++ lead →
    (before = [] ∨ before.getLast? = some Text.newline) →
      Text.newline ∉ lead → (∃ b ∈ lead, ¬ Doc.IsIndent b) → PadAt src offset []

theorem padAt_lineIndent (src : Text) (offset : Nat) : PadAt src offset (lineIndent src offset) := by
  have hlead : Text.newline ∉ Insertion.lineLead src offset := by
    intro h
    have := List.mem_takeWhile_imp (List.mem_reverse.1 h)
    simp at this
  have htake : ∃ before, src.take offset = before ++ Insertion.lineLead src offset ∧
      (before = [] ∨ before.getLast? = some Text.newline) := by
    rcases Insertion.take_eq_lineLead src offset with h | ⟨before, h⟩
    · exact ⟨[], h, .inl rfl⟩
    · exact ⟨before ++ [Text.newline], by rw [h]; simp, .inr (by simp)⟩
  obtain ⟨before, htake, hbefore⟩ := htake
  change PadAt src offset (if (Insertion.lineLead src offset).all fun b => b == 32 || b == 9 then _ else [])
  split
  · rename_i h
    refine .blank htake hbefore fun b hb => ?_
    simpa [Doc.IsIndent] using List.all_eq_true.1 h b hb
  · rename_i h
    refine .other htake hbefore hlead ?_
    simpa [Doc.IsIndent] using h

/-- What is known of a component and the insertion at its place in the other list: both come from the
judgement of one candidate, and the insertion fits the source at the candidate's anchor. -/
structure Anchored (p : Placement) : Prop where
  judged : ∃ c cand f, (Cursor.ofRoot s.tree.root).Contains c ∧ Candidate.at? s.classifier c = some cand ∧
    cand.function? s.classifier = some (some f) ∧ p.anchor = cand.anchor ∧
    s.judge cand (some f) = .documented p.info p.insertion
  offset : p.insertion.offset = p.anchor.node.start
  inside : 0 ≤ p.insertion.offset ∧ p.insertion.offset < s.src.length
  text : ∃ comment pad, p.insertion.text = comment ++ Text.newline :: pad ∧ PadAt s.src p.anchor.node.start pad

theorem anchored {p : Placement} (h : p ∈ s.placements) : s.Anchored p := by
  obtain ⟨c, hc, hp⟩ := List.mem_filterMap.1 h
  obtain ⟨cand, f, hcomp, hj, ha⟩ := s.placement?_eq_some.1 hp
  obtain ⟨hcand, hf⟩ := s.component?_eq_some.1 hcomp
  have hin := Cursor.contains_of_enters (Cursor.mem_frontier.1 hc).1
  obtain ⟨-, -, hne, hstop, hins⟩ := s.placed h
  refine ⟨⟨c, cand, f, hin, hcand, hf, ha, hj⟩, ?_, ?_, ?_⟩
  · rw [hins]
  · rw [hins]
    simp only
    omega
  · rw [hins]
    exact ⟨_, _, List.append_assoc _ _ _, padAt_lineIndent _ _⟩

/-! ## Anchors out of the source -/

/-- An anchor that is empty or goes beyond the source. -/
def OutOfSource (anchor : Node) : Prop := anchor.stop ≤ anchor.start ∨ s.src.length < anchor.stop

theorem judge_of_outOfSource {cand : Candidate} (h : s.OutOfSource cand.anchor.node) (fn : Option Cursor) :
    s.judge cand fn = .skipped ⟨cand.name, 0, .missingLocation⟩ := by
  have ho : offset? s.src cand.anchor.node = none := by
    unfold OutOfSource at h
    exact if_neg (by omega)
  unfold judge
  rw [ho]

/-- The survey of the tree with another root. -/
def withRoot (root : Node) : Survey := { s with tree := { s.tree with root } }

variable {s} {root' : Node} {c c' : Cursor}

theorem counterparts_of_anchorsMoved :
    Counterparts s.classifier (s.withRoot root').classifier Cursor.AnchorsMoved where
  pairing := Cursor.AnchorsMoved.pairing
  parent h := h.parent?
  wrappers := rfl
  words := by
    rintro _ _ ⟨c, c', hM, rfl, rfl⟩
    exact hM.node.sameWords s.src

theorem sameNames_of_anchorsMoved :
    Counterparts.SameNames s.classifier (s.withRoot root').classifier Cursor.AnchorsMoved c :=
  fun _ _ _ hname hM => hM.node.text_eq (Node.not_mayAnchor_of_name hname) s.src

/-- The comments before a place stay where they are. -/
theorem isAnnotated_of_anchorsMoved (src : Text) (h : c.AnchorsMoved c') : isAnnotated src c' = isAnnotated src c := by
  unfold isAnnotated
  have hbefore := h.before
  generalize c.before = l at hbefore
  generalize c'.before = l' at hbefore
  induction hbefore with
  | nil => rfl
  | @cons n n' l l' hn _ ih =>
    have hkind : n'.isComment = n.isComment := by
      unfold Node.isComment
      rw [Node.AnchorsMoved.pairing.kind hn]
    rw [List.takeWhile_cons, List.takeWhile_cons, hkind]
    split
    · rename_i hc
      rw [List.any_cons, List.any_cons, ih, hn.text_eq (Node.not_mayAnchor_of_comment hc)]
    · rfl

/-- A candidate whose anchor stays is judged as before. -/
theorem judge_of_anchorsMoved {cand cand' : Candidate} {f f' : Cursor}
    (hcand : Counterparts.Alike s.classifier (s.withRoot root').classifier Cursor.AnchorsMoved c cand cand')
    (hf : f.AnchorsMoved f') (hstays : cand'.anchor.node.info = cand.anchor.node.info) :
    (s.withRoot root').judge cand' (some f') = s.judge cand (some f) := by
  have hcontract : Contract.ofFunction s.src f'.node = Contract.ofFunction s.src f.node :=
    Contract.ofFunction_eq Node.AnchorsMoved.pairing
      (fun _ _ h hword => h.text_eq (Node.not_mayAnchor_of_word hword) s.src) hf.node
  have hoffset : offset? s.src cand'.anchor.node = offset? s.src cand.anchor.node := by
    unfold offset? Node.start Node.stop
    rw [hstays]
  have hstart : cand'.anchor.node.start = cand.anchor.node.start := by
    unfold Node.start
    rw [hstays]
  unfold judge
  rw [show (s.withRoot root').src = s.src from rfl, hoffset, hcand.name sameNames_of_anchorsMoved, hcand.kind, hstart,
    isAnnotated_of_anchorsMoved s.src hcand.anchor, Option.map_some, Option.getD_some, hcontract]
  rfl

/-- The entries of two surveys are about the same place, and say the same if neither the declaration
there nor its anchor was moved. -/
structure Undisturbed (k : Classifier) (e e' : Entry) : Prop where
  place : e'.place.path = e.place.path
  finding : ∃ cand cand', Candidate.at? k e.place = some cand ∧ Candidate.at? k e'.place = some cand' ∧
    (e'.place.node.info = e.place.node.info → cand'.anchor.node.info = cand.anchor.node.info → e'.finding = e.finding)

theorem entries_of_anchorsMoved (h : s.tree.root.AnchorsMoved root') :
    List.Forall₂ (Undisturbed s.classifier) s.entries (s.withRoot root').entries := by
  refine entries_rel counterparts_of_anchorsMoved (.ofRoot h) fun c _ => ⟨?_, ?_⟩
  · intro d d' p p' _ hM hp hp' hcand
    refine ⟨hM.path_eq, p.1, p'.1, (s.component?_eq_some.1 hp).1, ((s.withRoot root').component?_eq_some.1 hp').1, ?_⟩
    intro hstays _
    have hstart : d'.node.start = d.node.start := congrArg NodeInfo.start hstays
    unfold nestedEntry
    simp only
    rw [hcand.name sameNames_of_anchorsMoved, hstart]
    rfl
  · intro c' p p' hM hp hp' hcand hf
    refine ⟨hM.path_eq, p.1, p'.1, (s.component?_eq_some.1 hp).1, ((s.withRoot root').component?_eq_some.1 hp').1, ?_⟩
    exact fun _ hstays => judge_of_anchorsMoved hcand hf hstays

/-- An entry is about a component declared at its place, listed as nested or judged. -/
theorem entry_cases {e : Entry} (he : e ∈ s.entries) : ∃ cand f, s.component? e.place = some (cand, f) ∧
    (e = s.nestedEntry e.place cand ∨ e.finding = s.judge cand (some f)) := by
  obtain ⟨c, -, he⟩ := List.mem_flatMap.1 he
  unfold entriesOf at he
  split at he
  · cases he
  · rename_i cand f hp
    rcases List.mem_append.1 he with he | he
    · obtain ⟨-, -, ⟨cand', f'⟩, -, hp', heq⟩ := s.mem_entriesIn.1 he
      exact ⟨cand', f', hp', .inl heq⟩
    · rw [List.mem_singleton.1 he]
      exact ⟨cand, f, hp, .inr rfl⟩

theorem missing_of_outOfSource {e : Entry} (he : e ∈ s.entries) {cand : Candidate}
    (hcand : Candidate.at? s.classifier e.place = some cand) (hout : s.OutOfSource cand.anchor.node) :
    e.finding = .skipped ⟨cand.name, 0, .missingLocation⟩ ∨ e = s.nestedEntry e.place cand := by
  obtain ⟨cand', f, hp, hcases⟩ := entry_cases he
  obtain rfl : cand = cand' := Option.some.inj (hcand.symm.trans (s.component?_eq_some.1 hp).1)
  rcases hcases with h | h
  · exact .inr h
  · exact .inl (h.trans (s.judge_of_outOfSource hout _))

/-- The components and the insertions of a survey are the two sides of one list, in which every insertion
begins at the anchor of its component, inside the source, and ends with a newline and the blanks before
the anchor; the insertions can be made. A component whose anchor is not in the source is listed without a
place, and moving anchors, out of the source or within it, changes what is said of their own candidates
only. -/
theorem insertions_anchored (s : Survey) :
    (∃ l : List Placement, s.components = l.map Placement.info ∧ s.insertions = l.map Placement.insertion ∧
      ∀ p ∈ l, s.Anchored p) ∧
    (∃ out, Insertion.apply s.src s.insertions = .ok out) ∧
    s.entries.map Entry.finding = s.findings ∧
    (∀ e ∈ s.entries, ∀ cand, Candidate.at? s.classifier e.place = some cand → s.OutOfSource cand.anchor.node →
      e.finding = .skipped ⟨cand.name, 0, .missingLocation⟩ ∨ e = s.nestedEntry e.place cand) ∧
    ∀ root', s.tree.root.AnchorsMoved root' →
      List.Forall₂ (Undisturbed s.classifier) s.entries (s.withRoot root').entries :=
  ⟨⟨s.placements, s.map_info_placements.symm, s.map_insertion_placements.symm, fun _ => s.anchored⟩,
    ⟨_, s.apply_insertions⟩, s.map_finding_entries, fun _ he _ => missing_of_outOfSource he,
    fun _ => entries_of_anchorsMoved⟩

/-! ## A declaration that goes beyond the source -/

/-- `const N = () => <n/>;` with names of one letter, said to end at some place. -/
def constArrow (start stop : Nat) : Node :=
  .named "lexical_declaration" none start stop
    [.mk ⟨"const", some "kind", start, start + 5, false, false, false, false⟩ [],
      .named "variable_declarator" none (start + 6) (start + 20)
        [.named "identifier" (some "name") (start + 6) (start + 7) [], .token "=" (start + 8) (start + 9),
          .named "arrow_function" (some "value") (start + 10) (start + 20)
            [.named "formal_parameters" (some "parameters") (start + 10) (start + 12)
                [.token "(" (start + 10) (start + 11), .token ")" (start + 11) (start + 12)],
              .token "=>" (start + 13) (start + 15),
              .named "jsx_self_closing_element" (some "body") (start + 16) (start + 20)
                [.token "<" (start + 16) (start + 17),
                  .named "identifier" (some "name") (start + 17) (start + 18) [],
                  .token "/>" (start + 18) (start + 20)]]],
      .token ";" (start + 20) (start + 21)]

/-- Two components, the second of them said to end at some place. -/
def twoArrows (stop : Nat) : Survey :=
  let text : Text := "const A = () => <a/>;\nconst B = () => <b/>;\n"
  ⟨⟨defaultWrappers, none, false⟩, ⟨text, .named "program" none 0 44 [constArrow 0 21, constArrow 22 stop]⟩, text⟩

/-- Where the second component is said to end beyond the source, the first gets the block it got before. -/
theorem lost_anchor_costs_one :
    (twoArrows 43).tree.root.AnchorsMoved (twoArrows 99).tree.root ∧
    List.Forall₂ (Undisturbed (twoArrows 43).classifier) (twoArrows 43).entries (twoArrows 99).entries ∧
    (twoArrows 43).insertions.length = 2 ∧ (twoArrows 99).insertions = (twoArrows 43).insertions.take 1 ∧
    (twoArrows 99).skips = [⟨"B", 0, .missingLocation⟩] := by
  have hmoved : (twoArrows 43).tree.root.AnchorsMoved (twoArrows 99).tree.root := by
    refine .mk rfl (fun _ => rfl) (.cons (.refl _) (.cons (.mk rfl (fun h => absurd h (by decide)) ?_) .nil))
    exact List.forall₂_same.2 fun _ _ => .refl _
  exact ⟨hmoved, (insertions_anchored (twoArrows 43)).2.2.2.2 _ hmoved, by decide +kernel, by decide +kernel,
    by decide +kernel⟩

end Survey

end DocAtlas
