/-
Candidates at paired places. If places of two trees are paired, with their parents, and the classifier
reads the same words in both, then at paired places there is a candidate in both or in neither, of one
kind, with paired nodes and anchors; it has the same name if the names below the place are the same;
and it is a component in both or in neither, with paired functions.
-/
import DocAtlas.Component.Candidate
import DocAtlas.Proofs.Component.Alike
import DocAtlas.Proofs.Component.Ledger

namespace DocAtlas

/-- Places of two trees, paired for the classifier. -/
structure Counterparts (k k' : Classifier) (M : Cursor → Cursor → Prop) : Prop where
  pairing : Cursor.Pairing M
  parent : ∀ {c c'}, M c c' → Option.Rel M c.parent? c'.parent?
  wrappers : k'.wrappers = k.wrappers
  words : ∀ n n', Cursor.OnNodes M n n' → SameWords k.src k'.src n n'

namespace Counterparts

variable {k k' : Classifier} {M : Cursor → Cursor → Prop} (h : Counterparts k k' M) {c c' : Cursor}

/-- The texts at and below a place are the same in both sources. -/
def SameTexts (k k' : Classifier) (M : Cursor → Cursor → Prop) (c : Cursor) : Prop :=
  ∀ d d', c.Contains d → M d d' → d'.node.text k'.src = d.node.text k.src

/-- The names given at and below a place are the same in both sources. -/
def SameNames (k k' : Classifier) (M : Cursor → Cursor → Prop) (c : Cursor) : Prop :=
  ∀ d d', c.Contains d → d.node.hasField "name" = true → M d d' → d'.node.text k'.src = d.node.text k.src

theorem SameTexts.names (ht : SameTexts k k' M c) : SameNames k k' M c := fun d d' hd _ hM => ht d d' hd hM

theorem SameNames.mono {d : Cursor} (ht : SameNames k k' M c) (hd : c.Contains d) : SameNames k k' M d :=
  fun e e' he hn hM => ht e e' (hd.trans he) hn hM

/-- The candidates at paired places. -/
structure Alike (k k' : Classifier) (M : Cursor → Cursor → Prop) (c : Cursor) (cand cand' : Candidate) : Prop where
  kind : cand'.kind = cand.kind
  node : M cand.node cand'.node
  anchor : M cand.anchor cand'.anchor
  name : SameNames k k' M c → cand'.name = cand.name

include h

/-! ## Classification -/

theorem shape (hc : M c c') : c'.node.shape = c.node.shape := h.pairing.nodes.shape (Cursor.onNodes hc)

theorem isFunction (hc : M c c') : c'.node.isFunction = c.node.isFunction :=
  h.pairing.nodes.isFunction (Cursor.onNodes hc)

theorem isComponent (hc : M c c') : k.isComponent c.node = k'.isComponent c'.node :=
  Classifier.isComponent_eq h.pairing.nodes h.wrappers h.words (Cursor.onNodes hc)

theorem isWrapped (hc : M c c') : k.isWrapped c.node = k'.isWrapped c'.node :=
  Classifier.isWrapped_eq h.pairing.nodes h.wrappers h.words (Cursor.onNodes hc)

theorem firstArgumentAt? (hc : M c c') :
    Option.Rel M (Classifier.firstArgumentAt? c) (Classifier.firstArgumentAt? c') := by
  unfold Classifier.firstArgumentAt?
  refine rel_bind (rel_bind (h.pairing.child? hc "arguments") fun a _ b hab => h.pairing.firstProper? hab)
    fun a _ b hab => ?_
  exact h.pairing.stripParens? hab

theorem unwrapWithin (fuel : Nat) (hc : M c c') : Option.Rel M (k.unwrapWithin fuel c) (k'.unwrapWithin fuel c') := by
  induction fuel generalizing c c' with
  | zero => exact .none
  | succ fuel ih =>
    rw [Classifier.unwrapWithin, Classifier.unwrapWithin]
    have hcall := h.pairing.stripParens? hc
    generalize c.stripParens? = call at hcall
    generalize c'.stripParens? = call' at hcall
    cases hcall with
    | none => exact .none
    | @some call call' hcall =>
      have harg := h.firstArgumentAt? hcall
      simp only
      rw [Classifier.isWrapperCall_eq h.pairing.nodes h.wrappers h.words (Cursor.onNodes hcall)]
      generalize Classifier.firstArgumentAt? call = arg at harg
      generalize Classifier.firstArgumentAt? call' = arg' at harg
      split
      · -- a wrapper call: the search goes on with its argument
        cases harg with
        | none => exact .none
        | some ha =>
          simp only
          rw [h.isFunction ha]
          split
          · exact .some ha
          · exact ih ha
      · exact .none

theorem wrappedFunction? (hc : M c c') : Option.Rel M (k.wrappedFunction? c) (k'.wrappedFunction? c') :=
  h.unwrapWithin maxDepth hc

/-! ## Candidates -/

theorem exportAnchor (hc : M c c') : M (Candidate.exportAnchor c) (Candidate.exportAnchor c') := by
  unfold Candidate.exportAnchor
  have hp := h.parent hc
  generalize c.parent? = p at hp
  generalize c'.parent? = p' at hp
  cases hp with
  | none => exact hc
  | some hp =>
    simp only
    rw [h.shape hp]
    split
    · exact hp
    · exact hc

theorem declaratorAnchor (hc : M c c') : M (Candidate.declaratorAnchor c) (Candidate.declaratorAnchor c') := by
  unfold Candidate.declaratorAnchor
  have hp := h.parent hc
  generalize c.parent? = p at hp
  generalize c'.parent? = p' at hp
  cases hp with
  | none => exact hc
  | some hp =>
    simp only
    rw [h.shape hp]
    split
    · exact h.exportAnchor hp
    · exact hc

/-- The name of a declaration; its text is the same if the names inside are. -/
theorem name? (hc : M c c') :
    Option.Rel (fun d d' => M d d' ∧ (SameNames k k' M c → d'.node.text k'.src = d.node.text k.src))
    (c.child? "name") (c'.child? "name") :=
  rel_imp (h.pairing.child? hc "name") fun d hd d' hM => ⟨hM, fun ht =>
    ht d d' (Cursor.contains_of_child (Cursor.child?_mem hd)) (Cursor.hasField_of_child? hd) hM⟩

theorem ownName? (hc : M c c') : Option.Rel (fun a b => SameNames k k' M c → b = a)
    (Candidate.ownName? k.src c.node) (Candidate.ownName? k'.src c'.node) := by
  unfold Candidate.ownName?
  rw [← Cursor.map_node_child?, ← Cursor.map_node_child?, Option.map_map, Option.map_map]
  exact rel_map (h.name? hc) fun _ _ _ hd => hd.2

theorem ofFunction? (hc : M c c') :
    Option.Rel (Alike k k' M c) (Candidate.ofFunction? k c) (Candidate.ofFunction? k' c') := by
  unfold Candidate.ofFunction?
  have hname := h.ownName? hc
  generalize Candidate.ownName? k.src c.node = name at hname
  generalize Candidate.ownName? k'.src c'.node = name' at hname
  cases hname with
  | none => exact .none
  | some hn => exact .some ⟨rfl, hc, h.exportAnchor hc, hn⟩

/-- The value of a declaration, inside its parentheses. -/
theorem value? (hc : M c c') : Option.Rel (fun v v' => c.Contains v ∧ M v v')
    ((c.child? "value").bind Cursor.stripParens?) ((c'.child? "value").bind Cursor.stripParens?) := by
  refine rel_bind (h.pairing.child? hc "value") fun a ha b hab => ?_
  exact rel_imp (h.pairing.stripParens? hab) fun v hv v' hM =>
    ⟨(Cursor.contains_of_child (Cursor.child?_mem ha)).trans (Cursor.contains_of_stripParens? hv), hM⟩

theorem ofDeclarator? (hc : M c c') :
    Option.Rel (Alike k k' M c) (Candidate.ofDeclarator? k c) (Candidate.ofDeclarator? k' c') := by
  unfold Candidate.ofDeclarator?
  have hvalue := h.value? hc
  generalize (c.child? "value").bind Cursor.stripParens? = value at hvalue
  generalize (c'.child? "value").bind Cursor.stripParens? = value' at hvalue
  rw [← Cursor.map_node_child?, ← Cursor.map_node_child?]
  have hname := h.name? hc
  generalize c.child? "name" = name at hname
  generalize c'.child? "name" = name' at hname
  cases hname with
  | none => exact .none
  | some hd =>
    cases hvalue with
    | none => exact .none
    | some hv =>
      simp only [Option.map_some]
      rw [h.shape hd.1, h.shape hv.2]
      split
      · cases Candidate.boundKind? _ with
        | none => exact .none
        | some kind => exact .some ⟨rfl, hv.2, h.declaratorAnchor hc, hd.2⟩
      · exact .none

/-- The name of the function inside a chain of wrapper calls. -/
theorem wrappedName? (hc : M c c') (ht : SameNames k k' M c) :
    ((k'.wrappedFunction? c').bind fun f => Candidate.ownName? k'.src f.node) =
      (k.wrappedFunction? c).bind fun f => Candidate.ownName? k.src f.node := by
  have hf := rel_imp (h.wrappedFunction? hc) fun f hf f' hM => And.intro hM (ht.mono (k.contains_of_unwrapWithin hf))
  generalize k.wrappedFunction? c = f at hf
  generalize k'.wrappedFunction? c' = f' at hf
  cases hf with
  | none => rfl
  | @some f f' hf =>
    have hname := h.ownName? hf.1
    simp only [Option.bind_some]
    generalize Candidate.ownName? k.src f.node = name at hname
    generalize Candidate.ownName? k'.src f'.node = name' at hname
    cases hname with
    | none => rfl
    | some hn => rw [hn hf.2]

theorem ofExport? (hc : M c c') :
    Option.Rel (Alike k k' M c) (Candidate.ofExport? k c) (Candidate.ofExport? k' c') := by
  unfold Candidate.ofExport?
  have hvalue := h.value? hc
  generalize (c.child? "value").bind Cursor.stripParens? = value at hvalue
  generalize (c'.child? "value").bind Cursor.stripParens? = value' at hvalue
  cases hvalue with
  | none => exact .none
  | @some v v' hv =>
    obtain ⟨hin, hv⟩ := hv
    simp only
    rw [h.isFunction hv, h.shape hv]
    -- a function has its own name, a wrapper call the name of the function inside
    split
    · refine .some ⟨rfl, hv, hc, fun ht => ?_⟩
      have hname := h.ownName? hv
      simp only
      generalize Candidate.ownName? k.src v.node = name at hname
      generalize Candidate.ownName? k'.src v'.node = name' at hname
      cases hname with
      | none => rfl
      | some hn => rw [hn (ht.mono hin)]
    · split
      · refine .some ⟨rfl, hv, hc, fun ht => ?_⟩
        simp only
        rw [h.wrappedName? hv (ht.mono hin)]
      · exact .none

/-- There is a candidate at both of two paired places or at neither. -/
theorem at? (hc : M c c') : Option.Rel (Alike k k' M c) (Candidate.at? k c) (Candidate.at? k' c') := by
  unfold Candidate.at?
  rw [h.shape hc]
  split
  · exact h.ofFunction? hc
  · exact h.ofDeclarator? hc
  · exact h.ofExport? hc
  · exact .none

/-- Candidates alike are components both or neither. -/
theorem function? {cand cand' : Candidate} (hcand : Alike k k' M c cand cand') :
    Option.Rel (Option.Rel M) (cand.function? k) (cand'.function? k') := by
  unfold Candidate.function?
  rw [hcand.kind, h.isWrapped hcand.node, h.isComponent hcand.node]
  split
  · split
    · exact .some (h.wrappedFunction? hcand.node)
    · exact .none
  · split
    · exact .some (.some hcand.node)
    · exact .none

end Counterparts

namespace Survey

variable {s s' : Survey} {M : Cursor → Cursor → Prop} (h : Counterparts s.classifier s'.classifier M) {c c' : Cursor}

include h

/-! ## Declarations -/

theorem component?_rel (hc : M c c') :
    Option.Rel (fun p p' => Counterparts.Alike s.classifier s'.classifier M c p.1 p'.1 ∧ M p.2 p'.2)
      (s.component? c) (s'.component? c') := by
  unfold component?
  refine rel_bind (h.at? hc) fun cand _ cand' hcand => ?_
  have hf := h.function? hcand
  generalize cand.function? s.classifier = fn at hf
  generalize cand'.function? s'.classifier = fn' at hf
  cases hf with
  | none => exact .none
  | some hf =>
    cases hf with
    | none => exact .none
    | some hf => exact .some ⟨hcand, hf⟩

theorem declares_eq (hc : M c c') : s.declares c = s'.declares c' := by
  unfold declares
  have hp := component?_rel h hc
  generalize s.component? c = p at hp
  generalize s'.component? c' = p' at hp
  cases hp <;> rfl

theorem closes_eq (hc : M c c') : s.closes c = s'.closes c' := by
  unfold closes
  rw [declares_eq h hc, h.isFunction hc, h.isComponent hc]

omit h in
theorem not_declares_of_stray (s : Survey) {d : Cursor} (hd : d.node.IsStray) : s.declares d = false := by
  simp [declares, component?, Candidate.at?, hd.shape]

omit h in
theorem not_closes_of_stray (s : Survey) {d : Cursor} (hd : d.node.IsStray) : s.closes d = false := by
  simp [closes, s.not_declares_of_stray hd, Node.isFunction, hd.shape, Shape.isFunction]

/-! ## Entries -/

/-- What is asked of the entries of two surveys at paired places: the components listed inside another one
are related, and so are those that are judged. -/
structure RelatesEntries (s s' : Survey) (M : Cursor → Cursor → Prop) (S : Entry → Entry → Prop) (c : Cursor) :
    Prop where
  nested : ∀ {d d' p p'}, c.Contains d → M d d' → s.component? d = some p → s'.component? d' = some p' →
    Counterparts.Alike s.classifier s'.classifier M d p.1 p'.1 → S (s.nestedEntry d p.1) (s'.nestedEntry d' p'.1)
  judged : ∀ {c' p p'}, M c c' → s.component? c = some p → s'.component? c' = some p' →
    Counterparts.Alike s.classifier s'.classifier M c p.1 p'.1 → M p.2 p'.2 →
      S ⟨c, s.judge p.1 (some p.2)⟩ ⟨c', s'.judge p'.1 (some p'.2)⟩

variable {S : Entry → Entry → Prop}

/-- The components listed inside paired functions. -/
theorem entriesIn_rel {f f' : Cursor} (hS : RelatesEntries s s' M S c) (hin : c.Contains f) (hf : M f f') :
    List.Forall₂ S (s.entriesIn f) (s'.entriesIn f') := by
  have hplaces : List.Forall₂ (fun d d' => c.Contains d ∧ M d d') (f.proper.flatMap (Cursor.frontier s.declares))
      (f'.proper.flatMap (Cursor.frontier s'.declares)) := by
    refine forall₂_flatMap ((h.pairing.inside c).proper ⟨hin, hf⟩) fun d _ d' hd => ?_
    exact (h.pairing.inside c).frontier (fun _ _ hM => declares_eq h hM.2) (fun _ hd => s'.not_declares_of_stray hd) hd
  unfold entriesIn
  refine forall₂_filterMap hplaces fun d _ d' hd => ?_
  have hcomp := component?_rel h hd.2
  cases hp : s.component? d <;> cases hp' : s'.component? d' <;> rw [hp, hp'] at hcomp <;> cases hcomp
  · exact .none
  · rename_i hcand
    exact .some (hS.nested hd.1 hd.2 hp hp' hcand.1)

theorem entriesOf_rel (hS : RelatesEntries s s' M S c) (hM : M c c') :
    List.Forall₂ S (s.entriesOf c) (s'.entriesOf c') := by
  have hcomp := component?_rel h hM
  unfold entriesOf
  cases hp : s.component? c <;> cases hp' : s'.component? c' <;> rw [hp, hp'] at hcomp <;> cases hcomp
  · exact .nil
  · rename_i hcand
    exact List.rel_append (entriesIn_rel h hS (s.component?_spec hp).2.1 hcand.2)
      (.cons (hS.judged hM hp hp' hcand.1 hcand.2) .nil)

/-- The surveys of paired trees make related entries. -/
theorem entries_rel (hroot : M (.ofRoot s.tree.root) (.ofRoot s'.tree.root))
    (hS : ∀ c ∈ (Cursor.ofRoot s.tree.root).frontier s.closes, RelatesEntries s s' M S c) :
    List.Forall₂ S s.entries s'.entries := by
  have hplaces := h.pairing.frontier (fun _ _ hM => closes_eq h hM) (fun _ hd => s'.not_closes_of_stray hd) hroot
  exact forall₂_flatMap hplaces fun c hc c' hM => entriesOf_rel h (hS c hc) hM

end Survey

end DocAtlas
