/-
Comments and the extraction of facts. If a tree is another with comments put in, the two have the same
declarations, imports, exports and calls, but for their lines and for recorded texts that a comment was put
into, with one exception. An argument in parentheses is described by the first named node in them, and
a comment is a named node: where one was put first, the argument is recorded as `Comment`.
-/
import DocAtlas.Knowledge.Extract
import DocAtlas.Proofs.Tree.Respelling

namespace DocAtlas

/-! ## Facts up to lines -/

/-- Declarations that differ in their lines and by recorded texts. They are exported both or neither, unless the name of
one is itself a text that is recorded differently. -/
structure SymbolFact.Alike (R : Text → Text → Prop) (s s' : SymbolFact) : Prop where
  kind : s'.kind = s.kind
  name : s'.name = s.name
  exported : (∀ u, R s.name u ∨ R u s.name → u = s.name) → s'.exported = s.exported
  declaration : s'.declaration = s.declaration
  params : List.Forall₂ R s.params s'.params
  async : s'.async = s.async
  generator : s'.generator = s.generator
  superClass : R s.superClass s'.superClass
  methods : List.Forall₂ R s.methods s'.methods
  properties : List.Forall₂ R s.properties s'.properties

/-- Imports that differ in their lines. -/
structure ImportFact.Alike (i i' : ImportFact) : Prop where
  source : i'.source = i.source
  specifiers : i'.specifiers = i.specifiers

/-- Exports that differ in their lines and by recorded texts. -/
structure ExportFact.Alike (R : Text → Text → Prop) (e e' : ExportFact) : Prop where
  name : R e.name e'.name
  localName : R e.localName e'.localName
  unnamed : e'.localName = [] ↔ e.localName = []
  isDefault : e'.isDefault = e.isDefault
  source : e'.source = e.source

/-- Calls that differ in their lines and by recorded texts, with related arguments. -/
structure CallFact.Alike (R A : Text → Text → Prop) (c c' : CallFact) : Prop where
  name : c'.name = c.name
  arguments : ∃ as as', c.arguments = some as ∧ c'.arguments = some as' ∧ List.Forall₂ A as as'
  context : R c.context c'.context

/-- Facts of two files that differ as those of trees do, in the same order. -/
structure FileFacts.Alike (R A : Text → Text → Prop) (f f' : FileFacts) : Prop where
  path : f'.path = f.path
  language : f'.language = f.language
  symbols : List.Forall₂ (SymbolFact.Alike R) f.symbols f'.symbols
  imports : List.Forall₂ ImportFact.Alike f.imports f'.imports
  exports : List.Forall₂ (ExportFact.Alike R) f.exports f'.exports
  calls : List.Forall₂ (CallFact.Alike R A) f.calls f'.calls

variable {place : Nat → Nat} {t t' : SyntaxTree} {n n' : Node}

/-! ## Arguments -/

namespace Node

theorem innermostOf?_eq (cs : List Node) : innermostOf? cs = (cs.find? isNamed).map innermost :=
  eq_of_first (f := fun o => o.map innermost) (by rw [innermostOf?]; rfl) (fun _ _ => by rw [innermostOf?]; rfl) cs

theorem innermost_eq (n : Node) :
    n.innermost = if n.kind == "parenthesized_expression" then ((n.children.find? isNamed).map innermost).getD n
      else n := by
  cases n with
  | mk i cs =>
    rw [innermost, innermostOf?_eq]
    rfl

theorem innermost_comment (h : n.isComment = true) : n.innermost = n := by
  have hkind : n.kind = "comment" := beq_iff_eq.1 h
  rw [innermost_eq, hkind]
  rfl

/-- Whether the first named node in the parentheses is a comment. -/
def beginsWithComment (n : Node) : Bool := (n.children.find? isNamed).any isComment

end Node

/-- Whether a comment was put first in some parentheses of an argument. -/
def SyntaxTree.Hides (place : Nat → Nat) (t t' : SyntaxTree) (a a' : Node) : Prop :=
  ∃ p ∈ a.preorder, ∃ p' ∈ a'.preorder, t.Corresponds place t' p p' ∧ p.kind = "parenthesized_expression" ∧
    p'.beginsWithComment = true ∧ p.beginsWithComment = false

theorem SyntaxTree.Hides.of_child {a a' : Node} (ha : a ∈ n.children) (ha' : a' ∈ n'.children)
    (h : t.Hides place t' a a') :
    t.Hides place t' n n' := by
  obtain ⟨p, hp, p', hp', h⟩ := h
  exact ⟨p, Node.mem_preorder_of_below ha hp, p', Node.mem_preorder_of_below ha' hp', h⟩

namespace CallFact

/-- The innermost nodes correspond, or there is a comment in the place of the second. -/
theorem innermost_or (h : t.Corresponds place t' n n') : t.Corresponds place t' n.innermost n'.innermost ∨
    n'.innermost.isComment = true ∧ (n.innermost.isComment = true ∨ t.Hides place t' n n') := by
  induction n using Node.ind generalizing n' with
  | h n ih =>
    rw [Node.innermost_eq n, Node.innermost_eq n', Node.Commented.pairing.kind h]
    split
    · rename_i hkind
      rcases h.children.find?_or (p := Node.isNamed) fun _ _ _ hab => (Node.Commented.pairing.named hab).symm
        with hfirst | ⟨b, hb, hstray⟩
      · have hin : ∀ a, n.children.find? Node.isNamed = some a → a ∈ n.children := fun _ => List.mem_of_find?_eq_some
        have hin' : ∀ a, n'.children.find? Node.isNamed = some a → a ∈ n'.children := fun _ => List.mem_of_find?_eq_some
        generalize n.children.find? Node.isNamed = o at hfirst hin
        generalize n'.children.find? Node.isNamed = o' at hfirst hin'
        cases hfirst with
        | none => exact .inl h
        | @some a b hab =>
          rcases ih a (hin a rfl) hab with hinner | ⟨hnew, hold | hhides⟩
          · exact .inl hinner
          · exact .inr ⟨hnew, .inl hold⟩
          · exact .inr ⟨hnew, .inr (hhides.of_child (hin a rfl) (hin' b rfl))⟩
      · -- the parentheses begin with a comment now; did they before?
        have hbegins : n'.beginsWithComment = true := by
          unfold Node.beginsWithComment
          rw [hb]
          exact hstray.comment
        rw [hb, Option.map_some, Option.getD_some, Node.innermost_comment hstray.comment]
        refine .inr ⟨hstray.comment, ?_⟩
        cases hold : n.beginsWithComment with
        | false =>
          exact .inr ⟨n, n.mem_preorder_self, n', n'.mem_preorder_self, h, beq_iff_eq.1 hkind, hbegins, hold⟩
        | true =>
          obtain ⟨a, ha, hcomment⟩ := (Option.any_eq_true _ _).1 hold
          rw [ha, Option.map_some, Option.getD_some, Node.innermost_comment hcomment]
          exact .inl hcomment
    · exact .inl h

/-- The description of an argument: the same, or `Comment` where a comment was put first in parentheses of it. -/
def SameArgument (place : Nat → Nat) (t t' : SyntaxTree) (u u' : Text) : Prop :=
  u' = u ∨ u' = "Comment" ∧ ∃ a a', t.Corresponds place t' a a' ∧ u = argumentName t.source a ∧ t.Hides place t' a a'

theorem argumentName_comment {src : Text} (h : n.innermost.isComment = true) : argumentName src n = "Comment" := by
  have hkind : n.innermost.kind = "comment" := beq_iff_eq.1 h
  have hcamel : camelKind "comment" = Text.ofString "Comment" := by decide
  unfold argumentName
  simp only [hkind]
  exact hcamel

theorem isFragment_eq (h : t.Corresponds place t' n n') : isFragment n' = isFragment n := by
  unfold isFragment
  refine (any_eq_of_rel (Node.Commented.pairing.child? h "open_tag") fun a _ b hab => ?_).symm
  have hname := Node.Commented.pairing.child? hab "name"
  generalize a.child? "name" = o at hname
  generalize b.child? "name" = o' at hname
  cases hname <;> rfl

theorem argumentName_eq (h : t.Corresponds place t' n.innermost n'.innermost) :
    argumentName t'.source n' = argumentName t.source n := by
  unfold argumentName
  simp only [Node.Commented.pairing.kind h, isFragment_eq h, ← Node.Commented.pairing.isLogical h]
  split
  case h_1 hk | h_2 hk => exact h.text_eq_of_kind (by simp [hk, Node.spelledKinds])
  all_goals rfl

theorem argumentName_same (h : t.Corresponds place t' n n') :
    SameArgument place t t' (argumentName t.source n) (argumentName t'.source n') := by
  rcases innermost_or h with h | ⟨hnew, hold | hhides⟩
  · exact .inl (argumentName_eq h)
  · exact .inl (by rw [argumentName_comment hnew, argumentName_comment hold])
  · exact .inr ⟨argumentName_comment hnew, n, n', h, rfl, hhides⟩

/-! ## Contexts -/

/-- The text of a child, if there is one. -/
theorem textOf_recorded {c c' : Option Node}
    (h : Option.Rel (fun c c' => t.Corresponds place t' c c' ∧ (c'.text t'.source = [] ↔ c.text t.source = [])) c c') :
    t.Recorded place t' ((c.map fun n => n.text t.source).getD []) ((c'.map fun n => n.text t'.source).getD []) ∧
      ((c'.map fun n => n.text t'.source).getD [] = [] ↔ (c.map fun n => n.text t.source).getD [] = []) := by
  cases h with
  | none => exact ⟨.inl rfl, Iff.rfl⟩
  | some hc => exact ⟨hc.1.recorded, hc.2⟩

theorem bindingName_alike {o o' : Option Node} (h : Option.Rel (t.Corresponds place t') o o') :
    t.Recorded place t' (bindingName t.source o) (bindingName t'.source o') ∧
      (bindingName t'.source o' = [] ↔ bindingName t.source o = []) := by
  cases h with
  | none => exact ⟨.inl rfl, Iff.rfl⟩
  | @some p p' hp =>
    unfold bindingName
    simp only [Node.Commented.pairing.kind hp]
    split
    · -- a variable, if it is not a pattern
      refine textOf_recorded (rel_bind (hp.child?_blank "name") fun c _ c' hc => ?_)
      rw [Node.Commented.pairing.kind hc.1]
      split
      · exact .some hc
      · exact .none
    · exact textOf_recorded (hp.child?_blank "property")
    · exact textOf_recorded (hp.child?_blank "name")
    · exact textOf_recorded .none

/-- The nodes around a call name its context alike. -/
theorem contextOf_recorded {as as' : List Node} (h : List.Forall₂ (t.Corresponds place t') as as') :
    t.Recorded place t' (contextOf t.source as) (contextOf t'.source as') := by
  induction h with
  | nil => exact .inl rfl
  | @cons p p' as as' hp has ih =>
    have hname := hp.child?_blank "name"
    have hbound : t.Recorded place t' (bindingName t.source as.head?) (bindingName t'.source as'.head?) ∧
        (bindingName t'.source as'.head? = [] ↔ bindingName t.source as.head? = []) := by
      refine bindingName_alike ?_
      cases has with
      | nil => exact .none
      | cons hq _ => exact .some hq
    rw [contextOf, contextOf, Node.Commented.pairing.kind hp]
    generalize p.child? "name" = o at hname
    generalize p'.child? "name" = o' at hname
    split
    case h_1 | h_2 | h_3 =>
      cases hname with
      | none => exact ih
      | some hc => exact hc.1.recorded
    case h_4 | h_5 | h_6 | h_7 =>
      cases hname with
      | some hc => exact hc.1.recorded
      | none =>
        simp only [List.isEmpty_iff, hbound.2]
        split
        · exact ih
        · exact hbound.1
    · exact ih

end CallFact

/-! ## Matches -/

/-- Corresponding places, not at the top of a tree. -/
abbrev SyntaxTree.Captures (place : Nat → Nat) (t t' : SyntaxTree) (c c' : Cursor) : Prop :=
  Cursor.Commented (fun n n' => (n ∈ t.root.preorder ∧ n' ∈ t'.root.preorder) ∧
  n.Kept place t.source t'.source n') c c' ∧
    c.node.isProgram = false

theorem SyntaxTree.Captures.start {c c' : Cursor} (h : t.Captures place t' c c') : c'.node.start = place c.node.start :=
  h.1.node.kept.2.start h.2

/-! ## Declarations -/

namespace Node

theorem bareField?_eq (f : String) (cs : List Node) : bareField? f cs = (cs.find? (hasField f)).map bareParameter :=
  eq_of_first (f := fun o => o.map bareParameter) (by rw [bareField?]; rfl) (fun _ _ => by rw [bareField?]; rfl) cs

theorem bareParameter_eq (n : Node) :
    n.bareParameter =
      if n.kind == "required_parameter" || n.kind == "optional_parameter" then
        ((n.child? "pattern").map bareParameter).getD n
      else if n.kind == "assignment_pattern" then ((n.child? "left").map bareParameter).getD n
      else n := by
  cases n with
  | mk i cs =>
    rw [bareParameter, bareField?_eq, bareField?_eq]
    rfl

theorem Pairing.bareParameter {R : Node → Node → Prop} (h : Pairing R) (hn : R n n') :
    R n.bareParameter n'.bareParameter := by
  induction n using Node.ind generalizing n' with
  | h n ih =>
    have hchild : ∀ f, R (((n.child? f).map Node.bareParameter).getD n)
      (((n'.child? f).map Node.bareParameter).getD n') :=
      fun f => rel_getD (rel_map (h.child? hn f) fun a ha b hab => ih a (child?_mem ha) hab) hn
    rw [bareParameter_eq n, bareParameter_eq n', h.kind hn]
    split
    · exact hchild "pattern"
    · split
      · exact hchild "left"
      · exact hn

theorem Pairing.isVariableDeclaration {R : Node → Node → Prop} (h : Pairing R) (hn : R n n') :
    n'.isVariableDeclaration = n.isVariableDeclaration := by
  unfold Node.isVariableDeclaration
  rw [h.kind hn]

/-- The proper children of nodes, if there are any. -/
theorem Pairing.properOf {R : Node → Node → Prop} (h : Pairing R) {o o' : Option Node} (ho : Option.Rel R o o') :
    List.Forall₂ R ((o.map Node.proper).getD []) ((o'.map Node.proper).getD []) := by
  cases ho with
  | none => exact .nil
  | some hn => exact h.proper hn

end Node

namespace SymbolFact

theorem parameterNames_recorded {o o' : Option Node} (h : Option.Rel (t.Corresponds place t') o o') :
    List.Forall₂ (t.Recorded place t') (parameterNames t.source o) (parameterNames t'.source o') := by
  unfold parameterNames
  rw [List.forall₂_map_left_iff, List.forall₂_map_right_iff]
  refine (Node.Commented.pairing.properOf h).imp fun p p' hp => ?_
  exact SyntaxTree.Corresponds.recorded (Node.Commented.pairing.bareParameter hp)

theorem extended?_recorded (h : t.Corresponds place t' n n') :
    Option.Rel (t.Recorded place t') (extended? t.source n) (extended? t'.source n') := by
  unfold extended?
  rw [Node.Commented.pairing.kind h]
  split
  · exact h.child?_recorded "value"
  · split
    · exact .none
    · exact .some h.recorded

theorem superClassOf_recorded (h : t.Corresponds place t' n n') :
    t.Recorded place t' (superClassOf t.source n) (superClassOf t'.source n') := by
  unfold superClassOf
  have hheritage : List.Forall₂ (t.Corresponds place t') (n.proper.filter fun c => c.kind == "class_heritage")
      (n'.proper.filter fun c => c.kind == "class_heritage") :=
    forall₂_filter (Node.Commented.pairing.proper h) fun _ _ _ hab => by rw [Node.Commented.pairing.kind hab]
  have hclauses := forall₂_flatMap hheritage fun _ _ _ hab => Node.Commented.pairing.proper hab
  exact rel_getD (forall₂_findSome? hclauses fun _ _ _ hab => extended?_recorded hab) (.inl rfl)

theorem membersOf_recorded {o o' : Option Node} (h : Option.Rel (t.Corresponds place t') o o')
    (field? : String → Option String) :
    List.Forall₂ (t.Recorded place t') (membersOf t.source o field?) (membersOf t'.source o' field?) := by
  unfold membersOf
  refine forall₂_filterMap (Node.Commented.pairing.properOf h) fun m _ m' hm => ?_
  rw [Node.Commented.pairing.kind hm]
  cases field? m.kind with
  | none => exact .none
  | some f => exact SyntaxTree.Corresponds.child?_recorded hm f

variable {d d' : Cursor} (hd : t.Captures place t' d d')

include hd

theorem isExported_eq : isExported d' = isExported d := by
  unfold isExported
  have habove := hd.1.ancestors
  generalize d.ancestors = as at habove
  generalize d'.ancestors = as' at habove
  cases habove with
  | nil => rfl
  | cons hp habove =>
    simp only [Node.Commented.pairing.kind hp, Node.Commented.pairing.isVariableDeclaration hp]
    cases habove with
    | nil => rfl
    | cons hq _ => simp only [List.head?_cons, Option.any_some, Node.Commented.pairing.kind hq]

theorem keywordOf_eq (hs : ∀ n ∈ t.root.preorder, n.spellsNames = true) :
    keywordOf t'.source d' = keywordOf t.source d := by
  unfold keywordOf
  have habove := hd.1.ancestors
  generalize d.ancestors = as at habove
  generalize d'.ancestors = as' at habove
  cases habove with
  | nil => rfl
  | @cons p p' as as' hp _ =>
    simp only [Node.Commented.pairing.kind hp]
    split
    · rename_i hkind
      rw [SyntaxTree.Corresponds.child?_text hp hs (beq_iff_eq.1 hkind) (by decide)]
    · rfl

theorem ofDeclaration_alike (hs : ∀ n ∈ t.root.preorder, n.spellsNames = true) (category : String) {u u' : Text}
    (hu : u' = u) :
    SymbolFact.Alike (t.Recorded place t') (ofDeclaration t category u d) (ofDeclaration t' category u' d') := by
  have hnode := hd.1.node
  have hbasic : SymbolFact.Alike (t.Recorded place t') (basic t category u d) (basic t' category u' d') :=
    ⟨rfl, hu, fun _ => isExported_eq hd, rfl, .nil, rfl, rfl, .inl rfl, .nil, .nil⟩
  unfold ofDeclaration
  simp only
  split
  · -- a function
    refine { hbasic with params := ?_, async := ?_, generator := ?_ }
    · exact parameterNames_recorded (Node.Commented.pairing.child? hnode "parameters")
    · exact (Node.Commented.pairing.hasToken hnode (by decide)).symm
    · exact congrArg (· == "generator_function_declaration") (Node.Commented.pairing.kind hnode)
  · split
    · exact { hbasic with declaration := keywordOf_eq hd hs }
    · split
      · -- a class
        have hbody := Node.Commented.pairing.child? hnode "body"
        exact { hbasic with
          superClass := superClassOf_recorded hnode
          methods := membersOf_recorded hbody methodField?
          properties := membersOf_recorded hbody propertyField? }
      · exact hbasic

end SymbolFact

/-! ## Imports and exports -/

section Modules

variable (hs : ∀ n ∈ t.root.preorder, n.spellsNames = true)

include hs

theorem ImportFact.specifiersOfPart_eq (h : t.Corresponds place t' n n') :
    List.Forall₂ (fun x x' => x = x') (specifiersOfPart t.source n) (specifiersOfPart t'.source n') := by
  have hproper := Node.Commented.pairing.proper h
  have hword : ∀ a b : Node, t.Corresponds place t' a b → a.kind = "identifier" → a.text t.source = b.text t'.source :=
    fun a b hab hkind => (hab.text_eq_of_kind (by simp [hkind, Node.spelledKinds])).symm
  unfold specifiersOfPart
  rw [Node.Commented.pairing.kind h]
  split
  · rename_i hkind
    rw [hword n n' h hkind]
    exact .cons rfl .nil
  · -- a namespace has a word for its name
    rw [List.forall₂_map_left_iff, List.forall₂_map_right_iff, ← List.filterMap_eq_filter]
    refine forall₂_filterMap hproper fun a _ b hab => ?_
    simp only [Option.guard, Node.Commented.pairing.kind hab]
    split
    · rename_i hkind
      exact .some (by rw [hword a b hab (beq_iff_eq.1 hkind)])
    · exact .none
  · -- each specifier has words for its names
    rw [List.filterMap_filter, List.filterMap_filter]
    refine forall₂_filterMap hproper fun a _ b hab => ?_
    simp only [Node.Commented.pairing.kind hab]
    split
    · rename_i hkind
      have hname := SyntaxTree.Corresponds.child?_text hab hs (f := "name") (beq_iff_eq.1 hkind) (by decide)
      rw [SyntaxTree.Corresponds.child?_text hab hs (f := "alias") (beq_iff_eq.1 hkind) (by decide)]
      generalize a.child? "name" = o at hname
      generalize b.child? "name" = o' at hname
      cases o <;> cases o' <;> simp at hname
      · exact .none
      · exact .some (by simp only [hname])
    · exact .none
  · exact .nil

theorem ImportFact.specifiersOf_eq (h : t.Corresponds place t' n n') :
    specifiersOf t'.source n' = specifiersOf t.source n := by
  unfold specifiersOf
  have hclauses : List.Forall₂ (t.Corresponds place t') (n.proper.filter fun c => c.kind == "import_clause")
      (n'.proper.filter fun c => c.kind == "import_clause") :=
    forall₂_filter (Node.Commented.pairing.proper h) fun _ _ _ hab => by rw [Node.Commented.pairing.kind hab]
  have hparts := forall₂_flatMap hclauses fun _ _ _ hab => Node.Commented.pairing.proper hab
  have hall := forall₂_flatMap hparts fun _ _ _ hab => specifiersOfPart_eq hs hab
  rw [List.forall₂_eq_eq_eq] at hall
  exact hall.symm

namespace ExportFact

omit hs

/-- Exports that name the same. -/
theorem alike_of_eq {e e' : ExportFact} (hname : e'.name = e.name) (hlocal : e'.localName = e.localName)
    (hdefault : e'.isDefault = e.isDefault) (hsource : e'.source = e.source) :
    ExportFact.Alike (t.Recorded place t') e e' :=
  ⟨.inl hname, .inl hlocal, by rw [hlocal], hdefault, hsource⟩

/-- The names a declaration introduces; a name is blank in both sources or in neither. -/
theorem declaredNames_recorded (h : t.Corresponds place t' n n') :
    List.Forall₂ (fun u u' => t.Recorded place t' u u' ∧ (u' = [] ↔ u = [])) (declaredNames t.source n)
      (declaredNames t'.source n') := by
  unfold declaredNames
  rw [Node.Commented.pairing.isVariableDeclaration h]
  split
  · rw [List.filterMap_filter, List.filterMap_filter]
    refine forall₂_filterMap (Node.Commented.pairing.proper h) fun a _ b hab => ?_
    rw [Node.Commented.pairing.kind hab]
    split
    · have hname := SyntaxTree.Corresponds.child?_blank hab "name"
      generalize a.child? "name" = o at hname
      generalize b.child? "name" = o' at hname
      cases hname with
      | none => exact .none
      | some hc =>
        simp only [Node.Commented.pairing.kind hc.1]
        split
        · exact .some ⟨hc.1.recorded, hc.2⟩
        · exact .none
    · exact .none
  · have hname := h.child?_blank "name"
    generalize n.child? "name" = o at hname
    generalize n'.child? "name" = o' at hname
    cases hname with
    | none => exact .nil
    | some hc => exact .cons ⟨hc.1.recorded, hc.2⟩ .nil

include hs

theorem valueName_eq (h : t.Corresponds place t' n n') : valueName t'.source n' = valueName t.source n := by
  unfold valueName
  rw [Node.Commented.pairing.kind h]
  split
  · rename_i hkind
    exact h.text_eq_of_kind (by simp [hkind, Node.spelledKinds])
  case h_2 hkind | h_3 hkind | h_4 hkind =>
    rw [h.child?_text hs hkind (by decide)]
  · rfl

theorem child?_unquoted (h : t.Corresponds place t' n n') {k f : String} (hkind : n.kind = k)
    (hrole : (k, f) ∈ Node.wordRoles) :
    ((n'.child? f).map fun c => unquoted (c.text t'.source)) =
      (n.child? f).map fun c => unquoted (c.text t.source) := by
  have htexts := congrArg (Option.map unquoted) (h.child?_text hs hkind hrole)
  rw [Option.map_map, Option.map_map] at htexts
  exact htexts

theorem ofChild_alike (h : t.Corresponds place t' n n') (source : Text) (line line' : Int) :
    List.Forall₂ (ExportFact.Alike (t.Recorded place t')) (ofChild t.source source line n)
    (ofChild t'.source source line' n') := by
  have hproper := Node.Commented.pairing.proper h
  unfold ofChild
  rw [Node.Commented.pairing.kind h]
  split
  · rw [List.filterMap_filter, List.filterMap_filter]
    refine forall₂_filterMap hproper fun a _ b hab => ?_
    simp only [Node.Commented.pairing.kind hab]
    split
    · rename_i hkind
      have hname := SyntaxTree.Corresponds.child?_text hab hs (f := "name") (beq_iff_eq.1 hkind) (by decide)
      rw [child?_unquoted hs hab (f := "alias") (beq_iff_eq.1 hkind) (by decide)]
      generalize a.child? "name" = o at hname
      generalize b.child? "name" = o' at hname
      cases o <;> cases o' <;> simp at hname
      · exact .none
      · simp only [Option.map_some, hname]
        exact .some (alike_of_eq rfl rfl rfl rfl)
    · exact .none
  · rename_i hkind
    rw [List.forall₂_map_left_iff, List.forall₂_map_right_iff]
    have hmem : List.Forall₂ (fun a b => t.Corresponds place t' a b ∧ a ∈ n.proper) n.proper n'.proper := by
      have hw : Woven (fun _ => False) (t.Corresponds place t') n.proper n'.proper := .of_forall₂ hproper
      exact (hw.imp fun a ha b hab => ⟨hab, ha⟩).forall₂
    refine hmem.imp fun a b hab => ?_
    have htext := hab.1.text_eq (Node.isSpelled_of_namespace (h.spellsNames hs) hkind hab.2)
    exact alike_of_eq (congrArg unquoted htext) rfl rfl rfl
  · exact .nil

/-- What a statement exports, and from where. -/
theorem ofStatement_alike (h : t.Corresponds place t' n n') (hkind : n.kind = "export_statement") (line line' : Int) :
    List.Forall₂ (ExportFact.Alike (t.Recorded place t')) (ofStatement t.source line n)
    (ofStatement t'.source line' n') := by
  have hdecl := Node.Commented.pairing.child? h "declaration"
  have hvalue := Node.Commented.pairing.child? h "value"
  have hdefault : n.hasToken "default" = n'.hasToken "default" := Node.Commented.pairing.hasToken h (by decide)
  unfold ofStatement
  simp only [child?_unquoted hs h (f := "source") hkind (by decide), ← hdefault]
  generalize n.child? "declaration" = o at hdecl
  generalize n'.child? "declaration" = o' at hdecl
  generalize n.child? "value" = v at hvalue
  generalize n'.child? "value" = v' at hvalue
  cases hdecl with
  | some hd =>
    have hnames := declaredNames_recorded hd
    simp only
    split
    · -- a default export: the first name, if there is one
      generalize declaredNames t.source _ = names at hnames
      generalize declaredNames t'.source _ = names' at hnames
      cases hnames with
      | nil => exact .cons (alike_of_eq rfl rfl rfl rfl) .nil
      | cons hu _ => exact .cons ⟨.inl rfl, hu.1, hu.2, rfl, rfl⟩ .nil
    · rw [List.forall₂_map_left_iff, List.forall₂_map_right_iff]
      exact hnames.imp fun _ _ hu => ⟨hu.1, hu.1, hu.2, rfl, rfl⟩
  | none =>
    simp only
    cases hvalue with
    | some hv => exact .cons (alike_of_eq rfl (valueName_eq hs hv) rfl rfl) .nil
    | none =>
      simp only
      have hlisted := forall₂_flatMap (Node.Commented.pairing.proper h) fun a _ b hab =>
        ofChild_alike hs hab (((n.child? "source").map fun s => unquoted (s.text t.source)).getD []) line line'
      have hempty := hlisted.length_eq
      generalize n.proper.flatMap _ = listed at hlisted hempty
      generalize n'.proper.flatMap _ = listed' at hlisted hempty
      have hsame : listed'.isEmpty = listed.isEmpty := by
        rw [Bool.eq_iff_iff, List.isEmpty_iff_length_eq_zero, List.isEmpty_iff_length_eq_zero, hempty]
      rw [hsame]
      split
      · exact .cons (alike_of_eq rfl rfl rfl rfl) .nil
      · exact hlisted

end ExportFact

end Modules

section Facts

variable (hs : ∀ n ∈ t.root.preorder, n.spellsNames = true) {m m' : Match} (hm : Match.Alike (t.Captures place t') m m')

include hs hm

theorem CallFact.ofMatch?_alike {g : Grammar} (hrun : m ∈ QueryKind.calls.run g t.root) :
    Option.Rel (fun x x' => x'.1 = place x.1 ∧
      CallFact.Alike (t.Recorded place t') (SameArgument place t t') x.2 x'.2) (ofMatch? t m) (ofMatch? t' m') := by
  unfold ofMatch?
  have hname := hm.get? "call.name"
  have hcall := hm.get? "call.expression"
  have hargs := hm.get? "call.arguments"
  have hspelled : ∀ d, m.get? "call.name" = some d → d.node.isSpelled = true := fun d hd =>
    Node.isSpelled_of_captured hs hrun (by rfl) hd
  generalize m.get? "call.name" = name at hname hspelled
  generalize m'.get? "call.name" = name' at hname
  generalize m.get? "call.expression" = call at hcall
  generalize m'.get? "call.expression" = call' at hcall
  generalize m.get? "call.arguments" = args at hargs
  generalize m'.get? "call.arguments" = args' at hargs
  cases hname with
  | none => exact .none
  | some hname =>
    cases hcall with
    | none => exact .none
    | some hcall =>
      refine .some ⟨hcall.start, SyntaxTree.Corresponds.text_eq hname.1.node (hspelled _ rfl), ⟨_, _, rfl, rfl, ?_⟩,
        contextOf_recorded hcall.1.ancestors⟩
      cases hargs with
      | none => exact .nil
      | some hargs =>
        simp only [Option.map_some, Option.getD_some]
        rw [List.forall₂_map_left_iff, List.forall₂_map_right_iff]
        exact (Node.Commented.pairing.proper hargs.1.node).imp fun _ _ ha => argumentName_same ha

theorem ImportFact.ofMatch?_alike {g : Grammar} (hrun : m ∈ QueryKind.imports.run g t.root) :
    Option.Rel (fun x x' => x'.1 = place x.1 ∧ ImportFact.Alike x.2 x'.2) (ofMatch? t m) (ofMatch? t' m') := by
  unfold ofMatch?
  have hstmt := hm.get? "import.statement"
  have hsource := hm.get? "import.source"
  have hspelled : ∀ d, m.get? "import.source" = some d → d.node.isSpelled = true := fun d hd =>
    Node.isSpelled_of_captured hs hrun (by rfl) hd
  generalize m.get? "import.statement" = stmt at hstmt
  generalize m'.get? "import.statement" = stmt' at hstmt
  generalize m.get? "import.source" = source at hsource hspelled
  generalize m'.get? "import.source" = source' at hsource
  cases hstmt with
  | none => exact .none
  | some hstmt =>
    cases hsource with
    | none => exact .none
    | some hsource =>
      have htext := SyntaxTree.Corresponds.text_eq hsource.1.node (hspelled _ rfl)
      exact .some ⟨hstmt.start, congrArg unquoted htext, congrArg some (specifiersOf_eq hs hstmt.1.node)⟩

theorem ExportFact.ofMatch_alike {g : Grammar} (hrun : m ∈ QueryKind.imports.run g t.root) :
    List.Forall₂ (fun x x' => x'.1 = place x.1 ∧ ExportFact.Alike (t.Recorded place t') x.2 x'.2) (ofMatch t m)
      (ofMatch t' m') := by
  unfold ofMatch
  have hstmt := hm.get? "export.statement"
  have hkind : ∀ d, m.get? "export.statement" = some d → d.node.kind = "export_statement" := fun d hd =>
    Match.kind_of_get? hrun (by rfl) hd
  generalize m.get? "export.statement" = stmt at hstmt hkind
  generalize m'.get? "export.statement" = stmt' at hstmt
  cases hstmt with
  | none => exact .nil
  | some hstmt =>
    simp only
    rw [List.forall₂_map_left_iff, List.forall₂_map_right_iff]
    exact (ofStatement_alike hs hstmt.1.node (hkind _ rfl) _ _).imp fun _ _ he => ⟨hstmt.start, he⟩

theorem SymbolFact.ofMatch?_alike {g : Grammar} (hrun : m ∈ QueryKind.symbols.run g t.root) :
    Option.Rel (fun x x' => x'.1 = place x.1 ∧ SymbolFact.Alike (t.Recorded place t') x.2 x'.2) (ofMatch? t m)
      (ofMatch? t' m') := by
  unfold ofMatch?
  have hasks : (categories.all fun category => (QueryKind.symbols.patterns g).all fun p =>
      p.label != category ++ ".name" && p.parts.all fun part =>
        part.2 != category ++ ".name" || Node.asksForWord p.kind part.1) = true := by
    unfold QueryKind.patterns
    cases g.isTyped <;> decide +kernel
  have hsame : List.Forall₂ (fun a b => a = b ∧ a ∈ categories) categories categories :=
    List.forall₂_same.2 fun a ha => ⟨rfl, ha⟩
  refine forall₂_findSome? hsame ?_
  rintro category - _ ⟨rfl, hcategory⟩
  have hname := hm.get? (category ++ ".name")
  have hdecl := hm.get? (category ++ ".declaration")
  have hspelled : ∀ d, m.get? (category ++ ".name") = some d → d.node.isSpelled = true := fun d hd =>
    Node.isSpelled_of_captured hs hrun (List.all_eq_true.1 hasks category hcategory) hd
  generalize m.get? (category ++ ".name") = name at hname hspelled
  generalize m'.get? (category ++ ".name") = name' at hname
  generalize m.get? (category ++ ".declaration") = decl at hdecl
  generalize m'.get? (category ++ ".declaration") = decl' at hdecl
  cases hname with
  | none => exact .none
  | some hname =>
    cases hdecl with
    | none => exact .none
    | some hdecl =>
      have htext := SyntaxTree.Corresponds.text_eq hname.1.node (hspelled _ rfl)
      exact .some ⟨hdecl.start, ofDeclaration_alike hdecl hs category htext⟩

end Facts

/-! ## Marks -/

namespace FileFacts

variable {R : Text → Text → Prop} {es es' : List ExportFact} {ss ss' : List SymbolFact}

theorem markExported_eq (es : List ExportFact) (ss : List SymbolFact) :
    markExported es ss = ss.map fun s => { s with exported := (exportedNames es).contains s.name || s.exported } := by
  unfold markExported
  refine List.map_congr_left fun s _ => ?_
  cases (exportedNames es).contains s.name
  · simp
  · simp

theorem exportedNames_recorded (h : List.Forall₂ (ExportFact.Alike R) es es') :
    List.Forall₂ R (exportedNames es) (exportedNames es') := by
  unfold exportedNames
  rw [List.forall₂_map_left_iff, List.forall₂_map_right_iff]
  refine (forall₂_filter h fun e _ e' he => ?_).imp fun _ _ he => he.localName
  have hunnamed : e'.localName.isEmpty = e.localName.isEmpty := by
    rw [Bool.eq_iff_iff, List.isEmpty_iff, List.isEmpty_iff]
    exact he.unnamed
  rw [he.source, hunnamed]

theorem markExported_alike (he : List.Forall₂ (ExportFact.Alike R) es es')
    (hs : List.Forall₂ (SymbolFact.Alike R) ss ss') :
    List.Forall₂ (SymbolFact.Alike R) (markExported es ss) (markExported es' ss') := by
  rw [markExported_eq, markExported_eq, List.forall₂_map_left_iff, List.forall₂_map_right_iff]
  refine hs.imp fun s s' hss => { hss with exported := fun hkept => ?_ }
  -- a name that is recorded alike is among the exported names of both files or of neither
  have hmarked : (exportedNames es').contains s'.name = (exportedNames es).contains s.name := by
    rw [List.contains_eq_any_beq, List.contains_eq_any_beq, hss.name]
    refine (any_eq_of_forall₂ (exportedNames_recorded he) fun u _ u' hu => ?_).symm
    rw [Bool.eq_iff_iff, beq_iff_eq, beq_iff_eq]
    constructor
    · rintro rfl
      exact (hkept u' (.inl hu)).symm
    · rintro rfl
      exact (hkept u (.inr hu)).symm
  rw [hmarked, hss.exported hkept]

end FileFacts

/-! ## Files -/

section Files

variable (hplace : StrictMono place) (h : Node.Commented (Node.Kept place t.source t'.source) t.root t'.root)

include hplace h

theorem SyntaxTree.run_alike (q : QueryKind) (g : Grammar) :
    List.Forall₂ (Match.Alike (t.Captures place t')) (q.run g t.root) (q.run g t'.root) :=
  QueryKind.run_alike hplace (fun _ _ hk hp => hk.2.start hp) (corresponds_root h) q g

variable (hs : ∀ n ∈ t.root.preorder, n.spellsNames = true) (g : Grammar)

include hs

theorem SymbolFact.extract_alike : List.Forall₂ (SymbolFact.Alike (t.Recorded place t')) (extract g t) (extract g t') :=
  forall₂_inDocumentOrder hplace (forall₂_filterMap (SyntaxTree.run_alike hplace h .symbols g) fun _ hrun _ hm =>
    ofMatch?_alike hs hm hrun)

theorem ImportFact.extract_alike : List.Forall₂ ImportFact.Alike (extract g t) (extract g t') :=
  forall₂_inDocumentOrder hplace (forall₂_filterMap (SyntaxTree.run_alike hplace h .imports g) fun _ hrun _ hm =>
    ofMatch?_alike hs hm hrun)

theorem ExportFact.extract_alike : List.Forall₂ (ExportFact.Alike (t.Recorded place t')) (extract g t) (extract g t') :=
  forall₂_inDocumentOrder hplace (forall₂_flatMap (SyntaxTree.run_alike hplace h .imports g) fun _ hrun _ hm =>
    ofMatch_alike hs hm hrun)

theorem CallFact.extract_alike :
    List.Forall₂ (CallFact.Alike (t.Recorded place t') (SameArgument place t t')) (extract g t) (extract g t') :=
  forall₂_inDocumentOrder hplace (forall₂_filterMap (SyntaxTree.run_alike hplace h .calls g) fun _ hrun _ hm =>
    ofMatch?_alike hs hm hrun)

/-- Comments put into a file change nothing that is recorded of it, but lines, texts they were put into and the
descriptions of arguments in parentheses they were put first in. -/
theorem FileFacts.ofTree_ignores_comments (path : Text) :
    FileFacts.Alike (t.Recorded place t') (CallFact.SameArgument place t t') (ofTree path g t) (ofTree path g t') where
  path := rfl
  language := rfl
  symbols := markExported_alike (ExportFact.extract_alike hplace h hs g) (SymbolFact.extract_alike hplace h hs g)
  imports := ImportFact.extract_alike hplace h hs g
  exports := ExportFact.extract_alike hplace h hs g
  calls := CallFact.extract_alike hplace h hs g

end Files

/-! ## A comment after an argument and one before it -/

/-- The file `f((x));` with some nodes in the inner parentheses; the statement ends at `stop`. -/
def callTree (source : Text) (stop : Nat) (inner : List Node) : SyntaxTree :=
  ⟨source, .named "program" none 0 stop
    [.named "expression_statement" none 0 stop
      [.named "call_expression" none 0 (stop - 1)
        [.named "identifier" (some "function") 0 1 [],
         .named "arguments" (some "arguments") 1 (stop - 1)
          [.token "(" 1 2,
           .named "parenthesized_expression" none 2 (stop - 2)
           ([.token "(" 2 3] ++ inner ++ [.token ")" (stop - 3) (stop - 2)]),
           .token ")" (stop - 2) (stop - 1)]],
       .token ";" (stop - 1) stop]]⟩

def bareCall : SyntaxTree := callTree "f((x));" 7 [.named "identifier" none 3 4 []]

def trailingCall : SyntaxTree := callTree "f((x /* c */));" 15 [.named "identifier" none 3 4 [], .comment 5 12]

def leadingCall : SyntaxTree := callTree "f((/* c */ x));" 15 [.comment 3 10, .named "identifier" none 11 12 []]

/-- Where an offset moves if some bytes are put in at another. -/
def shifted (offset length o : Nat) : Nat := if o < offset then o else o + length

theorem strictMono_shifted (offset length : Nat) : StrictMono (shifted offset length) := by
  intro a b hab
  unfold shifted
  split <;> split <;> omega

theorem trailingCall_commented :
    Node.Commented (Node.Kept (shifted 4 8) bareCall.source trailingCall.source) bareCall.root trailingCall.root := by
  refine .mk rfl ?_ ?_
  repeat' first
    | exact Woven.nil
    | refine Woven.keep (Node.Commented.mk rfl ?_ ?_) ?_
    | refine Woven.stray ⟨rfl, rfl, rfl, rfl, rfl⟩ ?_
  all_goals
    constructor <;> decide +kernel

theorem leadingCall_commented :
    Node.Commented (Node.Kept (shifted 3 8) bareCall.source leadingCall.source) bareCall.root leadingCall.root := by
  refine .mk rfl ?_ ?_
  repeat' first
    | exact Woven.nil
    | refine Woven.keep (Node.Commented.mk rfl ?_ ?_) ?_
    | refine Woven.stray ⟨rfl, rfl, rfl, rfl, rfl⟩ ?_
  all_goals
    constructor <;> decide +kernel

theorem bareCall_spellsNames : ∀ n ∈ bareCall.root.preorder, n.spellsNames = true := by decide +kernel

/-- After the argument, a comment changes nothing. -/
theorem trailingCall_alike :
    bareCall.root.hasFault = false ∧ (FileFacts.ofTree "p.js" .javascript bareCall).calls ≠ [] ∧
      FileFacts.Alike (bareCall.Recorded (shifted 4 8) trailingCall)
        (CallFact.SameArgument (shifted 4 8) bareCall trailingCall) (FileFacts.ofTree "p.js" .javascript bareCall)
        (FileFacts.ofTree "p.js" .javascript trailingCall) :=
  ⟨by decide +kernel, by decide +kernel,
    FileFacts.ofTree_ignores_comments (strictMono_shifted 4 8) trailingCall_commented bareCall_spellsNames
    .javascript "p.js"⟩

/-- Before the argument it is taken for the argument, so comments are not always invisible. -/
theorem leadingCall_not_alike :
    ¬ ∀ (place : Nat → Nat) (t t' : SyntaxTree) (path : Text) (g : Grammar), StrictMono place →
      Node.Commented (Node.Kept place t.source t'.source) t.root t'.root →
      (∀ n ∈ t.root.preorder, n.spellsNames = true) → t.root.hasFault = false → t'.root.hasFault = false →
      FileFacts.Alike (t.Recorded place t') (t.Recorded place t') (FileFacts.ofTree path g t)
      (FileFacts.ofTree path g t') := by
  intro hall
  have halike := (hall (shifted 3 8) bareCall leadingCall "p.js" .javascript (strictMono_shifted 3 8)
    leadingCall_commented
    bareCall_spellsNames (by decide +kernel) (by decide +kernel)).calls
  have hbare : (FileFacts.ofTree "p.js" .javascript bareCall).calls =
    [⟨"f", some [Text.ofString "x"], "global", 1, 1⟩] := by
    decide +kernel
  have hleading : (FileFacts.ofTree "p.js" .javascript leadingCall).calls =
      [⟨"f", some [Text.ofString "Comment"], "global", 1, 1⟩] := by
    decide +kernel
  rw [hbare, hleading] at halike
  cases halike with
  | cons hcall _ =>
    obtain ⟨_, _, hold, hnew, hargs⟩ := hcall.arguments
    cases hold
    cases hnew
    cases hargs with
    | cons hrecorded _ =>
      rcases hrecorded with hsame | ⟨n, n', h, -, -, htext⟩
      · exact absurd hsame (by decide)
      · -- nothing in the file reads so
        have hnone : ∀ n ∈ leadingCall.root.preorder, Text.ofString "Comment" ≠ n.text leadingCall.source := by
          decide +kernel
        exact hnone n' h.kept.1.2 htext

end DocAtlas
