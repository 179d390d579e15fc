/-
Texts of trees that differ by comments. A comment put into a node is part of its text, so what is recorded
of a node is its old text only if no comment was put below it; words are never touched. `Recorded` relates
what is recorded of a tree and of the tree with comments.
-/
import DocAtlas.Proofs.Tree.Matching

namespace DocAtlas

namespace Node

/-! ## Words -/

/-- The kinds of nodes that are always words. -/
def spelledKinds : List String := ["identifier", "property_identifier", "type_identifier", "undefined", "string"]

/-- Whether a node is a word: a leaf, or of a kind that always is one. A string is one word, whatever it has inside. -/
def isSpelled (n : Node) : Bool :=
  n.children.isEmpty || spelledKinds.contains n.kind

/-- Where the grammars ask for a word: the kind of a node and the role of the child. -/
def wordRoles : List (String × String) :=
  [("class_declaration", "name"), ("class", "name"), ("function_expression", "name"), ("function", "name"),
    ("lexical_declaration", "kind"), ("import_specifier", "name"), ("import_specifier", "alias"),
    ("export_specifier", "name"), ("export_specifier", "alias"), ("export_statement", "source")]

/-- Whether a node has words where the grammars ask for them. -/
def spellsNames (n : Node) : Bool :=
  (wordRoles.all fun p => n.kind != p.1 || n.children.all fun c => !c.hasField p.2 || c.isSpelled) &&
    (n.kind != "namespace_export" || n.proper.all isSpelled)

theorem isSpelled_of_role {n c : Node} (h : n.spellsNames = true) {f : String} (hrole : (n.kind, f) ∈ wordRoles)
    (hc : c ∈ n.children) (hf : c.hasField f = true) : c.isSpelled = true := by
  unfold spellsNames at h
  rw [Bool.and_eq_true, List.all_eq_true] at h
  have hrow := h.1 _ hrole
  rw [bne_self_eq_false, Bool.false_or, List.all_eq_true] at hrow
  simpa [hf] using hrow c hc

theorem isSpelled_of_namespace {n c : Node} (h : n.spellsNames = true) (hkind : n.kind = "namespace_export")
    (hc : c ∈ n.proper) : c.isSpelled = true := by
  unfold spellsNames at h
  rw [Bool.and_eq_true, hkind] at h
  exact List.all_eq_true.1 (by simpa using h.2) c hc

theorem isSpelled_of_kind {n : Node} (h : n.kind ∈ spelledKinds) :
    n.isSpelled = true := by
  unfold isSpelled
  rw [List.contains_iff_mem.2 h, Bool.or_true]

/-- Whether a part of a pattern asks for a word, by its kind or by the role it has in the node of the pattern. -/
def asksForWord (kind : String) (steps : List FieldStep) : Bool :=
  match steps with
  | [⟨f, none⟩] => wordRoles.contains (kind, f)
  | steps => steps.getLast?.any fun s => s.kind.any fun k => spelledKinds.contains k

/-- What is captured by parts that ask for words is a word. -/
theorem isSpelled_of_captured {q : QueryKind} {g : Grammar} {root : Node}
    (hs : ∀ n ∈ root.preorder, n.spellsNames = true) {m : Match} (hm : m ∈ q.run g root) {label : String}
    (hlabel : ((q.patterns g).all fun p => p.label != label && p.parts.all fun part =>
      part.2 != label || asksForWord p.kind part.1) = true) {d : Cursor} (hd : m.get? label = some d) :
    d.node.isSpelled = true := by
  obtain ⟨c, hc, p, hp, hkind, hcaptured⟩ := Match.captured hm hd
  have hchecked := List.all_eq_true.1 hlabel p hp
  rw [Bool.and_eq_true, List.all_eq_true] at hchecked
  rcases hcaptured with ⟨rfl, -⟩ | ⟨part, hpart, rfl, hfollow⟩
  · simp at hchecked
  · have hasks := hchecked.2 part hpart
    rw [bne_self_eq_false, Bool.false_or] at hasks
    unfold asksForWord at hasks
    split at hasks
    · -- one step to a child with a role
      rename_i f hsteps
      rw [hsteps] at hfollow
      have hchild : d ∈ c.children := List.mem_of_find?_eq_some hfollow
      have haccepts := FieldStep.accepts_of_follow (s := ⟨f, none⟩) rfl hfollow
      unfold FieldStep.accepts at haccepts
      rw [Bool.and_eq_true, Bool.and_eq_true] at haccepts
      have hnames := hs c.node (Cursor.node_mem_preorder hc)
      refine isSpelled_of_role hnames ?_ (Cursor.node_mem_of_child hchild) haccepts.1.1
      rw [hkind]
      exact List.contains_iff_mem.1 hasks
    · obtain ⟨s, hlast, hk⟩ := (Option.any_eq_true _ _).1 hasks
      obtain ⟨k, hsk, hmem⟩ := (Option.any_eq_true _ _).1 hk
      obtain ⟨f, o⟩ := s
      obtain rfl : o = some k := hsk
      refine isSpelled_of_kind ?_
      rw [FieldStep.kind_of_accepts (FieldStep.accepts_of_follow hlast hfollow)]
      exact List.contains_iff_mem.1 hmem

/-! ## Texts kept -/

/-- What two sources have in common at a node and at the node it has become. The nodes have moved by `place`, words
are spelled as before, and so is all that no comment was put into. A comment makes nothing blank, or out of nothing
something. The top of a tree may begin with a comment and be nothing else. -/
structure Kept (place : Nat → Nat) (src src' : Text) (n n' : Node) : Prop where
  start : n.isProgram = false → n'.start = place n.start
  spelled : n.isSpelled = true → n'.text src' = n.text src
  whole : n'.preorder.length ≤ n.preorder.length → n'.text src' = n.text src
  blank : n.isProgram = false → (n'.text src' = [] ↔ n.text src = [])

/-- A word is looked for among the proper children only, and comments are not words of the grammar. -/
theorem Pairing.hasToken {R : Node → Node → Prop} (h : Pairing R) {n n' : Node} (hn : R n n') {token : String}
    (htoken : token ≠ "comment") : n.hasToken token = n'.hasToken token := by
  unfold Node.hasToken
  refine (h.children hn).any (fun b hb => ?_) fun a _ b hab => ?_
  · rw [beq_iff_eq.1 hb.comment, beq_eq_false_iff_ne.2 (Ne.symm htoken), Bool.and_false]
  · rw [h.named hab, h.kind hab]

end Node

namespace SyntaxTree

variable (place : Nat → Nat) (t t' : SyntaxTree)

/-- The second node is, in the tree with comments, what the first is in the tree without. -/
abbrev Corresponds : Node → Node → Prop :=
  Node.Commented fun n n' => (n ∈ t.root.preorder ∧ n' ∈ t'.root.preorder) ∧ n.Kept place t.source t'.source n'

/-- A text recorded of both trees: it is the same, or the text of a node that a comment was put into. -/
def Recorded (u u' : Text) : Prop :=
  u' = u ∨ ∃ n n', Corresponds place t t' n n' ∧ n.preorder.length < n'.preorder.length ∧
    u = n.text t.source ∧ u' = n'.text t'.source

variable {place t t'}

theorem corresponds_root (h : Node.Commented (Node.Kept place t.source t'.source) t.root t'.root) :
    Corresponds place t t' t.root t'.root :=
  h.located (Node.mem_preorder_self _) (Node.mem_preorder_self _)

namespace Corresponds

variable {n n' : Node} (h : Corresponds place t t' n n')

include h

theorem recorded : Recorded place t t' (n.text t.source) (n'.text t'.source) := by
  by_cases hwhole : n'.preorder.length ≤ n.preorder.length
  · exact .inl (h.kept.2.whole hwhole)
  · exact .inr ⟨n, n', h, by omega, rfl, rfl⟩

theorem text_eq (hs : n.isSpelled = true) : n'.text t'.source = n.text t.source := h.kept.2.spelled hs

theorem text_eq_of_kind (hk : n.kind ∈ Node.spelledKinds) :
    n'.text t'.source = n.text t.source := h.text_eq (Node.isSpelled_of_kind hk)

theorem spellsNames (hs : ∀ n ∈ t.root.preorder, n.spellsNames = true) : n.spellsNames = true := hs n h.kept.1.1

/-- A child with a role is blank in both sources or in neither. -/
theorem blank {f : String} (hf : n.hasField f = true) : n'.text t'.source = [] ↔ n.text t.source = [] :=
  h.kept.2.blank (Node.isProgram_of_hasField hf)

theorem child?_recorded (f : String) : Option.Rel (Recorded place t t') ((n.child? f).map fun c => c.text t.source)
    ((n'.child? f).map fun c => c.text t'.source) :=
  rel_map (Node.Commented.pairing.child? h f) fun _ _ _ hab => recorded hab

theorem child?_blank (f : String) : Option.Rel (fun c c' => Corresponds place t t' c c' ∧
    (c'.text t'.source = [] ↔ c.text t.source = [])) (n.child? f) (n'.child? f) :=
  rel_imp (Node.Commented.pairing.child?_spec h f) fun _ _ _ hc => ⟨hc.1, blank hc.1 hc.2.2⟩

/-- A child with a role that the grammars fill with words. -/
theorem child?_text (hs : ∀ m ∈ t.root.preorder, m.spellsNames = true) {k f : String} (hkind : n.kind = k)
    (hrole : (k, f) ∈ Node.wordRoles) :
    ((n'.child? f).map fun c => c.text t'.source) = (n.child? f).map fun c => c.text t.source := by
  subst hkind
  have hrel := Node.Commented.pairing.child?_spec h f
  generalize n.child? f = o at hrel
  generalize n'.child? f = o' at hrel
  cases hrel with
  | none => rfl
  | some hc => exact congrArg some (text_eq hc.1 (Node.isSpelled_of_role (h.spellsNames hs) hrole hc.2.1 hc.2.2))

end Corresponds

end SyntaxTree

end DocAtlas
