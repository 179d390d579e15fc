/-
Trees with comments put in. `Node.Commented P n n'` says that `n'` is the node `n` with comments among
the children of nodes in it; `P` is what is asked of every node and what has become of it besides. The
places of the two trees correspond if their nodes do and the nodes above and before them do.

Corresponding places are a pairing that goes along with parents, and no place is left out: but for the
comments put in, the trees in document order correspond place by place.
-/
import DocAtlas.Proofs.Tree.Woven

namespace DocAtlas

variable {P : Node → Node → Prop}

/-! ## Nodes -/

/-- A comment. -/
def Node.comment (start stop : Nat) : Node := .mk ⟨"comment", none, start, stop, true, false, false, true⟩ []

/-- The second node is the first with comments put in. Where it lies in its source is left open. -/
inductive Node.Commented (P : Node → Node → Prop) : Node → Node → Prop where
  | mk {n n' : Node} : n'.info = { n.info with start := n'.start, stop := n'.stop } → P n n' →
      Woven IsStray (Node.Commented P) n.children n'.children → Node.Commented P n n'

namespace Node.Commented

variable {n n' : Node}

theorem info (h : Node.Commented P n n') : n'.info = { n.info with start := n'.start, stop := n'.stop } := by
  cases h with | mk hi _ _ => exact hi

theorem kept (h : Node.Commented P n n') : P n n' := by cases h with | mk _ hp _ => exact hp

theorem children (h : Node.Commented P n n') : Woven IsStray (Node.Commented P) n.children n'.children := by
  cases h with | mk _ _ hc => exact hc

theorem pairing : Node.Pairing (Node.Commented P) where
  kind h := by unfold kind; rw [h.info]
  field h := by rw [h.info]
  named h := by unfold isNamed; rw [h.info]
  error h := by rw [h.info]
  missing h := by rw [h.info]
  children := children

/-- Corresponding nodes are in the trees they were found in. -/
theorem located {r r' : Node} (hn : n ∈ r.preorder) (hn' : n' ∈ r'.preorder) (h : Node.Commented P n n') :
    Node.Commented (fun m m' => (m ∈ r.preorder ∧ m' ∈ r'.preorder) ∧ P m m') n n' := by
  induction n using Node.ind generalizing n' with
  | h n ih =>
    refine .mk h.info ⟨⟨hn, hn'⟩, h.kept⟩ (h.children.imp_of_mem fun c hc c' hc' hcc => ?_)
    exact ih c hc (mem_preorder_of_child hn hc) (mem_preorder_of_child hn' hc') hcc

end Node.Commented

/-! ## Places -/

/-- Corresponding steps of the ways to two places. -/
structure Frame.Commented (P : Node → Node → Prop) (f f' : Frame) : Prop where
  parent : Node.Commented P f.parent f'.parent
  before : Woven Node.IsStray (Node.Commented P) f.before f'.before

/-- The places correspond. -/
structure Cursor.Commented (P : Node → Node → Prop) (c c' : Cursor) : Prop where
  node : Node.Commented P c.node c'.node
  above : List.Forall₂ (Frame.Commented P) c.above c'.above

namespace Cursor.Commented

variable {c c' : Cursor}

theorem ofRoot {root root' : Node} (h : Node.Commented P root root') :
    Cursor.Commented P (.ofRoot root) (.ofRoot root') := ⟨h, .nil⟩

theorem woven_childrenFrom {parent parent' : Node} {above above' : List Frame} (hp : Node.Commented P parent parent')
    (ha : List.Forall₂ (Frame.Commented P) above above') {cs cs' : List Node}
    (h : Woven Node.IsStray (Node.Commented P) cs cs') : ∀ {before before' : List Node},
      Woven Node.IsStray (Node.Commented P) before before' →
        Woven (fun d => d.node.IsStray) (Cursor.Commented P) (childrenFrom parent above before cs)
          (childrenFrom parent' above' before' cs') := by
  induction h with
  | nil => exact fun _ => .nil
  | stray hb _ ih => exact fun hw => .stray hb (ih (.stray hb hw))
  | keep hab _ ih => exact fun hw => .keep ⟨hab, .cons ⟨hp, hw⟩ ha⟩ (ih (.keep hab hw))

theorem pairing : Cursor.Pairing (Cursor.Commented P) where
  info h := h.node.info
  children h := woven_childrenFrom h.node h.above h.node.children .nil

theorem parent? (h : Cursor.Commented P c c') : Option.Rel (Cursor.Commented P) c.parent? c'.parent? := by
  obtain ⟨n, above⟩ := c
  obtain ⟨n', above'⟩ := c'
  unfold Cursor.parent?
  cases h.above with
  | nil => exact .none
  | cons hf ha => exact .some ⟨hf.parent, ha⟩

theorem ancestors (h : Cursor.Commented P c c') : List.Forall₂ (Node.Commented P) c.ancestors c'.ancestors := by
  unfold Cursor.ancestors
  rw [List.forall₂_map_left_iff, List.forall₂_map_right_iff]
  exact h.above.imp fun _ _ hf => hf.parent

end Cursor.Commented

/-! ## Document order -/

namespace Cursor

theorem preorderEachAt_eq (parent : Node) (above : List Frame) : ∀ before cs,
    preorderEachAt parent before above cs = (childrenFrom parent above before cs).flatMap preorder
  | _, [] => by simp [preorderEachAt, childrenFrom]
  | before, c :: cs => by
    rw [preorderEachAt, childrenFrom, List.flatMap_cons, preorderEachAt_eq parent above (c :: before) cs]
    rfl

theorem preorder_eq (c : Cursor) : c.preorder = c :: c.children.flatMap preorder := by
  obtain ⟨⟨i, cs⟩, above⟩ := c
  rw [preorder, preorderAt, preorderEachAt_eq]
  rfl

theorem node_mem_preorder {c d : Cursor} (h : d ∈ c.preorder) : d.node ∈ c.node.preorder := by
  obtain ⟨n, above⟩ := c
  induction n using Node.ind generalizing above with
  | h n ih =>
    rw [preorder_eq] at h
    rcases List.mem_cons.1 h with rfl | h
    · exact n.mem_preorder_self
    · obtain ⟨e, he, hd⟩ := List.mem_flatMap.1 h
      have hchild := node_mem_of_child he
      exact Node.mem_preorder_of_below hchild (ih e.node hchild e.above hd)

/-- Corresponding places come in the same order in both trees, with comments put in besides. -/
theorem Commented.preorder {c c' : Cursor} (h : Cursor.Commented P c c') :
    Woven (fun d => d.node.IsStray) (Cursor.Commented P) c.preorder c'.preorder := by
  obtain ⟨n, above⟩ := c
  induction n using Node.ind generalizing above c' with
  | h n ih =>
    rw [preorder_eq, preorder_eq]
    refine .keep h ((Commented.pairing.children h).flatMap (fun b hb d hd => ?_) fun a ha b hab => ?_)
    · -- below a comment there is nothing
      rw [preorder_eq, children, hb.children] at hd
      rw [List.mem_singleton.1 hd]
      exact hb
    · exact ih a.node (node_mem_of_child ha) a.above hab

end Cursor

end DocAtlas
