/-
Trees that fit their source: every node lies inside its parent, the children of a node follow each
other, and words are leaves. In such a tree two places lie one below the other or their ranges are
apart, so a nonempty node that begins inside another lies below it.
-/
import DocAtlas.Proofs.Tree.Descent

namespace DocAtlas

/-- The children of the node lie inside it, one after the other. -/
structure Node.Laid (n : Node) : Prop where
  range : n.start ≤ n.stop
  inside : ∀ c ∈ n.children, n.start ≤ c.start ∧ c.stop ≤ n.stop
  ordered : n.children.Pairwise fun a b => a.stop ≤ b.start

/-- Identifiers, comments and the property of a member expression are leaves. -/
structure Node.Worded (n : Node) : Prop where
  leaf : n.shape = .identifier ∨ n.shape = .comment → n.children = []
  property : n.shape = .member → ∀ p, n.child? "property" = some p → p.children = []

/-- What a tree of a source is known to satisfy. -/
structure SyntaxTree.Fits (t : SyntaxTree) : Prop where
  laid : ∀ n ∈ t.root.preorder, n.Laid
  worded : ∀ n ∈ t.root.preorder, n.Worded
  within : t.root.stop ≤ t.source.length

instance (n : Node) : Decidable n.Laid :=
  decidable_of_iff (n.start ≤ n.stop ∧ (∀ c ∈ n.children, n.start ≤ c.start ∧ c.stop ≤ n.stop) ∧
    n.children.Pairwise fun a b => a.stop ≤ b.start) ⟨fun h => ⟨h.1, h.2.1, h.2.2⟩, fun h => ⟨h.1, h.2, h.3⟩⟩

theorem Node.worded_iff (n : Node) : n.Worded ↔
    (n.shape = .identifier ∨ n.shape = .comment → n.children.isEmpty = true) ∧
      (n.shape = .member → (n.child? "property").all fun p => p.children.isEmpty) := by
  simp only [List.isEmpty_iff, Option.all_eq_true]
  exact ⟨fun h => ⟨h.leaf, h.property⟩, fun h => ⟨h.1, h.2⟩⟩

instance (n : Node) : Decidable n.Worded := decidable_of_iff _ n.worded_iff.symm

instance (t : SyntaxTree) : Decidable t.Fits :=
  decidable_of_iff ((∀ n ∈ t.root.preorder, n.Laid) ∧ (∀ n ∈ t.root.preorder, n.Worded) ∧ t.root.stop ≤ t.source.length)
    ⟨fun h => ⟨h.1, h.2.1, h.2.2⟩, fun h => ⟨h.1, h.2, h.3⟩⟩

theorem Node.text_eq_nil {n : Node} (h : n.start = n.stop) (src : Text) : n.text src = [] := by
  unfold Node.text
  split
  · rfl
  · unfold Text.slice
    rw [h]
    exact List.drop_eq_nil_of_le (List.length_take_le ..)

namespace Cursor

theorem mem_preorder_of_contains {root : Node} {c : Cursor} (h : (ofRoot root).Contains c) :
    c.node ∈ root.preorder := by
  induction h with
  | refl => rw [Node.preorder_eq]; exact List.mem_cons_self ..
  | tail _ hd ih => exact Node.mem_preorder_of_child ih (node_mem_of_child hd)

/-- A place below another is reached by its path. -/
theorem contains_of_path {r a b : Cursor} (ha : r.Contains a) (hb : r.Contains b) (h : a.path <:+ b.path) :
    a.Contains b := by
  obtain ⟨n, above⟩ := r
  induction n using Node.ind generalizing above with
  | h n ih =>
    rcases Relation.ReflTransGen.cases_head ha with rfl | ⟨e₁, he₁, ha⟩
    · exact hb
    · rcases Relation.ReflTransGen.cases_head hb with rfl | ⟨e₂, he₂, hb⟩
      · exact absurd h (not_suffix_of_child he₁ ha)
      · have heq : e₁ = e₂ := eq_of_path_suffix he₁ he₂ ((Contains.path ha).trans h) (Contains.path hb)
        subst heq
        exact ih e₁.node (node_mem_of_child he₁) e₁.above ha hb

section Laid

variable {root : Node} (hl : ∀ n ∈ root.preorder, n.Laid)

include hl

theorem range_of_contains {c d : Cursor} (hc : (ofRoot root).Contains c) (h : c.Contains d) :
    c.node.start ≤ d.node.start ∧ d.node.stop ≤ c.node.stop := by
  induction h with
  | refl => exact ⟨le_rfl, le_rfl⟩
  | @tail e d he hd ih =>
    have := (hl e.node (mem_preorder_of_contains (hc.trans he))).inside d.node (node_mem_of_child hd)
    omega

/-- Places of which none contains the other have ranges apart. -/
theorem range_of_apart {r a b : Cursor} (hr : (ofRoot root).Contains r) (ha : r.Contains a) (hb : r.Contains b)
    (h : Apart a b) : a.node.stop ≤ b.node.start ∨ b.node.stop ≤ a.node.start := by
  obtain ⟨n, above⟩ := r
  induction n using Node.ind generalizing above with
  | h n ih =>
    rcases Relation.ReflTransGen.cases_head ha with rfl | ⟨e₁, he₁, ha⟩
    · exact absurd (Contains.path hb) h.1
    · rcases Relation.ReflTransGen.cases_head hb with rfl | ⟨e₂, he₂, hb⟩
      · exact absurd ((contains_of_child he₁).trans ha).path h.2
      · by_cases heq : e₁ = e₂
        · subst heq
          exact ih e₁.node (node_mem_of_child he₁) e₁.above (hr.trans (contains_of_child he₁)) ha hb
        · -- below different children: these follow each other
          have hord : (Cursor.mk n above).children.Pairwise fun x y =>
              x.node.stop ≤ y.node.start ∨ y.node.stop ≤ x.node.start := by
            have := (hl n (mem_preorder_of_contains hr)).ordered
            rw [show n.children = (Cursor.mk n above).children.map Cursor.node from
              (map_node_children ⟨n, above⟩).symm, List.pairwise_map] at this
            exact this.imp fun h => .inl h
          have h1 := range_of_contains hl (hr.trans (contains_of_child he₁)) ha
          have h2 := range_of_contains hl (hr.trans (contains_of_child he₂)) hb
          have : Std.Symm fun x y : Cursor => x.node.stop ≤ y.node.start ∨ y.node.stop ≤ x.node.start :=
            ⟨fun _ _ hxy => hxy.symm⟩
          have h3 := hord.forall he₁ he₂ heq
          omega

/-- A nonempty node that begins inside another is above or below it. -/
theorem contains_of_start {e a : Cursor} (he : (ofRoot root).Contains e) (ha : (ofRoot root).Contains a)
    (hne : a.node.start < a.node.stop) (h1 : e.node.start ≤ a.node.start) (h2 : a.node.start < e.node.stop) :
    a.Contains e ∨ e.Contains a := by
  by_cases hap : Apart a e
  · rcases range_of_apart hl (.refl _) ha he hap with h | h <;> omega
  · unfold Apart at hap
    rw [not_and_or, not_not, not_not] at hap
    exact hap.imp (contains_of_path ha he) (contains_of_path he ha)

end Laid

end Cursor

end DocAtlas
