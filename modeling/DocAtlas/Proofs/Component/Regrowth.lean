/-
The tree of a source after its blocks are inserted. `Regrown` says what it is: the tree as it was, every
node moved by the bytes inserted before it, with a comment for each block directly before the block's
anchor. This is all that is assumed of the grammar.

A node with no anchor strictly inside keeps its text. That holds of leaves and of everything inside a
component. `Matched` pairs the places of both trees; it is a pairing, it goes along with parents, and
before a matched place stand the comments that stood there and its blocks.
-/
import DocAtlas.Proofs.Component.Placement
import DocAtlas.Proofs.Tree.Woven

namespace DocAtlas.Survey

variable (s : Survey)

/-! ## The tree of the result -/

/-- The comment that a block is, without the newline and the indentation after it. -/
def commentFor (info : ComponentInfo) (offset : Nat) : Text :=
  Doc.indent (lineIndent s.src offset) (Doc.render (factsOf info) s.options.stamp)

/-- The node of the comment of the placement `p`, which is the `k`-th. -/
def commentNode (p : Placement) (k : Nat) : Node :=
  let start := Insertion.landing s.insertions k p.insertion
  .mk ⟨"comment", none, start, start + (s.commentFor p.info p.anchor.node.start).length, true, false, false, true⟩ []

/-- The comments directly above a place, for the blocks that go there. -/
def commentsAbove (c : Cursor) : List Node :=
  s.placements.zipIdx.filterMap fun (p, k) => if p.anchor.path = c.path then some (s.commentNode p k) else none

/-- Whether a place lies strictly below another. -/
def IsBelow (a c : Cursor) : Prop := c.path <:+ a.path ∧ c.path ≠ a.path

instance (a c : Cursor) : Decidable (IsBelow a c) := inferInstanceAs (Decidable (_ ∧ _))

/-- The number of bytes inserted before a node: the blocks up to its beginning, except those that go
inside it. -/
def bytesBefore (c : Cursor) : Nat :=
  ((s.placements.filter fun p => p.insertion.offset.toNat ≤ c.node.start ∧ ¬ IsBelow p.anchor c).map fun p =>
    p.insertion.text.length).sum

/-- The node `n'` is the node at a place, moved by what is inserted before its ends. An empty node
stays empty. -/
structure Moved (c : Cursor) (n' : Node) : Prop where
  info : n'.info = { c.node.info with start := n'.start, stop := n'.stop }
  start : c.node.start < c.node.stop → n'.start = c.node.start + s.bytesBefore c
  stop : c.node.start < c.node.stop → n'.stop = c.node.stop + Insertion.shift s.insertions c.node.stop
  empty : c.node.stop ≤ c.node.start → n'.start = n'.stop

mutual

/-- `n'` is what the node has become. -/
def RegrownAt (above : List Frame) : Node → Node → Prop
  | .mk i cs, n' => s.Moved ⟨.mk i cs, above⟩ n' ∧ RegrownEach (.mk i cs) [] above cs n'.children

/-- `cs'` is what the children of `parent` after the siblings `before` have become. -/
def RegrownEach (parent : Node) (before : List Node) (above : List Frame) : List Node → List Node → Prop
  | [], cs' => cs' = []
  | c :: cs, cs' => ∃ c' rest, cs' = s.commentsAbove ⟨c, ⟨parent, before⟩ :: above⟩ ++ c' :: rest ∧
      RegrownAt (⟨parent, before⟩ :: above) c c' ∧ RegrownEach parent (c :: before) above cs rest

end

/-- `root'` is the tree after the blocks are inserted. -/
def Regrown (root' : Node) : Prop :=
  s.commentsAbove (Cursor.ofRoot s.tree.root) = [] ∧ s.RegrownAt [] s.tree.root root'

mutual

/-- The node at its new place, with the comments of the blocks among what is below it. -/
def regrowAt (above : List Frame) : Node → Node
  | .mk i cs =>
    let start := i.start + s.bytesBefore ⟨.mk i cs, above⟩
    let stop := if i.start < i.stop then i.stop + Insertion.shift s.insertions i.stop else start
    .mk { i with start, stop } (regrowEach (.mk i cs) [] above cs)

def regrowEach (parent : Node) (before : List Node) (above : List Frame) : List Node → List Node
  | [] => []
  | c :: cs => s.commentsAbove ⟨c, ⟨parent, before⟩ :: above⟩ ++
      regrowAt (⟨parent, before⟩ :: above) c :: regrowEach parent (c :: before) above cs

end

/-- The tree of the survey after the blocks are inserted. -/
def regrow : Node := s.regrowAt [] s.tree.root

mutual

theorem regrownAt_regrowAt (above : List Frame) : ∀ n, s.RegrownAt above n (s.regrowAt above n)
  | .mk i cs => by
    rw [RegrownAt, regrowAt]
    refine ⟨⟨rfl, fun _ => rfl, fun h => if_pos h, fun h => ?_⟩, regrownEach_regrowEach (.mk i cs) [] above cs⟩
    exact (if_neg (Nat.not_lt.2 h)).symm

theorem regrownEach_regrowEach (parent : Node) (before : List Node) (above : List Frame) :
    ∀ cs, s.RegrownEach parent before above cs (s.regrowEach parent before above cs)
  | [] => by rw [RegrownEach, regrowEach]
  | c :: cs => by
    rw [RegrownEach, regrowEach]
    exact ⟨_, _, rfl, regrownAt_regrowAt _ c, regrownEach_regrowEach parent (c :: before) above cs⟩

end

/-- There is such a tree unless a block goes above the root. -/
theorem regrown_regrow (h : s.commentsAbove (Cursor.ofRoot s.tree.root) = []) : s.Regrown s.regrow :=
  ⟨h, s.regrownAt_regrowAt [] s.tree.root⟩

theorem regrownAt_iff (c : Cursor) (n' : Node) : s.RegrownAt c.above c.node n' ↔
    s.Moved c n' ∧ s.RegrownEach c.node [] c.above c.node.children n'.children := by
  obtain ⟨⟨i, cs⟩, above⟩ := c
  rw [RegrownAt]
  rfl

theorem isStray_commentNode (p : Placement) (k : Nat) : (s.commentNode p k).IsStray :=
  ⟨rfl, rfl, rfl, rfl, rfl⟩

theorem mem_commentsAbove {c : Cursor} {n : Node} : n ∈ s.commentsAbove c ↔
    ∃ p k, s.placements[k]? = some p ∧ p.anchor.path = c.path ∧ s.commentNode p k = n := by
  unfold commentsAbove
  simp only [List.mem_filterMap, Prod.exists, List.mem_zipIdx_iff_getElem?, Option.ite_none_right_eq_some,
    Option.some.injEq]

theorem isStray_of_mem_commentsAbove {c : Cursor} {n : Node} (h : n ∈ s.commentsAbove c) : n.IsStray := by
  obtain ⟨p, k, -, -, rfl⟩ := s.mem_commentsAbove.1 h
  exact s.isStray_commentNode p k

/-! ## Texts -/

/-- The source with the blocks inserted. -/
def result : Text := Insertion.weave s.insertions s.src

/-- A node with no anchor strictly inside it is moved by all that is inserted up to its beginning. -/
theorem bytesBefore_eq {c : Cursor} (hc : (Cursor.ofRoot s.tree.root).Contains c)
    (hno : ∀ p ∈ s.placements, c.Contains p.anchor → c = p.anchor) :
    s.bytesBefore c = Insertion.shift s.insertions (c.node.start + 1) := by
  unfold bytesBefore Insertion.shift
  rw [← s.map_insertion_placements, List.filter_map, List.map_map]
  congr 2
  refine List.filter_congr fun p hp => ?_
  have hbelow : ¬ IsBelow p.anchor c := by
    rintro ⟨hsuf, hne⟩
    exact hne (congrArg Cursor.path (hno p hp (Cursor.contains_of_path hc (s.placed hp).anchor hsuf)))
  simp only [Function.comp_apply, hbelow, not_false_eq_true, and_true, decide_eq_decide]
  omega

/-- What is inserted before a node is inserted before its end. -/
theorem bytesBefore_le {c : Cursor} (hne : c.node.start < c.node.stop) :
    s.bytesBefore c ≤ Insertion.shift s.insertions c.node.stop := by
  unfold bytesBefore Insertion.shift
  rw [← s.map_insertion_placements, List.filter_map, List.map_map]
  refine ((List.monotone_filter_right s.placements fun p hp => ?_).map _).sum_le_sum fun _ _ => Nat.zero_le _
  simp only [Function.comp_apply, decide_eq_true_eq] at hp ⊢
  omega

variable (hl : ∀ n ∈ s.tree.root.preorder, n.Laid) (hend : s.tree.root.stop ≤ s.src.length)

include hl hend

theorem stop_le_length {c : Cursor} (hc : (Cursor.ofRoot s.tree.root).Contains c) : c.node.stop ≤ s.src.length :=
  (Cursor.range_of_contains hl (.refl _) hc).2.trans hend

/-- A node with no anchor strictly inside it keeps its text. -/
theorem text_regrown {c : Cursor} {n' : Node} (hc : (Cursor.ofRoot s.tree.root).Contains c) (hm : s.Moved c n')
    (hno : ∀ p ∈ s.placements, c.Contains p.anchor → c = p.anchor) : n'.text s.result = c.node.text s.src := by
  have hrange := (hl c.node (Cursor.mem_preorder_of_contains hc)).range
  have hstop := s.stop_le_length hl hend hc
  rcases hrange.lt_or_eq with hlt | heq
  · have hinside : ∀ i ∈ s.insertions, ¬ (c.node.start < i.offset.toNat ∧ i.offset.toNat < c.node.stop) := by
      intro i hi ⟨h1, h2⟩
      rw [← s.map_insertion_placements] at hi
      obtain ⟨p, hp, rfl⟩ := List.mem_map.1 hi
      have hplaced := s.placed hp
      rw [s.offset_of_placed hplaced] at h1 h2
      -- the anchor begins inside the node, so it lies below it
      rcases Cursor.contains_of_start hl hc hplaced.anchor hplaced.nonempty h1.le h2 with h | h
      · have := (Cursor.range_of_contains hl hplaced.anchor h).1
        omega
      · rw [← hno p hp h] at h1
        omega
    have hlen : n'.stop ≤ s.result.length := by
      have h1 := Insertion.shift_mono s.insertions (show c.node.stop ≤ s.src.length + 1 by omega)
      unfold result
      rw [Insertion.length_weave, hm.stop hlt]
      omega
    unfold Node.text
    rw [if_neg (by omega), if_neg (by omega), hm.start hlt, hm.stop hlt, s.bytesBefore_eq hc hno]
    exact Insertion.slice_kept hlt hstop hinside
  · rw [Node.text_eq_nil heq, Node.text_eq_nil (hm.empty heq.ge)]

omit hl hend

/-! ## Matched places -/

/-- A sibling and what has become of it. -/
def RegrownSibling (b b' : Node) : Prop := ∃ e, (Cursor.ofRoot s.tree.root).Contains e ∧ e.node = b ∧ s.Moved e b'

/-- The places of the tree with their places in the tree of the result. -/
inductive Matched (root' : Node) : Cursor → Cursor → Prop where
  | root : s.Regrown root' → Matched root' (Cursor.ofRoot s.tree.root) (Cursor.ofRoot root')
  | child {c c' d d' : Cursor} : Matched root' c c' → d ∈ c.children → d' ∈ c'.children →
      s.RegrownAt d.above d.node d'.node → (s.commentsAbove d).reverse <+: d'.before →
        Woven Node.IsStray s.RegrownSibling d.before d'.before → Matched root' d d'

end DocAtlas.Survey

namespace DocAtlas.Survey.Matched

variable {s : Survey} {root' : Node} {c c' : Cursor}

theorem contains (h : s.Matched root' c c') : (Cursor.ofRoot s.tree.root).Contains c := by
  induction h with
  | root _ => exact .refl _
  | child _ hd _ _ _ _ ih => exact ih.trans (Cursor.contains_of_child hd)

theorem regrown (h : s.Matched root' c c') : s.RegrownAt c.above c.node c'.node := by
  cases h with
  | root h => exact h.2
  | child _ _ _ hr _ _ => exact hr

theorem moved (h : s.Matched root' c c') : s.Moved c c'.node := ((s.regrownAt_iff c c'.node).1 h.regrown).1

theorem parent? (h : s.Matched root' c c') : Option.Rel (s.Matched root') c.parent? c'.parent? := by
  cases h with
  | root _ => exact .none
  | child hp hd hd' _ _ _ =>
    rw [Cursor.parent?_of_child hd, Cursor.parent?_of_child hd']
    exact .some hp

/-- The comments for the blocks of a place stand directly before it. -/
theorem comments_before (h : s.Matched root' c c') : (s.commentsAbove c).reverse <+: c'.before := by
  cases h with
  | root h => rw [h.1]; exact List.nil_prefix
  | child _ _ _ _ hb _ => exact hb

/-- What stood before a place stands before it, among comments. -/
theorem woven_before (h : s.Matched root' c c') : Woven Node.IsStray s.RegrownSibling c.before c'.before := by
  cases h with
  | root _ => exact .nil
  | child _ _ _ _ _ hw => exact hw

/-- The children from some sibling on. -/
theorem woven_childrenFrom (h : s.Matched root' c c') : ∀ cs cs' before before',
    s.RegrownEach c.node before c.above cs cs' →
      (∀ d ∈ Cursor.childrenFrom c.node c.above before cs, d ∈ c.children) →
        (∀ d ∈ Cursor.childrenFrom c'.node c'.above before' cs', d ∈ c'.children) →
          Woven Node.IsStray s.RegrownSibling before before' →
            Woven (fun d => d.node.IsStray) (s.Matched root') (Cursor.childrenFrom c.node c.above before cs)
              (Cursor.childrenFrom c'.node c'.above before' cs')
  | [], cs', before, before', hr, _, _, _ => by
    rw [RegrownEach] at hr
    subst hr
    exact .nil
  | x :: cs, cs', before, before', hr, hin, hin', hw => by
    rw [RegrownEach] at hr
    obtain ⟨x', rest, rfl, hx, hrest⟩ := hr
    set d : Cursor := ⟨x, ⟨c.node, before⟩ :: c.above⟩ with hd
    -- first the comments above the sibling, then what it has become, then its later siblings
    have hstray : ∀ b ∈ s.commentsAbove d, b.IsStray := fun b hb => s.isStray_of_mem_commentsAbove hb
    rw [Cursor.childrenFrom_append] at hin' ⊢
    have hbefore : Woven Node.IsStray s.RegrownSibling before ((s.commentsAbove d).reverse ++ before') :=
      hw.strays fun b hb => hstray b (List.mem_reverse.1 hb)
    have hdc : d ∈ c.children := hin d (List.mem_cons_self ..)
    have hmoved : s.Moved d x' := ((s.regrownAt_iff d x').1 hx).1
    refine Woven.strays (fun b hb => ?_) (.keep ?_ ?_)
    · refine hstray b.node ?_
      rw [← Cursor.map_node_childrenFrom c'.node c'.above before' (s.commentsAbove d)]
      exact List.mem_map_of_mem hb
    · exact .child h hdc (hin' _ (List.mem_append_right _ (List.mem_cons_self ..))) hx (List.prefix_append _ _) hbefore
    · refine woven_childrenFrom h cs rest _ _ hrest (fun e he => hin e (List.mem_cons_of_mem _ he))
        (fun e he => hin' e (List.mem_append_right _ (List.mem_cons_of_mem _ he))) (.keep ?_ hbefore)
      exact ⟨d, h.contains.trans (Cursor.contains_of_child hdc), rfl, hmoved⟩

/-- Matched places are paired. -/
theorem pairing : Cursor.Pairing (s.Matched root') where
  info h := h.moved.info
  children h := h.woven_childrenFrom _ _ _ _ ((s.regrownAt_iff _ _).1 h.regrown).2 (fun _ hd => hd)
    (fun _ hd => hd) .nil

end DocAtlas.Survey.Matched
