/-
Going down a tree with cursors: the children of a cursor are those of its node with their places,
a cursor contains what lies at or below it, and the path of a cursor (the numbers of siblings before
each step, the last step first) tells the places of a tree apart.

The walks of this library go down through named nodes and stop at some of them. `frontier` lists
where such a walk stops. It holds exactly the stops that are reached through nodes that are none,
and no two of them lie one below the other.
-/
import DocAtlas.Proofs.Tree.Nodes

namespace DocAtlas

namespace Cursor

/-! ## Children -/

@[simp] theorem map_node_childrenFrom (parent : Node) (above : List Frame) :
    ∀ before cs, (childrenFrom parent above before cs).map Cursor.node = cs
  | _, [] => rfl
  | before, c :: cs => by
    rw [childrenFrom, List.map_cons, map_node_childrenFrom parent above (c :: before) cs]

@[simp] theorem map_node_children (c : Cursor) : c.children.map Cursor.node = c.node.children :=
  map_node_childrenFrom _ _ _ _

theorem childrenFrom_append (parent : Node) (above : List Frame) : ∀ before cs ds,
    childrenFrom parent above before (cs ++ ds) =
      childrenFrom parent above before cs ++ childrenFrom parent above (cs.reverse ++ before) ds
  | _, [], _ => rfl
  | before, c :: cs, ds => by
    rw [List.cons_append, childrenFrom, childrenFrom, childrenFrom_append parent above (c :: before) cs ds]
    simp

theorem above_of_mem_childrenFrom {parent : Node} {above : List Frame} {d : Cursor} :
    ∀ {before cs}, d ∈ childrenFrom parent above before cs → ∃ left, d.above = ⟨parent, left⟩ :: above
  | before, c :: cs, h => by
    rcases List.mem_cons.1 h with rfl | h
    · exact ⟨before, rfl⟩
    · exact above_of_mem_childrenFrom h

theorem above_of_child {c d : Cursor} (h : d ∈ c.children) : ∃ left, d.above = ⟨c.node, left⟩ :: c.above :=
  above_of_mem_childrenFrom h

theorem node_mem_of_child {c d : Cursor} (h : d ∈ c.children) : d.node ∈ c.node.children := by
  rw [← map_node_children]; exact List.mem_map_of_mem h

theorem parent?_of_child {c d : Cursor} (h : d ∈ c.children) : d.parent? = some c := by
  obtain ⟨left, he⟩ := above_of_child h
  simp [parent?, he]

theorem child?_mem {c d : Cursor} {f : String} (h : c.child? f = some d) : d ∈ c.children :=
  List.mem_of_find?_eq_some h

theorem hasField_of_child? {c d : Cursor} {f : String} (h : c.child? f = some d) : d.node.hasField f = true := by
  have := List.find?_some h
  exact this

theorem firstProper?_mem {c d : Cursor} (h : c.firstProper? = some d) : d ∈ c.children :=
  List.mem_of_find?_eq_some h

@[simp] theorem map_node_child? (c : Cursor) (f : String) : (c.child? f).map Cursor.node = c.node.child? f := by
  unfold child? Node.child?
  rw [← map_node_children, List.find?_map]; rfl

@[simp] theorem map_node_firstProper? (c : Cursor) : c.firstProper?.map Cursor.node = c.node.firstProper? := by
  unfold firstProper? Node.firstProper?
  rw [← map_node_children, List.find?_map]; rfl

/-! ## Containment -/

/-- `c.Contains d`: the place `d` is `c` or lies below it. -/
def Contains : Cursor → Cursor → Prop := Relation.ReflTransGen fun c d => d ∈ c.children

theorem Contains.refl (c : Cursor) : c.Contains c := Relation.ReflTransGen.refl

theorem Contains.trans {a b c : Cursor} (h₁ : a.Contains b) (h₂ : b.Contains c) : a.Contains c :=
  Relation.ReflTransGen.trans h₁ h₂

theorem contains_of_child {c d : Cursor} (h : d ∈ c.children) : c.Contains d := Relation.ReflTransGen.single h

/-- A place of a tree that has a parent is a child of it. -/
theorem child_of_parent? {root : Node} {c p : Cursor} (hc : (ofRoot root).Contains c) (h : c.parent? = some p) :
    c ∈ p.children ∧ (ofRoot root).Contains p := by
  rcases Relation.ReflTransGen.cases_tail hc with rfl | ⟨e, he, hce⟩
  · cases h
  · rw [parent?_of_child hce] at h
    cases h
    exact ⟨hce, he⟩

/-- Nothing lies below a leaf. -/
theorem eq_of_contains_leaf {c d : Cursor} (h : c.Contains d) (hc : c.node.children = []) : c = d := by
  rcases Relation.ReflTransGen.cases_head h with rfl | ⟨e, he, -⟩
  · rfl
  · have := node_mem_of_child he
    rw [hc] at this
    cases this

theorem ancestors_of_child {c d : Cursor} (h : d ∈ c.children) : d.ancestors = c.node :: c.ancestors := by
  obtain ⟨left, he⟩ := above_of_child h
  simp [ancestors, he]

/-- The node of a cursor stands above all that lies below its children. -/
theorem mem_ancestors_of_child {c d e : Cursor} (hd : d ∈ c.children) (h : d.Contains e) : c.node ∈ e.ancestors := by
  induction h with
  | refl => rw [ancestors_of_child hd]; exact List.mem_cons_self ..
  | tail _ hs ih => rw [ancestors_of_child hs]; exact List.mem_cons_of_mem _ ih

/-- The place reached by the children of these numbers, one below the other. -/
def down? (c : Cursor) : List Nat → Option Cursor
  | [] => some c
  | i :: is => c.children[i]?.bind fun d => d.down? is

theorem contains_of_down? {c d : Cursor} {is : List Nat} (h : c.down? is = some d) : c.Contains d := by
  induction is generalizing c with
  | nil => cases h; exact .refl _
  | cons i is ih =>
    obtain ⟨e, he, hd⟩ := Option.bind_eq_some_iff.1 h
    exact (contains_of_child (List.mem_of_getElem? he)).trans (ih hd)

/-! ## Parentheses -/

theorem stripFirstAt_eq (parent : Node) (above : List Frame) : ∀ before cs,
    stripFirstAt parent before above cs =
      ((childrenFrom parent above before cs).find? fun d => d.node.isProper).bind stripParens?
  | _, [] => by simp [stripFirstAt, childrenFrom]
  | before, c :: cs => by
    rw [stripFirstAt, childrenFrom, List.find?_cons]
    cases hc : c.isProper
    · simp only [Bool.false_eq_true, if_false]
      exact stripFirstAt_eq parent above (c :: before) cs
    · simp [stripParens?]

theorem stripParens?_eq (c : Cursor) :
    c.stripParens? = if c.node.shape = .parenthesized then c.firstProper?.bind stripParens? else some c := by
  obtain ⟨⟨i, cs⟩, above⟩ := c
  rw [stripParens?, stripParensAt, stripFirstAt_eq]
  simp only [beq_iff_eq]
  rfl

theorem map_node_stripParens? (c : Cursor) : c.stripParens?.map Cursor.node = c.node.stripParens? := by
  obtain ⟨n, above⟩ := c
  induction n using Node.ind generalizing above with
  | h n ih =>
    rw [stripParens?_eq, Node.stripParens?_eq]
    split
    · rw [← map_node_firstProper?, Option.map_bind, Option.bind_map]
      cases hf : (Cursor.mk n above).firstProper? with
      | none => rfl
      | some d => exact ih d.node (node_mem_of_child (firstProper?_mem hf)) d.above
    · rfl

theorem contains_of_stripParens? {c d : Cursor} (h : c.stripParens? = some d) : c.Contains d := by
  obtain ⟨n, above⟩ := c
  induction n using Node.ind generalizing above with
  | h n ih =>
    rw [stripParens?_eq] at h
    split at h
    · obtain ⟨e, he, hd⟩ := Option.bind_eq_some_iff.1 h
      have hm := firstProper?_mem he
      exact (contains_of_child hm).trans (ih e.node (node_mem_of_child hm) e.above hd)
    · cases h; exact .refl _

/-! ## Paths -/

/-- The numbers of siblings before each step of the way from the root, the last step first. -/
def path (c : Cursor) : List Nat := c.above.map fun f => f.before.length

theorem path_of_child {c d : Cursor} (h : d ∈ c.children) : ∃ i, d.path = i :: c.path := by
  obtain ⟨left, he⟩ := above_of_child h
  exact ⟨left.length, by simp [path, he]⟩

theorem Contains.path {c d : Cursor} (h : c.Contains d) : c.path <:+ d.path := by
  induction h with
  | refl => exact List.suffix_refl _
  | tail _ hd ih =>
    obtain ⟨i, hi⟩ := path_of_child hd
    rw [hi]
    exact ih.trans (List.suffix_cons _ _)

/-- Neither place contains the other. -/
def Apart (a b : Cursor) : Prop := ¬ a.path <:+ b.path ∧ ¬ b.path <:+ a.path

theorem Apart.of_siblings {a b x y : Cursor} (hl : a.path.length = b.path.length) (hne : a.path ≠ b.path)
    (hx : a.path <:+ x.path) (hy : b.path <:+ y.path) : Apart x y := by
  have key : ∀ p, a.path <:+ p → b.path <:+ p → False := fun p ha hb =>
    hne ((List.suffix_of_suffix_length_le ha hb hl.le).eq_of_length hl)
  exact ⟨fun h => key _ (hx.trans h) hy, fun h => key _ hx (hy.trans h)⟩

theorem map_path_childrenFrom (parent : Node) (above : List Frame) : ∀ before cs,
    (childrenFrom parent above before cs).map path =
      (List.range' before.length cs.length).map fun i => i :: path ⟨parent, above⟩
  | _, [] => rfl
  | before, c :: cs => by
    rw [childrenFrom, List.map_cons, map_path_childrenFrom parent above (c :: before) cs]
    rfl

theorem nodup_path_children (c : Cursor) : (c.children.map path).Nodup := by
  unfold children
  rw [map_path_childrenFrom]
  exact List.Nodup.map (fun i j h => (List.cons.inj h).1) List.nodup_range'

theorem length_path_children {c a b : Cursor} (ha : a ∈ c.children) (hb : b ∈ c.children) :
    a.path.length = b.path.length := by
  obtain ⟨i, hi⟩ := path_of_child ha
  obtain ⟨j, hj⟩ := path_of_child hb
  rw [hi, hj]; rfl

/-- The children of a node have different paths of one length. -/
theorem pairwise_children (c : Cursor) :
    c.children.Pairwise fun a b => a.path.length = b.path.length ∧ a.path ≠ b.path :=
  (List.pairwise_map.1 c.nodup_path_children).imp_of_mem fun ha hb hne => ⟨length_path_children ha hb, hne⟩

/-- One child at most lies on the way to a place. -/
theorem eq_of_path_suffix {c a b : Cursor} {p : List Nat} (ha : a ∈ c.children) (hb : b ∈ c.children)
    (hap : a.path <:+ p) (hbp : b.path <:+ p) : a = b := by
  have hl := length_path_children ha hb
  have heq : a.path = b.path := (List.suffix_of_suffix_length_le hap hbp hl.le).eq_of_length hl
  exact List.inj_on_of_nodup_map c.nodup_path_children ha hb heq

/-- What lies below a place has a longer path. -/
theorem not_suffix_of_child {c e x : Cursor} (he : e ∈ c.children) (h : e.Contains x) : ¬ x.path <:+ c.path := by
  intro hx
  obtain ⟨i, hi⟩ := path_of_child he
  have h1 := h.path.length_le
  have h2 := hx.length_le
  rw [hi] at h1
  simp at h1
  omega

/-- Within a tree a path belongs to one place. -/
theorem eq_of_path {a c d : Cursor} (hc : a.Contains c) (hd : a.Contains d) (h : c.path = d.path) : c = d := by
  obtain ⟨n, above⟩ := a
  induction n using Node.ind generalizing above with
  | h n ih =>
    -- the ways to both places begin with the same child, or both are the place itself
    rcases Relation.ReflTransGen.cases_head hc with rfl | ⟨e₁, he₁, hc⟩ <;>
      rcases Relation.ReflTransGen.cases_head hd with rfl | ⟨e₂, he₂, hd⟩
    · rfl
    · exact absurd (h ▸ List.suffix_refl _) (not_suffix_of_child he₂ hd)
    · exact absurd (h ▸ List.suffix_refl _) (not_suffix_of_child he₁ hc)
    · have heq : e₁ = e₂ := eq_of_path_suffix he₁ he₂ (h ▸ Contains.path hc) (Contains.path hd)
      subst heq
      exact ih e₁.node (node_mem_of_child he₁) e₁.above hc hd

theorem Contains.antisymm {a b : Cursor} (h₁ : a.Contains b) (h₂ : b.Contains a) : a = b :=
  eq_of_path (.refl a) h₁ (h₁.path.eq_of_length_le h₂.path.length_le)

/-! ## Walks that stop -/

mutual

/-- Where a walk through named nodes stops. -/
def frontierAt (stop : Cursor → Bool) (above : List Frame) : Node → List Cursor
  | .mk i cs =>
    if stop ⟨.mk i cs, above⟩ then [⟨.mk i cs, above⟩] else frontierEach stop (.mk i cs) [] above cs

/-- Where the walks from the named children of `parent` after the siblings `before` stop. -/
def frontierEach (stop : Cursor → Bool) (parent : Node) (before : List Node) (above : List Frame) :
    List Node → List Cursor
  | [] => []
  | c :: cs =>
    (if c.isNamed then frontierAt stop (⟨parent, before⟩ :: above) c else []) ++
      frontierEach stop parent (c :: before) above cs

end

/-- Where a walk from a cursor stops. -/
def frontier (stop : Cursor → Bool) (c : Cursor) : List Cursor := frontierAt stop c.above c.node

/-- The children a walk goes on to. -/
def entered (c : Cursor) : List Cursor := c.children.filter fun d => d.node.isNamed

theorem mem_entered {c d : Cursor} : d ∈ c.entered ↔ d ∈ c.children ∧ d.node.isNamed = true := List.mem_filter

/-- A walk over the named nodes of a child list, as a walk over the children entered. -/
theorem flatMap_entered {α : Type} (f : Cursor → List α) (parent : Node) (above : List Frame) (before : List Node)
    (c : Node) (cs : List Node) :
    ((childrenFrom parent above before (c :: cs)).filter fun d => d.node.isNamed).flatMap f =
      (if c.isNamed then f ⟨c, ⟨parent, before⟩ :: above⟩ else []) ++
        ((childrenFrom parent above (c :: before) cs).filter fun d => d.node.isNamed).flatMap f := by
  rw [childrenFrom, List.filter_cons]
  cases hc : c.isNamed <;> simp

theorem flatMap_entered_eq {α : Type} (f : Cursor → List α) (c : Cursor) :
    c.entered.flatMap f = c.children.flatMap fun d => if d.node.isNamed then f d else [] := by
  unfold entered
  induction c.children with
  | nil => rfl
  | cons d ds ih =>
    rw [List.filter_cons, List.flatMap_cons, ← ih]
    cases d.node.isNamed <;> simp

theorem frontierEach_eq (stop : Cursor → Bool) (parent : Node) (above : List Frame) : ∀ before cs,
    frontierEach stop parent before above cs =
      ((childrenFrom parent above before cs).filter fun d => d.node.isNamed).flatMap (frontier stop)
  | _, [] => by simp [frontierEach, childrenFrom]
  | before, c :: cs => by
    rw [frontierEach, flatMap_entered, frontierEach_eq stop parent above (c :: before) cs]
    rfl

theorem frontier_eq (stop : Cursor → Bool) (c : Cursor) :
    c.frontier stop = if stop c then [c] else c.entered.flatMap (frontier stop) := by
  obtain ⟨⟨i, cs⟩, above⟩ := c
  rw [frontier, frontierAt, frontierEach_eq]
  rfl

/-- One step of a walk: from a node that is no stop to a named child. -/
def Enters (stop : Cursor → Bool) (c d : Cursor) : Prop := stop c = false ∧ d ∈ c.entered

theorem Enters.child {stop : Cursor → Bool} {c d : Cursor} (h : Enters stop c d) : d ∈ c.children :=
  (mem_entered.1 h.2).1

theorem contains_of_enters {stop : Cursor → Bool} {c d : Cursor} (h : Relation.ReflTransGen (Enters stop) c d) :
    c.Contains d := Relation.ReflTransGen.mono (fun _ _ => Enters.child) c d h

theorem parent_unique {c c' d : Cursor} (h : d ∈ c.children) (h' : d ∈ c'.children) : c = c' :=
  Option.some.inj ((parent?_of_child h).symm.trans (parent?_of_child h'))

theorem ne_of_child_contains {c d e : Cursor} (hd : d ∈ c.children) (h : d.Contains e) : c ≠ e := by
  rintro rfl
  obtain ⟨i, hi⟩ := path_of_child hd
  have := h.path.length_le
  rw [hi] at this
  simp at this

/-- `a.Leads stop c`: on the way from `a` down to `c` nothing stops, and all nodes after `a` are
named. -/
def Leads (stop : Cursor → Bool) (a c : Cursor) : Prop :=
  a.Contains c ∧ ∀ b, a.Contains b → b.Contains c → (b ≠ c → stop b = false) ∧ (b ≠ a → b.node.isNamed = true)

/-- A walk comes to the places that it is led to. -/
theorem leads_iff {stop : Cursor → Bool} {a c : Cursor} : a.Leads stop c ↔ Relation.ReflTransGen (Enters stop) a c := by
  constructor
  · rintro ⟨hc, h⟩
    -- by the last step: what holds of the places on the way to `c` holds on the way to its parent
    induction hc with
    | refl => exact .refl
    | @tail e c he hce ih =>
      have hstep : e.Contains c := contains_of_child hce
      refine .tail (ih fun b hab hbe => ?_) ⟨?_, mem_entered.2 ⟨hce, ?_⟩⟩
      · obtain ⟨h1, h2⟩ := h b hab (hbe.trans hstep)
        refine ⟨fun _ => h1 ?_, h2⟩
        rintro rfl
        exact ne_of_child_contains hce hbe rfl
      · exact (h e he hstep).1 (ne_of_child_contains hce (.refl c))
      · refine (h c (he.tail hce) (.refl c)).2 ?_
        rintro rfl
        exact ne_of_child_contains hce he rfl
  · intro h
    refine ⟨contains_of_enters h, ?_⟩
    induction h with
    | refl =>
      intro b hab hba
      have : b = a := eq_of_path hab (.refl a) (hba.path.eq_of_length_le hab.path.length_le)
      exact ⟨fun hne => absurd this hne, fun hne => absurd this hne⟩
    | @tail e c he hce ih =>
      intro b hab hbc
      -- a place on the way to `c` is `c` or on the way to the one node that `c` is a child of
      rcases Relation.ReflTransGen.cases_tail hbc with rfl | ⟨e', hbe, hc⟩
      · exact ⟨fun hne => absurd rfl hne, fun _ => (mem_entered.1 hce.2).2⟩
      · rw [parent_unique hc hce.child] at hbe
        obtain ⟨h1, h2⟩ := ih b hab hbe
        refine ⟨fun _ => ?_, h2⟩
        by_cases hb : b = e
        · rw [hb]; exact hce.1
        · exact h1 hb

/-- The frontier holds the stops that are reached through nodes that are none. -/
theorem mem_frontier {stop : Cursor → Bool} {c d : Cursor} :
    d ∈ c.frontier stop ↔ Relation.ReflTransGen (Enters stop) c d ∧ stop d = true := by
  obtain ⟨n, above⟩ := c
  induction n using Node.ind generalizing above with
  | h n ih =>
    rw [frontier_eq]
    split
    · rename_i hs
      constructor
      · intro h
        rw [List.mem_singleton] at h; subst h
        exact ⟨.refl, hs⟩
      · rintro ⟨h, -⟩
        rcases Relation.ReflTransGen.cases_head h with rfl | ⟨e, he, -⟩
        · exact List.mem_singleton_self _
        · rw [he.1] at hs; cases hs
    · rename_i hs
      rw [Bool.not_eq_true] at hs
      rw [List.mem_flatMap]
      constructor
      · rintro ⟨e, he, hd⟩
        have hm := node_mem_of_child (mem_entered.1 he).1
        obtain ⟨h, hst⟩ := (ih e.node hm e.above).1 hd
        exact ⟨.head ⟨hs, he⟩ h, hst⟩
      · rintro ⟨h, hst⟩
        rcases Relation.ReflTransGen.cases_head h with rfl | ⟨e, he, h⟩
        · rw [hs] at hst; cases hst
        · exact ⟨e, he.2, (ih e.node (node_mem_of_child he.child) e.above).2 ⟨h, hst⟩⟩

theorem path_of_mem_frontier {stop : Cursor → Bool} {c d : Cursor} (h : d ∈ c.frontier stop) : c.path <:+ d.path :=
  (contains_of_enters (mem_frontier.1 h).1).path

/-- Walks from different children of a node stop apart from each other. -/
theorem pairwise_entered (stop : Cursor → Bool) (c : Cursor) :
    c.entered.Pairwise fun a b => ∀ x ∈ a.frontier stop, ∀ y ∈ b.frontier stop, Apart x y := by
  refine (c.pairwise_children.filter _).imp fun ⟨hl, hne⟩ x hx y hy => ?_
  exact Apart.of_siblings hl hne (path_of_mem_frontier hx) (path_of_mem_frontier hy)

theorem pairwise_frontier (stop : Cursor → Bool) (c : Cursor) : (c.frontier stop).Pairwise Apart := by
  obtain ⟨n, above⟩ := c
  induction n using Node.ind generalizing above with
  | h n ih =>
    rw [frontier_eq]
    split
    · exact List.pairwise_singleton _ _
    · rw [List.pairwise_flatMap]
      refine ⟨fun e he => ?_, pairwise_entered stop _⟩
      exact ih e.node (node_mem_of_child (mem_entered.1 he).1) e.above

end Cursor

end DocAtlas
