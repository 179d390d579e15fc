/-
What the rest of the theory uses of syntax trees: induction over a node and its children, where the
children a node is asked for come from, and the searches that go down through parentheses and
operands as plain equations over those children.
-/
import DocAtlas.Component.Function
import DocAtlas.Component.Markup
import Mathlib.Tactic

namespace DocAtlas

namespace Node

/-- A named node without faults. -/
def named (kind : String) (field : Option String) (start stop : Nat) (children : List Node) : Node :=
  mk ⟨kind, field, start, stop, true, false, false, false⟩ children

/-- A word or sign of the grammar. -/
def token (kind : String) (start stop : Nat) : Node :=
  mk ⟨kind, none, start, stop, false, false, false, false⟩ []

/-! ## Induction -/

mutual

/-- To prove something of every node, prove it of a node whose children have it. -/
theorem ind {motive : Node → Prop} (h : ∀ n, (∀ c ∈ n.children, motive c) → motive n) : ∀ n, motive n
  | mk i cs => h (mk i cs) (indEach h cs)

theorem indEach {motive : Node → Prop} (h : ∀ n, (∀ c ∈ n.children, motive c) → motive n) :
    ∀ cs : List Node, ∀ c ∈ cs, motive c
  | [] => by simp
  | d :: cs => List.forall_mem_cons.2 ⟨ind h d, indEach h cs⟩

end

/-! ## Children -/

@[simp] theorem info_mk (i : NodeInfo) (cs : List Node) : (mk i cs).info = i := rfl

@[simp] theorem children_mk (i : NodeInfo) (cs : List Node) : (mk i cs).children = cs := rfl

theorem child?_mem {n c : Node} {f : String} (h : n.child? f = some c) : c ∈ n.children :=
  List.mem_of_find?_eq_some h

theorem firstProper?_mem {n c : Node} (h : n.firstProper? = some c) : c ∈ n.children :=
  List.mem_of_find?_eq_some h

theorem proper_mem {n c : Node} (h : c ∈ n.proper) : c ∈ n.children := (List.mem_filter.1 h).1

/-! ## Parentheses and operands -/

/-- What stops at the first node of some sort depends on the first node of that sort only. -/
theorem eq_of_first {α : Type} {p : Node → Bool} {s : List Node → α} {f : Option Node → α} (hnil : s [] = f none)
    (hcons : ∀ c cs, s (c :: cs) = if p c then f (some c) else s cs) (cs : List Node) : s cs = f (cs.find? p) := by
  induction cs with
  | nil => exact hnil
  | cons c cs ih =>
    rw [hcons, List.find?_cons]
    cases p c
    · exact ih
    · rfl

theorem stripFirst?_eq (cs : List Node) : stripFirst? cs = (cs.find? isProper).bind stripParens? :=
  eq_of_first (f := fun o => o.bind stripParens?) (by rw [stripFirst?]; rfl) (fun _ _ => by rw [stripFirst?]; rfl) cs

theorem stripParens?_eq (n : Node) :
    n.stripParens? = if n.shape = .parenthesized then n.firstProper?.bind stripParens? else some n := by
  cases n with
  | mk i cs =>
    rw [stripParens?, stripFirst?_eq]
    simp only [beq_iff_eq]
    rfl

theorem fieldIsMarkup_eq (f : String) (cs : List Node) : fieldIsMarkup f cs = (cs.find? (hasField f)).any isMarkup :=
  eq_of_first (f := fun o => o.any isMarkup) (by rw [fieldIsMarkup]; rfl) (fun _ _ => by rw [fieldIsMarkup]; rfl) cs

theorem anyIsMarkup_eq : ∀ cs : List Node, anyIsMarkup cs = (cs.filter isProper).any isMarkup
  | [] => by simp [anyIsMarkup]
  | c :: cs => by
    rw [anyIsMarkup, anyIsMarkup_eq cs, List.filter_cons]
    cases c.isProper <;> simp

theorem firstIsMarkup_eq (cs : List Node) : firstIsMarkup cs = (cs.find? isProper).any isMarkup :=
  eq_of_first (f := fun o => o.any isMarkup) (by rw [firstIsMarkup]; rfl) (fun _ _ => by rw [firstIsMarkup]; rfl) cs

/-- Markup-valued expressions in terms of the children a node is asked for. -/
theorem isMarkup_eq (n : Node) :
    n.isMarkup = match n.shape with
      | .jsx | .jsxText => true
      | .ternary => (n.child? "consequence").any isMarkup || (n.child? "alternative").any isMarkup
      | .binary => n.isLogical && ((n.child? "left").any isMarkup || (n.child? "right").any isMarkup)
      | .sequence => n.proper.any isMarkup
      | .parenthesized => n.firstProper?.any isMarkup
      | _ => false := by
  cases n with
  | mk i cs =>
    rw [isMarkup]
    simp only [fieldIsMarkup_eq, anyIsMarkup_eq, firstIsMarkup_eq]
    rfl

/-! ## Bindings and walks -/

theorem bindingField?_eq (f : String) (cs : List Node) :
    bindingField? f cs = (cs.find? (hasField f)).bind bindingPattern? :=
  eq_of_first (f := fun o => o.bind bindingPattern?) (by rw [bindingField?]; rfl) (fun _ _ => by
    rw [bindingField?]; rfl) cs

theorem bindingPattern?_eq (n : Node) :
    n.bindingPattern? =
      if n.kind == "required_parameter" || n.kind == "optional_parameter" then
        (n.child? "pattern").bind bindingPattern?
      else if n.kind == "assignment_pattern" then (n.child? "left").bind bindingPattern?
      else some n := by
  cases n with
  | mk i cs =>
    rw [bindingPattern?, bindingField?_eq, bindingField?_eq]
    rfl

theorem anyHasFault_eq : ∀ cs : List Node, anyHasFault cs = cs.any hasFault
  | [] => by simp [anyHasFault]
  | c :: cs => by rw [anyHasFault, anyHasFault_eq cs, List.any_cons]

theorem hasFault_eq (n : Node) : n.hasFault = (n.info.error || n.info.missing || n.children.any hasFault) := by
  cases n with
  | mk i cs => rw [hasFault, anyHasFault_eq]; rfl

theorem preorderEach_eq : ∀ cs : List Node, preorderEach cs = cs.flatMap preorder
  | [] => by simp [preorderEach]
  | c :: cs => by rw [preorderEach, preorderEach_eq cs, List.flatMap_cons]

theorem preorder_eq (n : Node) : n.preorder = n :: n.children.flatMap preorder := by
  cases n with
  | mk i cs => rw [preorder, preorderEach_eq]; rfl

theorem mem_preorder_self (n : Node) : n ∈ n.preorder := by
  rw [preorder_eq]
  exact List.mem_cons_self ..

theorem mem_preorder_of_below {n c d : Node} (hc : c ∈ n.children) (hd : d ∈ c.preorder) : d ∈ n.preorder := by
  rw [preorder_eq]
  exact List.mem_cons_of_mem _ (List.mem_flatMap.2 ⟨c, hc, hd⟩)

theorem mem_preorder_of_child {r n c : Node} (hn : n ∈ r.preorder) (hc : c ∈ n.children) : c ∈ r.preorder := by
  induction r using Node.ind with
  | h r ih =>
    rw [preorder_eq] at hn
    rcases List.mem_cons.1 hn with rfl | hn
    · exact mem_preorder_of_below hc c.mem_preorder_self
    · obtain ⟨d, hd, hn⟩ := List.mem_flatMap.1 hn
      exact mem_preorder_of_below hd (ih d hd hn)

theorem namedPreorderEach_eq : ∀ cs : List Node,
    namedPreorderEach cs = cs.flatMap fun c => if c.isNamed then c.namedPreorder else []
  | [] => by simp [namedPreorderEach]
  | c :: cs => by rw [namedPreorderEach, namedPreorderEach_eq cs, List.flatMap_cons]

theorem namedPreorder_eq (n : Node) :
    n.namedPreorder = n :: n.children.flatMap fun c => if c.isNamed then c.namedPreorder else [] := by
  cases n with
  | mk i cs => rw [namedPreorder, namedPreorderEach_eq]; rfl

end Node

end DocAtlas
