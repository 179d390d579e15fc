/-
What a component is, said by rules instead of by a search: the least relation under which a
function is a component if its body is a component's value, or if a return statement that can be
reached through if arms, loop blocks and switch clauses returns one. A value is markup or a wrapped
component, and a component is wrapped by a call to a wrapper around it or around a wrapped one.

The search of the classifier spends at most two of its steps per level of the tree, so the rules
and the search agree on every function whose tree is at most half as high as the bound of the
search; what the search accepts satisfies the rules whatever the height.
-/
import DocAtlas.Component.Classifier
import DocAtlas.Proofs.Tree.Nodes

namespace DocAtlas

namespace Node

/-! ## Markup and parentheses by rules -/

/-- An expression that can evaluate to markup. -/
inductive Markup : Node → Prop
  | element {n : Node} : n.shape = .jsx → Markup n
  | text {n : Node} : n.shape = .jsxText → Markup n
  | consequence {n e : Node} : n.shape = .ternary → n.child? "consequence" = some e → Markup e → Markup n
  | alternative {n e : Node} : n.shape = .ternary → n.child? "alternative" = some e → Markup e → Markup n
  | left {n e : Node} : n.shape = .binary → n.isLogical = true → n.child? "left" = some e → Markup e → Markup n
  | right {n e : Node} : n.shape = .binary → n.isLogical = true → n.child? "right" = some e → Markup e → Markup n
  | operand {n e : Node} : n.shape = .sequence → e ∈ n.proper → Markup e → Markup n
  | parens {n e : Node} : n.shape = .parenthesized → n.firstProper? = some e → Markup e → Markup n

/-- `e.Inside m`: what stands in the parentheses of `e`, if it has any, is `m`. -/
inductive Inside : Node → Node → Prop
  | bare {n : Node} : n.shape ≠ .parenthesized → Inside n n
  | parens {n e m : Node} : n.shape = .parenthesized → n.firstProper? = some e → Inside e m → Inside n m

theorem markup_of_isMarkup (n : Node) : n.isMarkup = true → n.Markup := by
  induction n using Node.ind with
  | h n ih =>
    intro hn
    rw [isMarkup_eq] at hn
    split at hn
    · rename_i hs; exact .element hs
    · rename_i hs; exact .text hs
    · rename_i hs
      rcases Bool.or_eq_true_iff.1 hn with hn | hn <;> obtain ⟨e, he, hm⟩ := (Option.any_eq_true _ _).1 hn
      · exact .consequence hs he (ih e (child?_mem he) hm)
      · exact .alternative hs he (ih e (child?_mem he) hm)
    · rename_i hs
      obtain ⟨hl, hn⟩ := Bool.and_eq_true_iff.1 hn
      rcases Bool.or_eq_true_iff.1 hn with hn | hn <;> obtain ⟨e, he, hm⟩ := (Option.any_eq_true _ _).1 hn
      · exact .left hs hl he (ih e (child?_mem he) hm)
      · exact .right hs hl he (ih e (child?_mem he) hm)
    · rename_i hs
      obtain ⟨e, he, hm⟩ := List.any_eq_true.1 hn
      exact .operand hs he (ih e (proper_mem he) hm)
    · rename_i hs
      obtain ⟨e, he, hm⟩ := (Option.any_eq_true _ _).1 hn
      exact .parens hs he (ih e (firstProper?_mem he) hm)
    · cases hn

theorem isMarkup_of_markup {n : Node} (h : n.Markup) : n.isMarkup = true := by
  induction h with
  | element hs => rw [isMarkup_eq, hs]
  | text hs => rw [isMarkup_eq, hs]
  | consequence hs he _ ih => rw [isMarkup_eq, hs]; simp [he, ih]
  | alternative hs he _ ih => rw [isMarkup_eq, hs]; simp [he, ih]
  | left hs hl he _ ih => rw [isMarkup_eq, hs]; simp [hl, he, ih]
  | right hs hl he _ ih => rw [isMarkup_eq, hs]; simp [hl, he, ih]
  | operand hs he _ ih => rw [isMarkup_eq, hs]; exact List.any_eq_true.2 ⟨_, he, ih⟩
  | parens hs he _ ih => rw [isMarkup_eq, hs]; simp [he, ih]

theorem isMarkup_iff {n : Node} : n.isMarkup = true ↔ n.Markup := ⟨markup_of_isMarkup n, isMarkup_of_markup⟩

theorem inside_of_stripParens? (n : Node) : ∀ m, n.stripParens? = some m → n.Inside m := by
  induction n using Node.ind with
  | h n ih =>
    intro m h
    rw [stripParens?_eq] at h
    split at h
    · rename_i hs
      obtain ⟨e, he, hm⟩ := Option.bind_eq_some_iff.1 h
      exact .parens hs he (ih e (firstProper?_mem he) m hm)
    · rename_i hs
      cases h
      exact .bare hs

theorem stripParens?_of_inside {n m : Node} (h : n.Inside m) : n.stripParens? = some m := by
  induction h with
  | bare hs => rw [stripParens?_eq, if_neg hs]
  | parens hs he _ ih => rw [stripParens?_eq, if_pos hs, he]; exact ih

theorem Inside.not_parenthesized {n m : Node} (h : n.Inside m) : m.shape ≠ .parenthesized := by
  induction h with
  | bare hs => exact hs
  | parens _ _ _ ih => exact ih

/-- `n.Below d m`: `m` is reached from `n` by `d` steps from a node to one of its children. -/
inductive Below (n : Node) : Nat → Node → Prop
  | self : Below n 0 n
  | child {d : Nat} {m c : Node} : Below n d m → c ∈ m.children → Below n (d + 1) c

/-- Every node below `n` is at most `h` steps from it. -/
def LowerThan (n : Node) (h : Nat) : Prop := ∀ d m, n.Below d m → d ≤ h

mutual

/-- The number of levels below a node. -/
def height : Node → Nat
  | mk _ cs => heightEach cs

/-- The number of levels of a list of nodes. -/
def heightEach : List Node → Nat
  | [] => 0
  | c :: cs => max (height c + 1) (heightEach cs)

end

theorem height_lt_heightEach {c : Node} : ∀ {cs : List Node}, c ∈ cs → c.height < heightEach cs
  | d :: cs, h => by
    rw [heightEach]
    rcases List.mem_cons.1 h with rfl | h
    · omega
    · have := height_lt_heightEach h; omega

theorem Below.le_height {n m : Node} {d : Nat} (h : n.Below d m) : d + m.height ≤ n.height := by
  induction h with
  | self => omega
  | @child d m c _ hc ih =>
    have : c.height < m.height := by
      cases m with
      | mk i cs => rw [height]; exact height_lt_heightEach hc
    omega

theorem lowerThan_of_height {n : Node} {h : Nat} (hn : n.height ≤ h) : n.LowerThan h := by
  intro d m hb
  have := hb.le_height
  omega

theorem Below.inside {n e m : Node} {d : Nat} (hb : n.Below d e) (h : e.Inside m) :
    ∃ d', d ≤ d' ∧ n.Below d' m := by
  induction h generalizing d with
  | bare _ => exact ⟨d, le_rfl, hb⟩
  | parens _ he _ ih =>
    obtain ⟨d', hd, hb'⟩ := ih (hb.child (firstProper?_mem he))
    exact ⟨d', by omega, hb'⟩

end Node

namespace Classifier

variable (k : Classifier)

/-! ## Components by rules -/

/-- `e` is, through parentheses, a call to a wrapper whose first argument is `arg`, through
parentheses again. -/
def Wraps (e arg : Node) : Prop :=
  ∃ call args first, e.Inside call ∧ call.shape = .call ∧ call.calleeName k.src ∈ k.wrappers ∧
    call.child? "arguments" = some args ∧ args.firstProper? = some first ∧ first.Inside arg

mutual

/-- A function is a component if its body is a value of a component, or a block that returns one. -/
inductive Component : Node → Prop
  | expression {n body : Node} : n.isFunction = true → n.child? "body" = some body → body.shape ≠ .block →
      Value body → Component n
  | block {n body s : Node} : n.isFunction = true → n.child? "body" = some body → body.shape = .block →
      s ∈ body.proper → Returns s → Component n

/-- A value of a component is markup or a wrapped component. -/
inductive Value : Node → Prop
  | markup {e : Node} : e.Markup → Value e
  | wrapped {e : Node} : Wrapped e → Value e

/-- A component is wrapped by a call around it or around a wrapped component. -/
inductive Wrapped : Node → Prop
  | function {e arg : Node} : k.Wraps e arg → arg.isFunction = true → Component arg → Wrapped e
  | call {e arg : Node} : k.Wraps e arg → Wrapped arg → Wrapped e

/-- A statement returns a value of a component itself or through the statements it holds. -/
inductive Returns : Node → Prop
  | value {s e : Node} : s.shape = .returnStmt → s.firstProper? = some e → Value e → Returns s
  | consequence {s arm : Node} : s.shape = .ifStmt → s.child? "consequence" = some arm → Arm arm → Returns s
  | alternative {s arm : Node} : s.shape = .ifStmt → s.child? "alternative" = some arm → Arm arm → Returns s
  | loop {s body t : Node} : s.shape = .loop → s.child? "body" = some body → body.shape = .block →
      t ∈ body.proper → Returns t → Returns s
  | clause {s body clause t : Node} : s.shape = .switch → s.child? "body" = some body → clause ∈ body.proper →
      t ∈ clause.proper → Returns t → Returns s

/-- An arm of an if is a block, a lone return, a nested if, or an else around one of those. -/
inductive Arm : Node → Prop
  | block {a t : Node} : a.shape = .block → t ∈ a.proper → Returns t → Arm a
  | elseClause {a b : Node} : a.shape = .elseClause → a.firstProper? = some b → Arm b → Arm a
  | lone {a : Node} : a.shape = .returnStmt → Returns a → Arm a
  | nested {a : Node} : a.shape = .ifStmt → Returns a → Arm a

end

theorem wraps_iff {e arg : Node} :
    k.Wraps e arg ↔ ∃ call, e.stripParens? = some call ∧ k.isWrapperCall call = true ∧
    firstArgument? call = some arg := by
  constructor
  · rintro ⟨call, args, first, he, hs, hc, ha, hf, hi⟩
    refine ⟨call, Node.stripParens?_of_inside he, ?_, ?_⟩
    · simp [isWrapperCall, hs, hc]
    · simp [firstArgument?, ha, hf, Node.stripParens?_of_inside hi]
  · rintro ⟨call, he, hw, ha⟩
    simp only [isWrapperCall, Bool.and_eq_true, beq_iff_eq, List.contains_iff_mem] at hw
    obtain ⟨first, hf, hi⟩ := Option.bind_eq_some_iff.1 ha
    obtain ⟨args, ha, hf⟩ := Option.bind_eq_some_iff.1 hf
    exact ⟨call, args, first, Node.inside_of_stripParens? e call he, hw.1, hw.2, ha, hf,
      Node.inside_of_stripParens? first arg hi⟩

theorem Wraps.below {k : Classifier} {top e arg : Node} {d : Nat} (h : k.Wraps e arg) (hb : top.Below d e) :
    ∃ d', d + 2 ≤ d' ∧ top.Below d' arg := by
  obtain ⟨call, args, first, he, -, -, ha, hf, hi⟩ := h
  obtain ⟨d₁, h₁, hb₁⟩ := hb.inside he
  obtain ⟨d₂, h₂, hb₂⟩ := ((hb₁.child (Node.child?_mem ha)).child (Node.firstProper?_mem hf)).inside hi
  exact ⟨d₂, by omega, hb₂⟩

/-- An argument that wraps one itself is a call: its parentheses are already gone. -/
theorem Wraps.shape_of_wraps {k : Classifier} {e arg b : Node} (hw : k.Wraps e arg) (h : k.Wraps arg b) :
    arg.shape = .call ∧ arg.isFunction = false := by
  obtain ⟨-, -, first, -, -, -, -, -, hi⟩ := hw
  obtain ⟨call, -, -, he, hs, -⟩ := h
  have hcall : arg.shape = .call := by
    cases he with
    | bare _ => exact hs
    | parens hp _ _ => exact absurd hp hi.not_parenthesized
  exact ⟨hcall, by simp [Node.isFunction, hcall, Shape.isFunction]⟩

theorem Wrapped.shape_of_wraps {k : Classifier} {e arg : Node} (hw : k.Wraps e arg) (h : k.Wrapped arg) :
    arg.shape = .call ∧ arg.isFunction = false := by
  cases h with
  | function hb _ _ => exact hw.shape_of_wraps hb
  | call hb _ => exact hw.shape_of_wraps hb

/-! ## One step of the search -/

theorem componentWithin_succ {fuel : Nat} {n : Node} :
    k.componentWithin (fuel + 1) n = true ↔ n.isFunction = true ∧ ∃ body, n.child? "body" = some body ∧
      ((body.shape ≠ .block ∧ (body.isMarkup = true ∨ k.wrappedWithin fuel body = true)) ∨
        (body.shape = .block ∧ ∃ s ∈ body.proper, k.returnsWithin fuel s = true)) := by
  rw [componentWithin, Node.functionParts?]
  cases hf : n.isFunction with
  | false => simp
  | true =>
    cases hb : n.child? "body" with
    | none => simp
    | some body => by_cases hs : body.shape = .block <;> simp [FunctionParts.hasExprBody, hs]

theorem wrappedWithin_succ {fuel : Nat} {e : Node} :
    k.wrappedWithin (fuel + 1) e = true ↔ ∃ arg, k.Wraps e arg ∧
      ((arg.isFunction = true ∧ k.componentWithin fuel arg = true) ∨
        (arg.isFunction = false ∧ arg.shape = .call ∧ k.wrappedWithin fuel arg = true)) := by
  simp only [wraps_iff]
  rw [wrappedWithin]
  cases he : e.stripParens? with
  | none => simp
  | some call =>
    cases hc : k.isWrapperCall call with
    | false => simp [hc]
    | true =>
      cases ha : firstArgument? call with
      | none => simp [ha]
      | some arg => cases hf : arg.isFunction <;> simp [hc, ha, hf]

theorem returnsWithin_succ {fuel : Nat} {s : Node} :
    k.returnsWithin (fuel + 1) s = true ↔
      (s.shape = .returnStmt ∧ ∃ e, s.firstProper? = some e ∧ (e.isMarkup = true ∨ k.wrappedWithin fuel e = true)) ∨
      (s.shape = .ifStmt ∧ ∃ arm, (s.child? "consequence" = some arm ∨ s.child? "alternative" = some arm) ∧
        k.armWithin fuel arm = true) ∨
      (s.shape = .loop ∧ ∃ body, s.child? "body" = some body ∧ body.shape = .block ∧
        ∃ t ∈ body.proper, k.returnsWithin fuel t = true) ∨
      (s.shape = .switch ∧ ∃ body, s.child? "body" = some body ∧ ∃ clause ∈ body.proper,
        ∃ t ∈ clause.proper, k.returnsWithin fuel t = true) := by
  rw [returnsWithin]
  split
  · rename_i hs
    cases he : s.firstProper? <;> simp [hs]
  · rename_i hs
    simp only [hs, or_and_right, exists_or, Bool.or_eq_true, Option.any_eq_true]
    simp
  · rename_i hs
    cases hb : s.child? "body" <;> simp [hs]
  · rename_i hs
    cases hb : s.child? "body" <;> simp [hs]
  · rename_i h1 h2 h3 h4
    simp only [Bool.false_eq_true, false_iff]
    tauto

theorem armWithin_succ {fuel : Nat} {a : Node} :
    k.armWithin (fuel + 1) a = true ↔
      (a.shape = .block ∧ ∃ t ∈ a.proper, k.returnsWithin fuel t = true) ∨
      (a.shape = .elseClause ∧ ∃ b, a.firstProper? = some b ∧ k.armWithin fuel b = true) ∨
      ((a.shape = .returnStmt ∨ a.shape = .ifStmt) ∧ k.returnsWithin fuel a = true) := by
  rw [armWithin]
  split
  · rename_i hs
    simp [hs]
  · rename_i hs
    cases hb : a.firstProper? <;> simp [hs]
  · rename_i hs
    simp [hs]
  · rename_i hs
    simp [hs]
  · rename_i h1 h2 h3 h4
    simp only [Bool.false_eq_true, false_iff]
    tauto

/-! ## What the search accepts satisfies the rules -/

theorem rules_of_search (fuel : Nat) :
    (∀ n, k.componentWithin fuel n = true → k.Component n) ∧ (∀ e, k.wrappedWithin fuel e = true → k.Wrapped e) ∧
      (∀ s, k.returnsWithin fuel s = true → k.Returns s) ∧ (∀ a, k.armWithin fuel a = true → k.Arm a) := by
  induction fuel with
  | zero => simp [componentWithin, wrappedWithin, returnsWithin, armWithin]
  | succ fuel ih =>
    obtain ⟨ihc, ihw, ihr, iha⟩ := ih
    have hval : ∀ e : Node, e.isMarkup = true ∨ k.wrappedWithin fuel e = true → k.Value e := by
      rintro e (h | h)
      · exact .markup (Node.isMarkup_iff.1 h)
      · exact .wrapped (ihw e h)
    refine ⟨fun n h => ?_, fun e h => ?_, fun s h => ?_, fun a h => ?_⟩
    · obtain ⟨hf, body, hb, ⟨hs, hv⟩ | ⟨hs, s, hm, hr⟩⟩ := k.componentWithin_succ.1 h
      · exact .expression hf hb hs (hval body hv)
      · exact .block hf hb hs hm (ihr s hr)
    · obtain ⟨arg, hw, ⟨hf, hc⟩ | ⟨-, -, hc⟩⟩ := k.wrappedWithin_succ.1 h
      · exact .function hw hf (ihc arg hc)
      · exact .call hw (ihw arg hc)
    · obtain ⟨hs, e, he, hv⟩ | ⟨hs, arm, ha | ha, hr⟩ | ⟨hs, body, hb, hk, t, ht, hr⟩ |
        ⟨hs, body, hb, clause, hc, t, ht, hr⟩ := k.returnsWithin_succ.1 h
      · exact .value hs he (hval e hv)
      · exact .consequence hs ha (iha arm hr)
      · exact .alternative hs ha (iha arm hr)
      · exact .loop hs hb hk ht (ihr t hr)
      · exact .clause hs hb hc ht (ihr t hr)
    · obtain ⟨hs, t, ht, hr⟩ | ⟨hs, b, hb, hr⟩ | ⟨hs | hs, hr⟩ := k.armWithin_succ.1 h
      · exact .block hs ht (ihr t hr)
      · exact .elseClause hs hb (iha b hr)
      · exact .lone hs (ihr a hr)
      · exact .nested hs (ihr a hr)

/-! ## What satisfies the rules is accepted while the search lasts -/

/-- A search that has spent at most two steps per level has a step left in a tree this low. -/
theorem fuel_pos {top m : Node} {fuel d : Nat} (hlow : top.LowerThan 128) (hb : top.Below d m)
    (hf : 257 ≤ fuel + 2 * d) : ∃ rest, fuel = rest + 1 := by
  have := hlow d m hb
  exact ⟨fuel - 1, by omega⟩

-- The invariant is the same for all: `fuel` plus two per level covers the bound. Arms come with one
-- step to spare, which a lone return and a nested if spend on being asked again as statements.
mutual

theorem componentWithin_of_rules {k : Classifier} {top n : Node} {d : Nat} (fuel : Nat) (hlow : top.LowerThan 128)
    (hb : top.Below d n) (hf : 257 ≤ fuel + 2 * d) :
    k.Component n → k.componentWithin fuel n = true
  | .expression hn hc hs hv => by
    obtain ⟨rest, rfl⟩ := fuel_pos hlow hb hf
    have hv := value_of_rules rest hlow (hb.child (Node.child?_mem hc)) (by omega) hv
    exact k.componentWithin_succ.2 ⟨hn, _, hc, .inl ⟨hs, hv⟩⟩
  | .block hn hc hs hm hr => by
    obtain ⟨rest, rfl⟩ := fuel_pos hlow hb hf
    have hbs := (hb.child (Node.child?_mem hc)).child (Node.proper_mem hm)
    have hr := returnsWithin_of_rules rest hlow hbs (by omega) hr
    exact k.componentWithin_succ.2 ⟨hn, _, hc, .inr ⟨hs, _, hm, hr⟩⟩

theorem value_of_rules {k : Classifier} {top e : Node} {d : Nat} (fuel : Nat) (hlow : top.LowerThan 128)
    (hb : top.Below d e) (hf : 257 ≤ fuel + 2 * d) :
    k.Value e → e.isMarkup = true ∨ k.wrappedWithin fuel e = true
  | .markup h => .inl (Node.isMarkup_iff.2 h)
  | .wrapped h => .inr (wrappedWithin_of_rules fuel hlow hb hf h)

theorem wrappedWithin_of_rules {k : Classifier} {top e : Node} {d : Nat} (fuel : Nat) (hlow : top.LowerThan 128)
    (hb : top.Below d e) (hf : 257 ≤ fuel + 2 * d) :
    k.Wrapped e → k.wrappedWithin fuel e = true
  | .function hw hfn hc => by
    obtain ⟨rest, rfl⟩ := fuel_pos hlow hb hf
    obtain ⟨d', hd, hb'⟩ := Wraps.below hw hb
    exact k.wrappedWithin_succ.2 ⟨_, hw, .inl ⟨hfn, componentWithin_of_rules rest hlow hb' (by omega) hc⟩⟩
  | .call hw hc => by
    obtain ⟨rest, rfl⟩ := fuel_pos hlow hb hf
    obtain ⟨d', hd, hb'⟩ := Wraps.below hw hb
    obtain ⟨hs, hfn⟩ := Wrapped.shape_of_wraps hw hc
    exact k.wrappedWithin_succ.2 ⟨_, hw, .inr ⟨hfn, hs, wrappedWithin_of_rules rest hlow hb' (by omega) hc⟩⟩

theorem returnsWithin_of_rules {k : Classifier} {top s : Node} {d : Nat} (fuel : Nat) (hlow : top.LowerThan 128)
    (hb : top.Below d s) (hf : 257 ≤ fuel + 2 * d) :
    k.Returns s → k.returnsWithin fuel s = true
  | .value hs he hv => by
    obtain ⟨rest, rfl⟩ := fuel_pos hlow hb hf
    have hv := value_of_rules rest hlow (hb.child (Node.firstProper?_mem he)) (by omega) hv
    exact k.returnsWithin_succ.2 (.inl ⟨hs, _, he, hv⟩)
  | .consequence hs ha har => by
    obtain ⟨rest, rfl⟩ := fuel_pos hlow hb hf
    have har := armWithin_of_rules rest hlow (hb.child (Node.child?_mem ha)) (by omega) har
    exact k.returnsWithin_succ.2 (.inr (.inl ⟨hs, _, .inl ha, har⟩))
  | .alternative hs ha har => by
    obtain ⟨rest, rfl⟩ := fuel_pos hlow hb hf
    have har := armWithin_of_rules rest hlow (hb.child (Node.child?_mem ha)) (by omega) har
    exact k.returnsWithin_succ.2 (.inr (.inl ⟨hs, _, .inr ha, har⟩))
  | .loop hs hc hbs ht hr => by
    obtain ⟨rest, rfl⟩ := fuel_pos hlow hb hf
    have hbt := (hb.child (Node.child?_mem hc)).child (Node.proper_mem ht)
    have hr := returnsWithin_of_rules rest hlow hbt (by omega) hr
    exact k.returnsWithin_succ.2 (.inr (.inr (.inl ⟨hs, _, hc, hbs, _, ht, hr⟩)))
  | .clause hs hc hcl ht hr => by
    obtain ⟨rest, rfl⟩ := fuel_pos hlow hb hf
    have hbt := ((hb.child (Node.child?_mem hc)).child (Node.proper_mem hcl)).child (Node.proper_mem ht)
    have hr := returnsWithin_of_rules rest hlow hbt (by omega) hr
    exact k.returnsWithin_succ.2 (.inr (.inr (.inr ⟨hs, _, hc, _, hcl, _, ht, hr⟩)))

theorem armWithin_of_rules {k : Classifier} {top a : Node} {d : Nat} (fuel : Nat) (hlow : top.LowerThan 128)
    (hb : top.Below d a) (hf : 258 ≤ fuel + 2 * d) :
    k.Arm a → k.armWithin fuel a = true
  | .block hs ht hr => by
    obtain ⟨rest, rfl⟩ := fuel_pos hlow hb (Nat.le_of_succ_le hf)
    have hr := returnsWithin_of_rules rest hlow (hb.child (Node.proper_mem ht)) (by omega) hr
    exact k.armWithin_succ.2 (.inl ⟨hs, _, ht, hr⟩)
  | .elseClause hs he har => by
    obtain ⟨rest, rfl⟩ := fuel_pos hlow hb (Nat.le_of_succ_le hf)
    have har := armWithin_of_rules rest hlow (hb.child (Node.firstProper?_mem he)) (by omega) har
    exact k.armWithin_succ.2 (.inr (.inl ⟨hs, _, he, har⟩))
  | .lone hs hr => by
    obtain ⟨rest, rfl⟩ := fuel_pos hlow hb (Nat.le_of_succ_le hf)
    exact k.armWithin_succ.2 (.inr (.inr ⟨.inl hs, returnsWithin_of_rules rest hlow hb (by omega) hr⟩))
  | .nested hs hr => by
    obtain ⟨rest, rfl⟩ := fuel_pos hlow hb (Nat.le_of_succ_le hf)
    exact k.armWithin_succ.2 (.inr (.inr ⟨.inr hs, returnsWithin_of_rules rest hlow hb (by omega) hr⟩))

end

/-- The classifier decides the rules: every function it accepts is a component by them, whatever the
size of the tree, and it accepts every component whose tree is at most 128 levels high. -/
theorem isComponent_agrees_with_rules (k : Classifier) (n : Node) :
    (k.isComponent n = true → k.Component n) ∧
      (n.LowerThan 128 → k.Component n → k.isComponent n = true) :=
  ⟨(k.rules_of_search (maxDepth + 1)).1 n, fun hlow h =>
    componentWithin_of_rules (maxDepth + 1) hlow .self (by simp [maxDepth]) h⟩

/-- The callback `() => <i/>` in the tree below. -/
def markupCallback : Node :=
  .named "arrow_function" none 34 44 [
    .named "formal_parameters" (some "parameters") 34 36 [.token "(" 34 35, .token ")" 35 36],
    .token "=>" 37 39,
    .named "jsx_self_closing_element" (some "body") 40 44 []]

/-- The tree of `() => { if (a) if (b) return memo(() => <i/>) }`. -/
def guardedCallback : Node :=
  .named "arrow_function" none 0 47 [
    .named "formal_parameters" (some "parameters") 0 2 [.token "(" 0 1, .token ")" 1 2],
    .token "=>" 3 5,
    .named "statement_block" (some "body") 6 47 [
      .token "\x7b" 6 7,
      .named "if_statement" none 8 45 [
        .token "if" 8 10,
        .named "parenthesized_expression" (some "condition") 11 14 [
          .token "(" 11 12, .named "identifier" none 12 13 [], .token ")" 13 14],
        .named "if_statement" (some "consequence") 15 45 [
          .token "if" 15 17,
          .named "parenthesized_expression" (some "condition") 18 21 [
            .token "(" 18 19, .named "identifier" none 19 20 [], .token ")" 20 21],
          .named "return_statement" (some "consequence") 22 45 [
            .token "return" 22 28,
            .named "call_expression" none 29 45 [
              .named "identifier" (some "function") 29 33 [],
              .named "arguments" (some "arguments") 33 45 [
                .token "(" 33 34,
                markupCallback,
                .token ")" 44 45]]]]],
      .token "\x7d" 46 47]]

theorem isComponent_guardedCallback :
    let k : Classifier := ⟨defaultWrappers, "() => \x7b if (a) if (b) return memo(() => <i/>) \x7d"⟩
    guardedCallback.LowerThan 128 ∧ k.Component guardedCallback ∧ k.isComponent guardedCallback = true := by
  intro k
  have hlow : guardedCallback.LowerThan 128 := Node.lowerThan_of_height (by decide)
  have hcomp : k.Component guardedCallback := by
    have hinner : k.Component markupCallback := .expression rfl rfl (by decide) (.markup (.element rfl))
    refine .block rfl rfl rfl (List.mem_singleton_self _) ?_
    refine .consequence rfl rfl (.nested rfl (.consequence rfl rfl (.lone rfl (.value rfl rfl ?_))))
    refine .wrapped (.function ?_ rfl hinner)
    exact ⟨_, _, _, .bare (by decide), rfl, by decide, rfl, rfl, .bare (by decide)⟩
  exact ⟨hlow, hcomp, (isComponent_agrees_with_rules k guardedCallback).2 hlow hcomp⟩

end Classifier

end DocAtlas
