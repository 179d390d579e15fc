/-
Wrapper calls and the function inside them. A search that has accepted accepts with more steps
left too, so whatever is accepted on the way down is accepted on its own.

What the chain of wrapper calls leads to is said without steps: `Unwraps n e f` if there are `n` calls
around the function `f`. Unwrapping finds the ends of the chains that are no longer than its steps,
and an expression is a wrapped component if at the end of such a chain a component is found with the
steps that are left. So where an expression is a wrapped component, unwrapping finds a component.
-/
import DocAtlas.Proofs.Component.Meaning
import DocAtlas.Proofs.Tree.Descent

namespace DocAtlas.Classifier

variable (k : Classifier)

/-! ## More steps -/

theorem within_succ (fuel : Nat) :
    (∀ n, k.componentWithin fuel n = true → k.componentWithin (fuel + 1) n = true) ∧
      (∀ e, k.wrappedWithin fuel e = true → k.wrappedWithin (fuel + 1) e = true) ∧
      (∀ s, k.returnsWithin fuel s = true → k.returnsWithin (fuel + 1) s = true) ∧
      (∀ a, k.armWithin fuel a = true → k.armWithin (fuel + 1) a = true) := by
  induction fuel with
  | zero => simp [componentWithin, wrappedWithin, returnsWithin, armWithin]
  | succ fuel ih =>
    obtain ⟨ihc, ihw, ihr, iha⟩ := ih
    refine ⟨fun n h => ?_, fun e h => ?_, fun s h => ?_, fun a h => ?_⟩
    · obtain ⟨hf, body, hb, ⟨hs, hv⟩ | ⟨hs, s, hm, hr⟩⟩ := k.componentWithin_succ.1 h
      · exact k.componentWithin_succ.2 ⟨hf, body, hb, .inl ⟨hs, hv.imp_right (ihw body)⟩⟩
      · exact k.componentWithin_succ.2 ⟨hf, body, hb, .inr ⟨hs, s, hm, ihr s hr⟩⟩
    · obtain ⟨arg, hw, ⟨hf, hc⟩ | ⟨hf, hs, hc⟩⟩ := k.wrappedWithin_succ.1 h
      · exact k.wrappedWithin_succ.2 ⟨arg, hw, .inl ⟨hf, ihc arg hc⟩⟩
      · exact k.wrappedWithin_succ.2 ⟨arg, hw, .inr ⟨hf, hs, ihw arg hc⟩⟩
    · obtain ⟨hs, e, he, hv⟩ | ⟨hs, arm, ha, hr⟩ | ⟨hs, body, hb, hk, t, ht, hr⟩ |
        ⟨hs, body, hb, clause, hc, t, ht, hr⟩ := k.returnsWithin_succ.1 h
      · exact k.returnsWithin_succ.2 (.inl ⟨hs, e, he, hv.imp_right (ihw e)⟩)
      · exact k.returnsWithin_succ.2 (.inr (.inl ⟨hs, arm, ha, iha arm hr⟩))
      · exact k.returnsWithin_succ.2 (.inr (.inr (.inl ⟨hs, body, hb, hk, t, ht, ihr t hr⟩)))
      · exact k.returnsWithin_succ.2 (.inr (.inr (.inr ⟨hs, body, hb, clause, hc, t, ht, ihr t hr⟩)))
    · obtain ⟨hs, t, ht, hr⟩ | ⟨hs, b, hb, hr⟩ | ⟨hs, hr⟩ := k.armWithin_succ.1 h
      · exact k.armWithin_succ.2 (.inl ⟨hs, t, ht, ihr t hr⟩)
      · exact k.armWithin_succ.2 (.inr (.inl ⟨hs, b, hb, iha b hr⟩))
      · exact k.armWithin_succ.2 (.inr (.inr ⟨hs, ihr a hr⟩))

/-- What is accepted with fewer steps is a component. -/
theorem isComponent_of_within {fuel : Nat} {n : Node} (hf : fuel ≤ maxDepth + 1)
    (h : k.componentWithin fuel n = true) : k.isComponent n = true := by
  unfold isComponent
  obtain ⟨more, he⟩ := Nat.exists_eq_add_of_le hf
  rw [he]
  clear he hf
  induction more with
  | zero => exact h
  | succ more ih => exact (k.within_succ (fuel + more)).1 n ih

theorem isFunction_of_isComponent {n : Node} (h : k.isComponent n = true) : n.isFunction = true :=
  (k.componentWithin_succ.1 h).1

/-! ## Chains of wrapper calls -/

@[simp] theorem map_node_firstArgumentAt? (call : Cursor) :
    (firstArgumentAt? call).map Cursor.node = firstArgument? call.node := by
  unfold firstArgumentAt? firstArgument?
  rw [← Cursor.map_node_child?]
  cases call.child? "arguments" with
  | none => rfl
  | some args =>
    simp only [Option.bind_some, Option.map_some]
    rw [← Cursor.map_node_firstProper?]
    cases args.firstProper? with
    | none => rfl
    | some first => exact first.map_node_stripParens?

/-- The first argument of a call lies in one of its children. -/
theorem below_of_firstArgumentAt? {call arg : Cursor} (h : firstArgumentAt? call = some arg) :
    ∃ args ∈ call.children, args.Contains arg := by
  obtain ⟨first, hf, hs⟩ := Option.bind_eq_some_iff.1 h
  obtain ⟨args, ha, hf⟩ := Option.bind_eq_some_iff.1 hf
  exact ⟨args, Cursor.child?_mem ha,
    (Cursor.contains_of_child (Cursor.firstProper?_mem hf)).trans (Cursor.contains_of_stripParens? hs)⟩

/-- `k.WrapsAt e arg`: `e` is, through parentheses, a call to a wrapper with the first argument `arg`. -/
def WrapsAt (e arg : Cursor) : Prop :=
  ∃ call, e.stripParens? = some call ∧ k.isWrapperCall call.node = true ∧ firstArgumentAt? call = some arg

/-- `k.Unwraps n e f`: a chain of `n` wrapper calls, each the first argument of the one before, leads
from `e` to the function `f`. -/
inductive Unwraps : Nat → Cursor → Cursor → Prop
  | function {e f : Cursor} : k.WrapsAt e f → f.node.isFunction = true → Unwraps 1 e f
  | call {n : Nat} {e arg f : Cursor} : k.WrapsAt e arg → arg.node.isFunction = false → Unwraps n arg f →
      Unwraps (n + 1) e f

variable {k} {e arg f : Cursor} {n fuel : Nat}

theorem wraps_node_iff {m : Node} : k.Wraps e.node m ↔ ∃ arg, k.WrapsAt e arg ∧ arg.node = m := by
  rw [k.wraps_iff]
  constructor
  · rintro ⟨call, hc, hk, ha⟩
    rw [← Cursor.map_node_stripParens?] at hc
    obtain ⟨callAt, hcAt, rfl⟩ := Option.map_eq_some_iff.1 hc
    rw [← map_node_firstArgumentAt?] at ha
    obtain ⟨arg, haAt, rfl⟩ := Option.map_eq_some_iff.1 ha
    exact ⟨arg, ⟨callAt, hcAt, hk, haAt⟩, rfl⟩
  · rintro ⟨arg, ⟨call, hc, hk, ha⟩, rfl⟩
    exact ⟨call.node, by rw [← Cursor.map_node_stripParens?, hc]; rfl, hk,
      by rw [← map_node_firstArgumentAt?, ha]; rfl⟩

theorem WrapsAt.unique {arg' : Cursor} (h : k.WrapsAt e arg) (h' : k.WrapsAt e arg') : arg = arg' := by
  obtain ⟨call, hc, -, ha⟩ := h
  obtain ⟨call', hc', -, ha'⟩ := h'
  rw [hc] at hc'; cases hc'
  rw [ha] at ha'; cases ha'
  rfl

theorem WrapsAt.inside (h : k.WrapsAt e arg) : e.Contains arg ∧ e ≠ arg := by
  obtain ⟨call, hc, -, ha⟩ := h
  have hcall := Cursor.contains_of_stripParens? hc
  obtain ⟨args, hm, hin⟩ := below_of_firstArgumentAt? ha
  refine ⟨hcall.trans ((Cursor.contains_of_child hm).trans hin), ?_⟩
  rintro rfl
  exact Cursor.ne_of_child_contains hm (hin.trans hcall) rfl

theorem Unwraps.pos (h : k.Unwraps n e f) : 0 < n := by cases h <;> omega

theorem Unwraps.isFunction (h : k.Unwraps n e f) : f.node.isFunction = true := by
  induction h with
  | function _ hf => exact hf
  | call _ _ _ ih => exact ih

theorem Unwraps.inside (h : k.Unwraps n e f) : e.Contains f ∧ e ≠ f := by
  induction h with
  | function hw _ => exact hw.inside
  | call hw _ _ ih =>
    obtain ⟨hin, hne⟩ := hw.inside
    refine ⟨hin.trans ih.1, ?_⟩
    rintro rfl
    exact hne (hin.antisymm ih.1)

/-- An argument at the head of a chain is a call. -/
theorem Unwraps.shape_of_wrapsAt (hw : k.WrapsAt e arg) (h : k.Unwraps n arg f) : arg.node.shape = .call := by
  have hwraps : ∃ b, k.WrapsAt arg b := by
    cases h with
    | function hb _ => exact ⟨_, hb⟩
    | call hb _ _ => exact ⟨_, hb⟩
  obtain ⟨b, hb⟩ := hwraps
  exact (Wraps.shape_of_wraps (wraps_node_iff.2 ⟨arg, hw, rfl⟩) (wraps_node_iff.2 ⟨b, hb, rfl⟩)).1

/-! ## The steps of unwrapping and of recognition -/

theorem unwrapWithin_succ :
    k.unwrapWithin (fuel + 1) e = some f ↔ ∃ arg, k.WrapsAt e arg ∧
      ((arg.node.isFunction = true ∧ arg = f) ∨ (arg.node.isFunction = false ∧ k.unwrapWithin fuel arg = some f)) := by
  unfold WrapsAt
  rw [unwrapWithin]
  cases hc : e.stripParens? with
  | none => simp
  | some call =>
    cases hk : k.isWrapperCall call.node with
    | false => simp [hk]
    | true =>
      cases ha : firstArgumentAt? call with
      | none => simp [ha]
      | some arg => cases hf : arg.node.isFunction <;> simp [hk, ha, hf]

/-- Unwrapping finds the end of a chain that is no longer than its steps. -/
theorem unwrapWithin_iff : k.unwrapWithin fuel e = some f ↔ ∃ n ≤ fuel, k.Unwraps n e f := by
  induction fuel generalizing e with
  | zero =>
    constructor
    · intro h; cases h
    · rintro ⟨n, hn, h⟩
      have := h.pos
      omega
  | succ fuel ih =>
    rw [unwrapWithin_succ]
    constructor
    · rintro ⟨arg, hw, ⟨hf, rfl⟩ | ⟨hf, hu⟩⟩
      · exact ⟨1, by omega, .function hw hf⟩
      · obtain ⟨n, hn, hu⟩ := ih.1 hu
        exact ⟨n + 1, by omega, .call hw hf hu⟩
    · rintro ⟨n, hn, h⟩
      cases h with
      | function hw hf => exact ⟨f, hw, .inl ⟨hf, rfl⟩⟩
      | @call n _ arg _ hw hf h => exact ⟨arg, hw, .inr ⟨hf, ih.2 ⟨n, by omega, h⟩⟩⟩

/-- A wrapped component is recognised if its chain leaves the steps in which the function at its end
is seen to be a component. -/
theorem wrappedWithin_iff :
    k.wrappedWithin fuel e.node = true ↔
      ∃ n ≤ fuel, ∃ f, k.Unwraps n e f ∧ k.componentWithin (fuel - n) f.node = true := by
  induction fuel generalizing e with
  | zero =>
    constructor
    · intro h; simp [wrappedWithin] at h
    · rintro ⟨n, hn, f, h, -⟩
      have := h.pos
      omega
  | succ fuel ih =>
    rw [k.wrappedWithin_succ]
    constructor
    · rintro ⟨m, hwraps, harg⟩
      obtain ⟨arg, hw, rfl⟩ := wraps_node_iff.1 hwraps
      rcases harg with ⟨hf, hc⟩ | ⟨hf, -, hc⟩
      · exact ⟨1, by omega, arg, .function hw hf, hc⟩
      · obtain ⟨n, hn, f, hu, hc⟩ := ih.1 hc
        exact ⟨n + 1, by omega, f, .call hw hf hu, by rwa [Nat.add_sub_add_right]⟩
    · rintro ⟨n, hn, f, h, hc⟩
      cases h with
      | function hw hf => exact ⟨f.node, wraps_node_iff.2 ⟨f, hw, rfl⟩, .inl ⟨hf, hc⟩⟩
      | @call n _ arg _ hw hf h =>
        rw [Nat.add_sub_add_right] at hc
        exact ⟨arg.node, wraps_node_iff.2 ⟨arg, hw, rfl⟩,
          .inr ⟨hf, h.shape_of_wrapsAt hw, ih.2 ⟨n, by omega, f, h, hc⟩⟩⟩

/-- A chain has one length and one end. -/
theorem Unwraps.unique {n' : Nat} {f' : Cursor} (h : k.Unwraps n e f) (h' : k.Unwraps n' e f') : n = n' ∧ f = f' := by
  induction h generalizing n' with
  | function hw hf =>
    cases h' with
    | function hw' _ => exact ⟨rfl, hw.unique hw'⟩
    | call hw' hf' _ =>
      rw [hw.unique hw', hf'] at hf
      cases hf
  | call hw hf _ ih =>
    cases h' with
    | function hw' hf' =>
      rw [hw.unique hw', hf'] at hf
      cases hf
    | call hw' _ h' =>
      obtain ⟨rfl, rfl⟩ := ih (hw.unique hw' ▸ h')
      exact ⟨rfl, rfl⟩

theorem contains_of_unwrapWithin (h : k.unwrapWithin fuel e = some f) : e.Contains f := by
  obtain ⟨n, -, h⟩ := unwrapWithin_iff.1 h
  exact h.inside.1

/-- The same at the bound: one step at least is left for the function itself. -/
theorem isWrapped_iff :
    k.isWrapped e.node = true ↔
      ∃ n ≤ maxDepth, ∃ f, k.Unwraps n e f ∧ k.componentWithin (maxDepth + 1 - n) f.node = true := by
  refine wrappedWithin_iff.trans ⟨?_, fun ⟨n, hn, h⟩ => ⟨n, by omega, h⟩⟩
  rintro ⟨n, -, f, hu, hc⟩
  refine ⟨n, ?_, f, hu, hc⟩
  by_contra hlt
  rw [show maxDepth + 1 - n = 0 by omega, componentWithin] at hc
  cases hc

theorem wrappedFunction?_of_isWrapped (h : k.isWrapped e.node = true) :
    ∃ f, k.wrappedFunction? e = some f ∧ e.Contains f ∧ k.isComponent f.node = true := by
  obtain ⟨n, hn, f, hu, hc⟩ := isWrapped_iff.1 h
  exact ⟨f, unwrapWithin_iff.2 ⟨n, hn, hu⟩, hu.inside.1, k.isComponent_of_within (by omega) hc⟩

end DocAtlas.Classifier
