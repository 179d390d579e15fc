/-
Recognition and unwrapping agree, however long the chain of wrapper calls. The one goes down counting
its steps, the other takes off one call at a time; both stop at `maxDepth`. Of a chain of `n` calls
around a function, the function is found if `n ≤ maxDepth`, and the chain is a wrapped component if,
besides, the function is seen to be a component in the steps that are left. So a wrapped component
always has its function, and a survey never has to judge a component without one.
-/
import DocAtlas.Proofs.Component.Ledger

namespace DocAtlas.Classifier

/-- A wrapped component has a function strictly inside it that is a component; up to the bound and at it,
recognition and unwrapping decide by the length of the chain; and the function behind a candidate that
is a component is never missing. -/
theorem wrapped_agrees_unwrapped (k : Classifier) :
    (∀ e, k.isWrapped e.node = true → ∃ f, k.wrappedFunction? e = some f ∧ f.node.isFunction = true ∧
      e.Contains f ∧ e ≠ f ∧ k.isComponent f.node = true) ∧
    (∀ n e f, k.Unwraps n e f → (k.wrappedFunction? e = some f ↔ n ≤ maxDepth) ∧
      (k.isWrapped e.node = true ↔ n ≤ maxDepth ∧ k.componentWithin (maxDepth + 1 - n) f.node = true)) ∧
    ∀ (cand : Candidate) fn, cand.function? k = some fn →
      ∃ f : Cursor, fn = some f ∧ f.node.isFunction = true ∧ k.isComponent f.node = true := by
  refine ⟨fun e he => ?_, fun n e f h => ⟨?_, ?_⟩, fun cand fn hfn => ?_⟩
  · obtain ⟨f, hf, -, hc⟩ := k.wrappedFunction?_of_isWrapped he
    obtain ⟨n, -, hu⟩ := unwrapWithin_iff.1 hf
    exact ⟨f, hf, hu.isFunction, hu.inside.1, hu.inside.2, hc⟩
  · refine unwrapWithin_iff.trans ⟨?_, fun hn => ⟨n, hn, h⟩⟩
    rintro ⟨n', hn', h'⟩
    rw [(h.unique h').1]
    exact hn'
  · refine isWrapped_iff.trans ⟨?_, fun ⟨hn, hc⟩ => ⟨n, hn, f, h, hc⟩⟩
    rintro ⟨n', hn', f', h', hc⟩
    obtain ⟨rfl, rfl⟩ := h.unique h'
    exact ⟨hn', hc⟩
  · obtain ⟨f, hf, -, hc⟩ := Candidate.function?_spec hfn
    exact ⟨f, hf, k.isFunction_of_isComponent hc, hc⟩

/-! ## A chain as long as the bound -/

/-- The arrow `() => <i/>` in a source, from a place on. -/
def arrowAt (start : Nat) : Node :=
  .named "arrow_function" none start (start + 10)
    [.named "formal_parameters" (some "parameters") start (start + 2)
        [.token "(" start (start + 1), .token ")" (start + 1) (start + 2)],
      .token "=>" (start + 3) (start + 5),
      .named "jsx_self_closing_element" (some "body") (start + 6) (start + 10)
        [.token "<" (start + 6) (start + 7), .named "identifier" (some "name") (start + 7) (start + 8) [],
          .token "/>" (start + 8) (start + 10)]]

theorem componentWithin_arrowAt (k : Classifier) (fuel start : Nat) :
    k.componentWithin (fuel + 1) (arrowAt start) = true :=
  k.componentWithin_succ.2 ⟨rfl, _, rfl, .inl ⟨(fun h => by cases h), .inl (by rw [Node.isMarkup_eq]; rfl)⟩⟩

/-- `n` calls to `memo`, one around the other, around an arrow. -/
def memoChain (start : Nat) : Nat → Node
  | 0 => arrowAt start
  | n + 1 =>
    .named "call_expression" none start (start + 6 * n + 16)
      [.named "identifier" (some "function") start (start + 4) [],
        .named "arguments" (some "arguments") (start + 4) (start + 6 * n + 16)
          [.token "(" (start + 4) (start + 5), memoChain (start + 5) n,
            .token ")" (start + 6 * n + 15) (start + 6 * n + 16)]]

/-- `memo(memo(.. () => <i/> ..))`. -/
def memoText : Nat → Text
  | 0 => "() => <i/>"
  | n + 1 => "memo(" ++ memoText n ++ ")"

def memoized (n : Nat) : Classifier := ⟨defaultWrappers, memoText n⟩

/-- The first call of a chain wraps the rest of it, if its text stands there in the source. -/
theorem wraps_memoChain {src rest : Text} {start n : Nat} (hs : src.drop start = memoText (n + 1) ++ rest) :
    (Classifier.mk defaultWrappers src).Wraps (memoChain start (n + 1)) (memoChain (start + 5) n) := by
  have hname : (memoChain start (n + 1)).calleeName src = "memo" := by
    have hlen : start + 4 ≤ src.length := by
      have := congrArg List.length hs
      simp only [memoText, List.length_drop, List.length_append, show ("memo(" : Text).length = 5 by decide] at this
      omega
    change Node.text (.named "identifier" (some "function") start (start + 4) []) src = "memo"
    rw [Node.text, if_neg (by simpa [Node.stop, Node.named] using hlen)]
    change (src.take (start + 4)).drop start = _
    rw [List.drop_take, Nat.add_sub_cancel_left, hs, memoText, List.append_assoc, List.append_assoc,
      List.take_append_of_le_length (by decide)]
    decide
  have hbare : (memoChain (start + 5) n).Inside (memoChain (start + 5) n) :=
    .bare (by cases n <;> exact fun h => by cases h)
  refine ⟨memoChain start (n + 1), _, memoChain (start + 5) n, .bare (fun h => by cases h), rfl, ?_, rfl, ?_, hbare⟩
  · rw [hname]; exact (by decide : ("memo" : Text) ∈ defaultWrappers)
  · cases n <;> rfl

/-- A chain of any length unwraps to its arrow. -/
theorem unwraps_memoChain {src rest : Text} {start n : Nat} (hs : src.drop start = memoText (n + 1) ++ rest)
    (above : List Frame) :
    ∃ above', (Classifier.mk defaultWrappers src).Unwraps (n + 1) ⟨memoChain start (n + 1), above⟩
      ⟨arrowAt (start + 5 * (n + 1)), above'⟩ := by
  induction n generalizing start above rest with
  | zero =>
    obtain ⟨⟨m, above'⟩, hw, rfl⟩ := (wraps_node_iff (e := ⟨_, above⟩)).1 (wraps_memoChain hs)
    exact ⟨above', .function hw rfl⟩
  | succ n ih =>
    obtain ⟨⟨m, above₁⟩, hw, rfl⟩ := (wraps_node_iff (e := ⟨_, above⟩)).1 (wraps_memoChain hs)
    have hs' : src.drop (start + 5) = memoText (n + 1) ++ (")" ++ rest) := by
      rw [← List.drop_drop, hs, memoText, List.append_assoc, List.append_assoc]
      rfl
    obtain ⟨above', hu⟩ := ih hs' above₁
    rw [show start + 5 + 5 * (n + 1) = start + 5 * (n + 1 + 1) by omega] at hu
    exact ⟨above', .call hw rfl hu⟩

/-- A chain as long as the bound still has its function. -/
theorem longest_chain_unwrapped :
    (memoized maxDepth).isWrapped (Cursor.ofRoot (memoChain 0 maxDepth)).node = true ∧
      ∃ f, (memoized maxDepth).wrappedFunction? (Cursor.ofRoot (memoChain 0 maxDepth)) = some f ∧
        f.node.isFunction = true ∧ (Cursor.ofRoot (memoChain 0 maxDepth)).Contains f ∧
        Cursor.ofRoot (memoChain 0 maxDepth) ≠ f ∧ (memoized maxDepth).isComponent f.node = true := by
  obtain ⟨above, hu⟩ := unwraps_memoChain (show (memoText maxDepth).drop 0 = memoText maxDepth ++ [] by simp) []
  have hcomp := componentWithin_arrowAt (memoized maxDepth) 0 (0 + 5 * maxDepth)
  have hw := ((wrapped_agrees_unwrapped (memoized maxDepth)).2.1 _ _ _ hu).2.2 ⟨le_rfl, hcomp⟩
  exact ⟨hw, (wrapped_agrees_unwrapped (memoized maxDepth)).1 _ hw⟩

end DocAtlas.Classifier
