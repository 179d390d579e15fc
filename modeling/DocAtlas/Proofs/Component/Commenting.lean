/-
Comments are invisible to the inference of components. If a tree is another with comments put in and
the names, numbers and strings in it are spelled as before, then corresponding nodes are markup,
components, wrapped components and nested both or neither, the functions inside chains of wrapper calls
correspond, and functions have one contract: the same parameter name, the same props in the same order
and the same word on further props.

Nothing is assumed of where the comments stand or of how deep the trees are; the searches with fuel
spend it alike in both.
-/
import DocAtlas.Proofs.Component.Counterparts
import DocAtlas.Proofs.Tree.Commented

namespace DocAtlas

/-- A name, a number or a string is spelled as before, and so is the property of a member expression, which is a
name. -/
structure Node.KeepsWord (src src' : Text) (n n' : Node) : Prop where
  word : n.isWord = true → n'.text src' = n.text src
  property : n.shape = .member → ∀ p p', n.child? "property" = some p → n'.child? "property" = some p' →
    p'.text src' = p.text src

theorem Node.KeepsWord.sameWords {src src' : Text} {n n' : Node} (h : n.KeepsWord src src' n') :
    SameWords src src' n n' where
  identifier hs := h.word (Node.isWord_of_identifier hs)
  property := h.property

namespace Classifier

/-- Two classifiers answer alike at two places. -/
structure SameAnswers (k k' : Classifier) (c c' : Cursor) : Prop where
  markup : c'.node.isMarkup = c.node.isMarkup
  component : k'.isComponent c'.node = k.isComponent c.node
  wrapped : k'.isWrapped c'.node = k.isWrapped c.node
  nested : k'.isNested c' = k.isNested c
  function : Option.Rel (Cursor.Commented (Node.KeepsWord k.src k'.src)) (k.wrappedFunction? c) (k'.wrappedFunction? c')
  contract : Contract.ofFunction k'.src c'.node = Contract.ofFunction k.src c.node

variable {k k' : Classifier}

/-- The places of a tree with comments put in are counterparts of the places without. -/
theorem counterparts_of_commented (hw : k'.wrappers = k.wrappers) :
    Counterparts k k' (Cursor.Commented (Node.KeepsWord k.src k'.src)) where
  pairing := Cursor.Commented.pairing
  parent h := h.parent?
  wrappers := hw
  words := by
    rintro _ _ ⟨c, c', hM, rfl, rfl⟩
    exact hM.node.kept.sameWords

theorem sameAnswers_of_commented (hw : k'.wrappers = k.wrappers) {c c' : Cursor}
    (hc : Cursor.Commented (Node.KeepsWord k.src k'.src) c c') : SameAnswers k k' c c' where
  markup := (Node.Commented.pairing.isMarkup hc.node).symm
  component := ((counterparts_of_commented hw).isComponent hc).symm
  wrapped := ((counterparts_of_commented hw).isWrapped hc).symm
  nested := by
    unfold isNested
    refine (any_eq_of_forall₂ hc.ancestors fun p _ p' hp => ?_).symm
    have hcomp : k.isComponent p = k'.isComponent p' :=
      isComponent_eq Node.Commented.pairing hw
        (fun _ _ h => h.kept.sameWords) hp
    rw [Node.Commented.pairing.isFunction hp, hcomp]
  function := (counterparts_of_commented hw).wrappedFunction? hc
  contract := Contract.ofFunction_eq Node.Commented.pairing (fun _ _ h => h.kept.word) hc.node

/-- Comments put into a tree change none of the answers on its nodes. -/
theorem answers_ignore_comments (wrappers : List Text) {src src' : Text} {root root' : Node}
    (h : Node.Commented (Node.KeepsWord src src') root root') :
    Woven (fun d => d.node.IsStray)
      (fun c c' => Cursor.Commented (Node.KeepsWord src src') c c' ∧ SameAnswers ⟨wrappers, src⟩ ⟨wrappers, src'⟩ c c')
      (Cursor.ofRoot root).preorder (Cursor.ofRoot root').preorder := by
  have hw : (Classifier.mk wrappers src').wrappers = (Classifier.mk wrappers src).wrappers := rfl
  exact (Cursor.Commented.ofRoot h).preorder.imp fun _ _ _ hc => ⟨hc, sameAnswers_of_commented hw hc⟩

/-! ## A memoized component -/

/-- A call to a wrapper, and the same call with a comment before the argument, one in its parameter and
one before its body. -/
def memoSource : Text := "memo((\x7b a \x7d) => <b/>)"

def memoSourceCommented : Text := "memo(/*f*/ (\x7b a /*p*/ \x7d) => /*v*/ <b/>)"

def memoCall : Node :=
  .named "call_expression" none 0 21
    [.named "identifier" (some "function") 0 4 [],
     .named "arguments" (some "arguments") 4 21
      [.token "(" 4 5,
       .named "arrow_function" none 5 20
        [.named "formal_parameters" (some "parameters") 5 12
          [.token "(" 5 6,
           .named "object_pattern" none 6 11
            [.token "\x7b" 6 7, .named "shorthand_property_identifier_pattern" none 8 9 [], .token "\x7d" 10 11],
           .token ")" 11 12],
         .token "=>" 13 15,
         .named "jsx_self_closing_element" (some "body") 16 20
          [.token "<" 16 17, .named "identifier" (some "name") 17 18 [], .token "/>" 18 20]],
       .token ")" 20 21]]

def memoCallCommented : Node :=
  .named "call_expression" none 0 39
    [.named "identifier" (some "function") 0 4 [],
     .named "arguments" (some "arguments") 4 39
      [.token "(" 4 5,
       .comment 5 10,
       .named "arrow_function" none 11 38
        [.named "formal_parameters" (some "parameters") 11 24
          [.token "(" 11 12,
           .named "object_pattern" none 12 23
            [.token "\x7b" 12 13, .named "shorthand_property_identifier_pattern" none 14 15 [], .comment 16 21,
             .token "\x7d" 22 23],
           .token ")" 23 24],
         .token "=>" 25 27,
         .comment 28 33,
         .named "jsx_self_closing_element" (some "body") 34 38
          [.token "<" 34 35, .named "identifier" (some "name") 35 36 [], .token "/>" 36 38]],
       .token ")" 38 39]]

theorem memoCall_commented :
    Node.Commented (Node.KeepsWord memoSource memoSourceCommented) memoCall memoCallCommented := by
  refine .mk rfl ?_ ?_
  -- child by child; where the kinds differ, a comment was put in
  repeat' first
    | exact Woven.nil
    | refine Woven.keep (Node.Commented.mk rfl ?_ ?_) ?_
    | refine Woven.stray ⟨rfl, rfl, rfl, rfl, rfl⟩ ?_
  all_goals exact ⟨by decide +kernel, fun hmember => absurd hmember (by decide +kernel)⟩

/-- The answers at the commented call are those at the bare one, which is a wrapped component. -/
theorem memoCall_answers :
    ∃ c', Cursor.Commented (Node.KeepsWord memoSource memoSourceCommented) (.ofRoot memoCall) c' ∧
      SameAnswers ⟨defaultWrappers, memoSource⟩ ⟨defaultWrappers, memoSourceCommented⟩ (.ofRoot memoCall) c' ∧
      (Classifier.mk defaultWrappers memoSourceCommented).isWrapped c'.node = true := by
  have h := answers_ignore_comments defaultWrappers memoCall_commented
  rw [Cursor.preorder_eq, Cursor.preorder_eq] at h
  have hbare : (Classifier.mk defaultWrappers memoSource).isWrapped memoCall = true := by decide +kernel
  cases h with
  | stray hb _ => exact absurd hb.comment (by decide)
  | keep hc _ => exact ⟨_, hc.1, hc.2, hc.2.wrapped.trans hbare⟩

end Classifier

end DocAtlas
