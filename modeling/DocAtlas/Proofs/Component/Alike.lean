/-
What is decided alike in trees that differ by comments. The classifier reads only the words of
callees, so paired nodes with the same words are components both or neither; the contract of a
function reads only names, numbers and strings in it, so it is the same where these are.
-/
import DocAtlas.Component.Contract
import DocAtlas.Component.Classifier
import DocAtlas.Proofs.Tree.Woven

namespace DocAtlas

/-- The words the classifier reads at a node are the same in both sources. -/
structure SameWords (src src' : Text) (n n' : Node) : Prop where
  identifier : n.shape = .identifier → n'.text src' = n.text src
  property : n.shape = .member → ∀ p p', n.child? "property" = some p → n'.child? "property" = some p' →
    p'.text src' = p.text src

namespace Node.Pairing

variable {R : Node → Node → Prop} (h : Pairing R) {src src' : Text} {n n' : Node}

include h

/-- The parts of paired functions. -/
theorem functionParts? (hn : R n n') :
    Option.Rel (fun f f' => R f.body f'.body ∧
      List.Forall₂ R f.params f'.params) n.functionParts? n'.functionParts? := by
  unfold Node.functionParts?
  rw [h.isFunction hn]
  split
  · have hbody := h.child? hn "body"
    have hparam := h.child? hn "parameter"
    have hparams := h.child? hn "parameters"
    generalize n.child? "body" = body at hbody
    generalize n'.child? "body" = body' at hbody
    generalize n.child? "parameter" = param at hparam
    generalize n'.child? "parameter" = param' at hparam
    generalize n.child? "parameters" = params at hparams
    generalize n'.child? "parameters" = params' at hparams
    cases hbody with
    | none => exact .none
    | some hb =>
      refine .some ⟨hb, ?_⟩
      cases hparam with
      | some hp => exact .cons hp .nil
      | none =>
        cases hparams with
        | none => exact .nil
        | some hp => exact h.proper hp
  · exact .none

section Words

variable (hw : ∀ n n', R n n' → SameWords src src' n n')

include hw

theorem calleeName (hn : R n n') : n.calleeName src = n'.calleeName src' := by
  unfold Node.calleeName
  have hcallee := rel_bind (h.child? hn "function") fun a _ b hab => h.stripParens? hab
  generalize (n.child? "function").bind Node.stripParens? = o at hcallee
  generalize (n'.child? "function").bind Node.stripParens? = o' at hcallee
  cases hcallee with
  | none => rfl
  | @some callee callee' hc =>
    simp only
    rw [h.shape hc]
    have words := hw _ _ hc
    split
    · rename_i hs
      exact (words.identifier hs).symm
    · rename_i hs
      have hobj := h.child? hc "object"
      have hprop := h.child? hc "property"
      have hpw := words.property hs
      generalize callee.child? "object" = obj at hobj
      generalize callee'.child? "object" = obj' at hobj
      generalize callee.child? "property" = prop at hprop hpw
      generalize callee'.child? "property" = prop' at hprop hpw
      cases hobj with
      | none => cases hprop <;> rfl
      | some hobj =>
        cases hprop with
        | none => rfl
        | some hprop =>
          simp only
          rw [h.shape hobj]
          split
          · rename_i hid
            rw [(hw _ _ hobj).identifier (beq_iff_eq.1 hid), hpw _ _ rfl rfl]
          · rfl
    · rfl

end Words

end Node.Pairing

namespace Classifier

variable {R : Node → Node → Prop} (h : Node.Pairing R) {k k' : Classifier} (hwr : k'.wrappers = k.wrappers)
  (hw : ∀ n n', R n n' → SameWords k.src k'.src n n') {n n' : Node}

include h

theorem firstArgument?_rel (hn : R n n') : Option.Rel R (firstArgument? n) (firstArgument? n') := by
  unfold firstArgument?
  refine rel_bind (rel_bind (h.child? hn "arguments") fun a _ b hab => h.firstProper? hab) fun a _ b hab => ?_
  exact h.stripParens? hab

include hwr hw

theorem isWrapperCall_eq (hn : R n n') : k.isWrapperCall n = k'.isWrapperCall n' := by
  unfold isWrapperCall
  rw [h.shape hn, h.calleeName hw hn, hwr]

/-- Paired nodes are accepted by all four searches with the same number of steps. -/
structure SameWithin (R : Node → Node → Prop) (k k' : Classifier) (fuel : Nat) : Prop where
  component : ∀ {n n'}, R n n' → k.componentWithin fuel n = k'.componentWithin fuel n'
  wrapped : ∀ {n n'}, R n n' → k.wrappedWithin fuel n = k'.wrappedWithin fuel n'
  returns : ∀ {n n'}, R n n' → k.returnsWithin fuel n = k'.returnsWithin fuel n'
  arm : ∀ {n n'}, R n n' → k.armWithin fuel n = k'.armWithin fuel n'

section Step

variable {fuel : Nat} (ih : SameWithin R k k' fuel)

include ih

omit hwr hw in
theorem statements_eq (hn : R n n') :
    (n.proper.any fun s => k.returnsWithin fuel s) = n'.proper.any fun s => k'.returnsWithin fuel s :=
  any_eq_of_forall₂ (h.proper hn) fun _ _ _ hab => ih.returns hab

omit hwr hw in
theorem componentWithin_step (hn : R n n') : k.componentWithin (fuel + 1) n = k'.componentWithin (fuel + 1) n' := by
  rw [componentWithin, componentWithin]
  have hparts := h.functionParts? hn
  generalize n.functionParts? = f at hparts
  generalize n'.functionParts? = f' at hparts
  cases hparts with
  | none => rfl
  | @some f f' hf =>
    have hexpr : f.hasExprBody = f'.hasExprBody := by
      unfold FunctionParts.hasExprBody
      rw [h.shape hf.1]
    simp only
    rw [hexpr, h.isMarkup hf.1, ih.wrapped hf.1, statements_eq h ih hf.1]

theorem wrappedWithin_step (hn : R n n') : k.wrappedWithin (fuel + 1) n = k'.wrappedWithin (fuel + 1) n' := by
  rw [wrappedWithin, wrappedWithin]
  have hcall := h.stripParens? hn
  generalize n.stripParens? = c at hcall
  generalize n'.stripParens? = c' at hcall
  cases hcall with
  | none => rfl
  | @some call call' hc =>
    simp only
    rw [isWrapperCall_eq h hwr hw hc]
    congr 1
    have harg := firstArgument?_rel h hc
    generalize firstArgument? call = a at harg
    generalize firstArgument? call' = a' at harg
    cases harg with
    | none => rfl
    | some ha =>
      simp only
      rw [h.isFunction ha, ih.component ha, h.shape ha, ih.wrapped ha]

omit hwr hw in
theorem returnsWithin_step (hn : R n n') : k.returnsWithin (fuel + 1) n = k'.returnsWithin (fuel + 1) n' := by
  rw [returnsWithin, returnsWithin, h.shape hn]
  have hchild : ∀ f, (n.child? f).any (k.armWithin fuel ·) = (n'.child? f).any (k'.armWithin fuel ·) := fun f =>
    any_eq_of_rel (h.child? hn f) fun _ _ _ hab => ih.arm hab
  have hfirst := h.firstProper? hn
  have hbody := h.child? hn "body"
  generalize n.firstProper? = e at hfirst
  generalize n'.firstProper? = e' at hfirst
  generalize n.child? "body" = body at hbody
  generalize n'.child? "body" = body' at hbody
  split
  · -- a return statement
    cases hfirst with
    | none => rfl
    | some he => simp only [h.isMarkup he, ih.wrapped he]
  · -- an if statement
    rw [hchild, hchild]
  · -- a loop
    cases hbody with
    | none => rfl
    | some hb => simp only [h.shape hb, statements_eq h ih hb]
  · -- a switch: its clauses, and the statements of each
    cases hbody with
    | none => rfl
    | some hb => exact any_eq_of_forall₂ (h.proper hb) fun _ _ _ hab => statements_eq h ih hab
  · rfl

omit hwr hw in
theorem armWithin_step (hn : R n n') : k.armWithin (fuel + 1) n = k'.armWithin (fuel + 1) n' := by
  rw [armWithin, armWithin, h.shape hn, statements_eq h ih hn, ih.returns hn]
  have hfirst := h.firstProper? hn
  generalize n.firstProper? = e at hfirst
  generalize n'.firstProper? = e' at hfirst
  split
  · rfl
  · -- an else clause
    cases hfirst with
    | none => rfl
    | some he => exact ih.arm he
  · rfl
  · rfl
  · rfl

end Step

theorem within_eq (fuel : Nat) : SameWithin R k k' fuel := by
  induction fuel with
  | zero => constructor <;> simp [componentWithin, wrappedWithin, returnsWithin, armWithin]
  | succ fuel ih =>
    exact ⟨componentWithin_step h ih, wrappedWithin_step h hwr hw ih, returnsWithin_step h ih, armWithin_step h ih⟩

theorem isComponent_eq (hn : R n n') : k.isComponent n = k'.isComponent n' :=
  (within_eq h hwr hw (maxDepth + 1)).component hn

theorem isWrapped_eq (hn : R n n') : k.isWrapped n = k'.isWrapped n' :=
  (within_eq h hwr hw (maxDepth + 1)).wrapped hn

end Classifier

/-! ## Words -/

namespace Node

/-- The kinds of names, numbers and strings. -/
def wordKinds : List String :=
  ["identifier", "property_identifier", "private_property_identifier", "shorthand_property_identifier",
    "shorthand_property_identifier_pattern", "number", "string"]

/-- Whether a node is a name, a number or a string. -/
def isWord (n : Node) : Bool := wordKinds.contains n.kind

theorem isWord_of_kind {n : Node} (h : n.kind ∈ wordKinds) : n.isWord = true := List.contains_iff_mem.2 h

theorem kind_of_identifier {n : Node} (h : n.shape = .identifier) : n.kind = "identifier" := by
  unfold shape Shape.ofKind at h
  split at h <;> first | assumption | cases h

theorem kind_of_string {n : Node} (h : n.shape = .string) : n.kind = "string" := by
  unfold shape Shape.ofKind at h
  split at h <;> first | assumption | cases h

theorem isWord_of_identifier {n : Node} (h : n.shape = .identifier) : n.isWord = true :=
  isWord_of_kind (by simp [kind_of_identifier h, wordKinds])

theorem isWord_of_string {n : Node} (h : n.shape = .string) : n.isWord = true :=
  isWord_of_kind (by simp [kind_of_string h, wordKinds])

end Node

/-! ## Contracts -/

section Contracts

variable {R : Node → Node → Prop} (h : Node.Pairing R) {src src' : Text}
  (ht : ∀ n n', R n n' → n.isWord = true → n'.text src' = n.text src) {n n' : Node}

include h ht

theorem stringContent?_eq (hn : R n n') : n'.stringContent? src' = n.stringContent? src := by
  unfold Node.stringContent?
  rw [h.shape hn]
  split
  · rename_i hs
    rw [ht n n' hn (Node.isWord_of_string (beq_iff_eq.1 hs))]
  · rfl

namespace PropUse

theorem keyOf?_eq (hn : R n n') : keyOf? n' src' = keyOf? n src := by
  unfold keyOf?
  rw [h.kind hn, stringContent?_eq h ht hn]
  have hfirst := h.firstProper? hn
  generalize n.firstProper? = e at hfirst
  generalize n'.firstProper? = e' at hfirst
  have hword := ht n n' hn
  split
  case h_1 hk | h_2 hk | h_3 hk => rw [hword (Node.isWord_of_kind (by simp [hk, Node.wordKinds]))]
  · rfl
  · cases hfirst with
    | none => rfl
    | some he => simp only [Option.bind_some, stringContent?_eq h ht he]
  · rfl

theorem ofProperty?_eq (hn : R n n') : ofProperty? src' n' = ofProperty? src n := by
  unfold ofProperty?
  rw [h.kind hn]
  have hword := ht n n' hn
  have hkey := h.child? hn "key"
  have hleft := h.child? hn "left"
  have hfirst := h.firstProper? hn
  generalize n.child? "key" = key at hkey
  generalize n'.child? "key" = key' at hkey
  generalize n.child? "left" = left at hleft
  generalize n'.child? "left" = left' at hleft
  generalize n.firstProper? = e at hfirst
  generalize n'.firstProper? = e' at hfirst
  split
  · rename_i hk
    rw [hword (Node.isWord_of_kind (by simp [hk, Node.wordKinds]))]
  · cases hkey with
    | none => rfl
    | some hk => simp only [Option.bind_some, keyOf?_eq h ht hk]
  · cases hleft with
    | none => rfl
    | some hl =>
      simp only [h.kind hl]
      split
      · rename_i hk
        rw [ht _ _ hl (Node.isWord_of_kind (by simp [beq_iff_eq.1 hk, Node.wordKinds]))]
      · rfl
  · cases hfirst with
    | none => rfl
    | some he =>
      simp only [h.shape he]
      split
      · rename_i hs
        rw [ht _ _ he (Node.isWord_of_identifier (beq_iff_eq.1 hs))]
      · rfl
  · rfl

theorem ofPattern_eq (hn : R n n') : ofPattern src' n' = ofPattern src n := by
  unfold ofPattern
  have hrel := h.proper hn
  generalize n.proper = l at hrel
  generalize n'.proper = l' at hrel
  induction hrel with
  | nil => rfl
  | cons hab _ ih => rw [List.filterMap_cons, List.filterMap_cons, ofProperty?_eq h ht hab, ih]

theorem isParam_eq (hn : R n n') (param : Text) : isParam src' param n' = isParam src param n := by
  unfold isParam
  rw [h.shape hn]
  by_cases hs : n.shape = .identifier
  · rw [ht n n' hn (Node.isWord_of_identifier hs)]
  · rw [beq_false_of_ne hs, Bool.false_and, Bool.false_and]

theorem destructured?_rel (hn : R n n') (param : Text) :
    Option.Rel R (destructured? src param n) (destructured? src' param n') := by
  unfold destructured?
  rw [h.shape hn]
  split
  · have hvalue := rel_bind (h.child? hn "value") fun a _ b hab => h.stripParens? hab
    have hname := h.child? hn "name"
    generalize (n.child? "value").bind Node.stripParens? = value at hvalue
    generalize (n'.child? "value").bind Node.stripParens? = value' at hvalue
    generalize n.child? "name" = name at hname
    generalize n'.child? "name" = name' at hname
    cases hvalue with
    | none => cases hname <;> exact .none
    | some hv =>
      cases hname with
      | none => exact .none
      | some hp =>
        simp only
        rw [isParam_eq h ht hv, h.shape hp]
        split
        · exact .some hp
        · exact .none
  · exact .none

theorem ofAccess?_eq (hn : R n n') (param : Text) : ofAccess? src' param n' = ofAccess? src param n := by
  unfold ofAccess?
  rw [h.shape hn]
  have hobj := h.child? hn "object"
  have hprop := h.child? hn "property"
  have hindex := h.child? hn "index"
  have hfirst := h.firstProper? hn
  generalize n.child? "object" = obj at hobj
  generalize n'.child? "object" = obj' at hobj
  generalize n.child? "property" = prop at hprop
  generalize n'.child? "property" = prop' at hprop
  generalize n.child? "index" = index at hindex
  generalize n'.child? "index" = index' at hindex
  generalize n.firstProper? = e at hfirst
  generalize n'.firstProper? = e' at hfirst
  split
  · cases hobj with
    | none => cases hprop <;> rfl
    | some ho =>
      cases hprop with
      | none => rfl
      | some hp =>
        simp only [isParam_eq h ht ho, h.kind hp]
        split
        · rename_i hk
          rw [Bool.and_eq_true, beq_iff_eq] at hk
          rw [ht _ _ hp (Node.isWord_of_kind (by simp [hk.2, Node.wordKinds]))]
        · rfl
  · cases hobj with
    | none => cases hindex <;> rfl
    | some ho =>
      cases hindex with
      | none => rfl
      | some hi => simp only [isParam_eq h ht ho, stringContent?_eq h ht hi]
  · cases hfirst with
    | none => rfl
    | some he => simp only [isParam_eq h ht he]
  · rfl

theorem ofDestructuring_eq (hn : R n n') (param : Text) :
    ofDestructuring src' param n' = ofDestructuring src param n := by
  unfold ofDestructuring
  have hrel := (h.namedPreorder hn).filterMap (f := destructured? src param) (g := destructured? src' param)
    (fun b hb => by simp [destructured?, hb.shape]) fun a _ b hab => destructured?_rel h ht hab param
  generalize n.namedPreorder.filterMap _ = l at hrel
  generalize n'.namedPreorder.filterMap _ = l' at hrel
  induction hrel with
  | nil => rfl
  | cons hab _ ih => rw [List.flatMap_cons, List.flatMap_cons, ofPattern_eq h ht hab, ih]

theorem ofBody_eq (hn : R n n') (param : Text) : ofBody src' param n' = ofBody src param n := by
  unfold ofBody
  have hrel : List.Forall₂ Eq (n.namedPreorder.filterMap (ofAccess? src param))
      (n'.namedPreorder.filterMap (ofAccess? src' param)) := by
    refine (h.namedPreorder hn).filterMap (fun b hb => by simp [ofAccess?, hb.shape]) fun a _ b hab => ?_
    rw [ofAccess?_eq h ht hab]
    cases ofAccess? src param a with
    | none => exact .none
    | some u => exact .some rfl
  rw [List.forall₂_eq_eq_eq] at hrel
  exact hrel.symm

end PropUse

namespace Contract

theorem usesOf_eq {body body' : Node} (hn : R n n') (hb : R body body') : usesOf src' n' body' = usesOf src n body := by
  unfold usesOf
  rw [h.shape hn, PropUse.ofPattern_eq h ht hn]
  simp only [PropUse.ofDestructuring_eq h ht hb, PropUse.ofBody_eq h ht hb]
  split
  · rename_i hs
    rw [ht n n' hn (Node.isWord_of_identifier hs)]
  · rfl
  · rfl

/-- Paired functions with the same words have one contract. -/
theorem ofFunction_eq (hn : R n n') : ofFunction src' n' = ofFunction src n := by
  unfold ofFunction
  have hparts := h.functionParts? hn
  generalize n.functionParts? = f at hparts
  generalize n'.functionParts? = f' at hparts
  cases hparts with
  | none => rfl
  | @some f f' hf =>
    simp only
    have hpattern : Option.Rel R (f.params.head?.bind Node.bindingPattern?)
      (f'.params.head?.bind Node.bindingPattern?) := by
      have hparams := hf.2
      generalize f.params = l at hparams
      generalize f'.params = l' at hparams
      cases hparams with
      | nil => exact .none
      | cons hab _ => exact h.bindingPattern? hab
    generalize f.params.head?.bind Node.bindingPattern? = p at hpattern
    generalize f'.params.head?.bind Node.bindingPattern? = p' at hpattern
    cases hpattern with
    | none => rfl
    | some hp => simp only [usesOf_eq h ht hp hf.1]

end Contract

end Contracts

end DocAtlas
