/-
What the mark of a rest is worth. A captured rest and a key are entries of one set, told apart by their first
bytes alone. An entry that was recorded as a rest is one when it is looked at again; a key that begins with
the mark is taken for a rest as well, and such a key can be written as a string literal. Nothing else goes
wrong: a contract says of the rest and the keys what the code says exactly if no key that is read begins with
the mark.
-/
import DocAtlas.Proofs.Component.Inference
import DocAtlas.Proofs.Doc.Closing
import DocAtlas.Component.Survey

namespace DocAtlas

/-! ## Prop sets -/

namespace PropSet

variable {s : PropSet}

theorem WF.add (h : s.WF) (k : Text) : (s.add k).WF := by
  unfold PropSet.add
  split
  · exact h
  · rename_i hnew
    simp only [Bool.or_eq_true, not_or, has, List.contains_iff_mem, List.isEmpty_iff] at hnew
    refine ⟨?_, ?_⟩
    · rw [List.nodup_append]
      refine ⟨h.nodup, List.nodup_singleton k, ?_⟩
      rintro a ha b hb rfl
      exact hnew.2 (List.mem_singleton.1 hb ▸ ha)
    · rw [List.mem_append, not_or, List.mem_singleton]
      exact ⟨h.nonempty, Ne.symm hnew.1⟩

theorem WF.addRest (h : s.WF) (name : Text) : (s.addRest name).WF := by
  unfold PropSet.addRest
  split
  · exact h
  · exact h.add _

theorem WF.nodup_plain (h : s.WF) : s.plain.Nodup := h.nodup.filter _

end PropSet

namespace Contract

variable (src : Text) (n : Node)

theorem wf_use {c : Contract} (h : c.props.WF) (u : PropUse) : (c.use u).props.WF := by
  cases u with
  | key name => exact h.add name
  | rest name =>
    cases name with
    | none => exact h
    | some name => exact h.addRest name
  | spread => exact h

theorem wf_foldl_use {c : Contract} (h : c.props.WF) (uses : List PropUse) : (uses.foldl use c).props.WF := by
  induction uses generalizing c with
  | nil => exact h
  | cons u uses ih => exact ih (wf_use h u)

/-! ## What the code says of a function -/

/-- The pattern that the first parameter of a function binds, and the body. -/
def opened? : Option (Node × Node) :=
  n.functionParts?.bind fun f => (f.params.head?.bind Node.bindingPattern?).map fun pattern => (pattern, f.body)

/-- The patterns that take the parameter apart. -/
def analysed : List Node := (opened? n).elim [] fun (pattern, body) => patterns src pattern body

/-- The keys that the patterns list and that are read from the parameter. -/
def keysRead : List Text := (opened? n).elim [] fun (pattern, body) =>
  patternKeys src (patterns src pattern body) ++ keyReads src (paramName src pattern) body

/-- A contract is built from uses that are the keys and the rests of the code. -/
theorem ofFunction_eq_foldl : ∃ (param : Text) (uses : List PropUse),
    ofFunction src n = uses.foldl use { empty with param } ∧ uses.filterMap PropUse.key? = keysRead src n ∧
      uses.filterMap PropUse.restName? = restBindings src (analysed src n) := by
  have hopened : ∀ f, n.functionParts? = some f →
      opened? n = (f.params.head?.bind Node.bindingPattern?).map fun pattern => (pattern, f.body) := by
    intro f hf
    rw [opened?, hf, Option.bind_some]
  unfold keysRead analysed
  cases hf : n.functionParts? with
  | none =>
    have hnone : opened? n = none := by rw [opened?, hf, Option.bind_none]
    refine ⟨empty.param, [], ?_, by rw [hnone]; rfl, by rw [hnone]; rfl⟩
    simp only [ofFunction, hf, List.foldl_nil]
  | some f =>
    rw [hopened f hf]
    cases hb : f.params.head?.bind Node.bindingPattern? with
    | none =>
      refine ⟨empty.param, [], ?_, rfl, rfl⟩
      simp only [ofFunction, hf, hb, List.foldl_nil]
    | some pattern =>
      refine ⟨paramName src pattern, (patterns src pattern f.body).flatMap (PropUse.ofPattern src) ++
        PropUse.ofBody src (paramName src pattern) f.body, ?_, ?_, ?_⟩
      · simp only [ofFunction, hf, hb, usesOf_eq_append]
      · rw [List.filterMap_append, List.filterMap_flatMap, PropUse.keys_ofBody]
        simp only [PropUse.keys_ofPattern]
        rfl
      · rw [List.filterMap_append, List.filterMap_flatMap, PropUse.rests_ofBody, List.append_nil]
        simp only [PropUse.rests_ofPattern]
        rfl

theorem wf_ofFunction : (ofFunction src n).props.WF := by
  obtain ⟨param, uses, heq, -, -⟩ := ofFunction_eq_foldl src n
  rw [heq]
  exact wf_foldl_use ⟨List.nodup_nil, List.not_mem_nil⟩ uses

/-! ## Nothing forged -/

/-- The block has a line for the key and no second one among those of the props. -/
def HasLine (facts : Doc.Facts) (k : Text) : Prop :=
  ∀ stamp, ∃ first last, k ∉ first ++ last ∧
  Doc.propLines facts.shownParam (first ++ k :: last) <:+: Doc.render facts stamp

/-- The contract of a function says what the code says: the rest is the first that a pattern captures under a
name, and every key that is read counts as one, with a line of its own in every block. -/
structure Unforged : Prop where
  rest : (ofFunction src n).props.rest? = (restBindings src (analysed src n)).head?
  plain : ∀ k ∈ keysRead src n, k ≠ [] → k ∈ (ofFunction src n).props.plain
  line : ∀ k ∈ keysRead src n, k ≠ [] → ∀ info : ComponentInfo, info.contract = ofFunction src n →
    HasLine (Survey.factsOf info) k

theorem hasLine_of_mem_plain {info : ComponentInfo} {k : Text} (hwf : info.contract.props.WF)
    (hk : k ∈ info.contract.props.plain) : HasLine (Survey.factsOf info) k := by
  intro stamp
  obtain ⟨first, last, hplain⟩ := List.append_of_mem hk
  have hnodup := hwf.nodup_plain
  rw [hplain, List.nodup_middle, List.nodup_cons] at hnodup
  have hprops : Doc.plainProps (Survey.factsOf info).props = first ++ k :: last := hplain
  have hright : ∀ {lines : Text} (t u : Text), lines <:+: u → lines <:+: t ++ u :=
    fun t u h => h.trans (List.suffix_append t u).isInfix
  refine ⟨first, last, hnodup.1, ?_⟩
  rw [Doc.render_eq, hprops]
  -- eight pieces stand before the lines of the props
  iterate 8 refine hright _ _ ?_
  exact (List.prefix_append _ _).isInfix

/-- A contract says what the code says exactly if no key that is read begins with the mark of a rest. The first
captured rest has a name in every tree that was read off its source without a fault. -/
theorem unforged_iff : Unforged src n ↔ (∀ k ∈ keysRead src n, ¬ PropSet.IsMarked k) ∧
    (restBindings src (analysed src n)).head? ≠ some [] := by
  obtain ⟨param, uses, heq, hkeys, hrests⟩ := ofFunction_eq_foldl src n
  constructor
  · -- a key with the mark is kept, but not as a key
    intro h
    have hmarked : ∀ k ∈ keysRead src n, ¬ PropSet.IsMarked k := by
      intro k hk hmark
      have hne : k ≠ [] := by
        rintro rfl
        exact absurd hmark (by decide)
      exact ((PropSet.mem_plain _).1 (h.plain k hk hne)).2 hmark
    refine ⟨hmarked, fun hhead => ?_⟩
    have hrest := h.rest
    rw [heq, rest?_foldl_use param uses (by rwa [hkeys]), hhead] at hrest
    have hnamed := List.find?_some hrest
    simp at hnamed
  · -- without such keys only rests have the mark, so they are found in the order of their capture
    rintro ⟨hmarked, hhead⟩
    have hplain : ∀ k ∈ keysRead src n, k ≠ [] → k ∈ (ofFunction src n).props.plain := by
      intro k hk hne
      rw [heq, plain_foldl_use param uses (by rwa [hkeys]), hkeys, List.mem_eraseDups, List.mem_filter]
      exact ⟨hk, by simpa using hne⟩
    refine ⟨?_, hplain, fun k hk hne info hinfo => ?_⟩
    · rw [heq, rest?_foldl_use param uses (by rwa [hkeys]), hrests]
      cases hbindings : restBindings src (analysed src n) with
      | nil => rfl
      | cons r rs =>
        rw [hbindings] at hhead
        exact List.find?_cons_of_pos (by simpa using hhead)
    · refine hasLine_of_mem_plain ?_ ?_
      · rw [hinfo]
        exact wf_ofFunction src n
      · rw [hinfo]
        exact hplain k hk hne

/-- `({ "...x": a }) => <a/>` -/
def forgedText : Text := "(\x7b \"...x\": a \x7d) => <a/>"

/-- A key that begins with the mark of a rest. -/
def forged : Node :=
  .named "arrow_function" none 0 23
    [.named "formal_parameters" (some "parameters") 0 15
      [.token "(" 0 1,
        .named "object_pattern" none 1 14
          [.token "\x7b" 1 2,
            .named "pair_pattern" none 3 12
              [.named "string" (some "key") 3 9
                [.token "\"" 3 4, .named "string_fragment" none 4 8 [], .token "\"" 8 9],
                .token ":" 9 10, .named "identifier" (some "value") 11 12 []],
            .token "\x7d" 13 14],
        .token ")" 14 15],
      .token "=>" 16 18,
      .named "jsx_self_closing_element" (some "body") 19 23
        [.token "<" 19 20, .named "identifier" (some "name") 20 21 [], .token "/>" 21 23]]

/-- The key is taken for a captured rest, which the code has none of. -/
theorem forged_rest : ¬ ∀ (src : Text) (n : Node), Unforged src n := by
  intro h
  have hrest := (h forgedText forged).rest
  have hnone : (restBindings forgedText (analysed forgedText forged)).head? = none := by decide +kernel
  have hforged : (ofFunction forgedText forged).props.rest? = some "x" := by decide +kernel
  rw [hforged, hnone] at hrest
  cases hrest

end Contract

end DocAtlas
