/-
What is inferred of the props of a component, said by what stands in its code. The keys are those
that the patterns of the first parameter list and then those read from it by name, each where it
first occurs; the captured rest is the first one with a name; and further props are accepted exactly
if a pattern captures the rest or the body spreads the parameter.

A contract is built by adding one use after another. An entry of a prop set is a key or a captured
rest by its first bytes alone, so all of this needs that no key of the code begins with the mark of
a rest.

The patterns come in the order of the document, and a pattern gives all its keys before the next. A
pattern can stand inside another, as part of a default value. The keys then do not come in the order
in which they stand; the last section has such a function.
-/
import DocAtlas.Component.Contract
import DocAtlas.Proofs.Text.Pieces
import DocAtlas.Proofs.Tree.Nodes

namespace DocAtlas

/-! ## Prop sets -/

namespace PropSet

variable (s : PropSet)

/-- The mark of a captured rest stands before the text. -/
def IsMarked (k : Text) : Prop := Doc.restMark <+: k

instance (k : Text) : Decidable (IsMarked k) := inferInstanceAs (Decidable (_ <+: _))

theorem mem_plain {k : Text} : k ∈ s.plain ↔ k ∈ s.keys ∧ ¬ IsMarked k := by
  simp [plain, Doc.plainProps, IsMarked, ← List.isPrefixOf_iff_prefix]

theorem plain_append (keys : List Text) (k : Text) :
    (⟨keys ++ [k]⟩ : PropSet).plain = (⟨keys⟩ : PropSet).plain ++ if IsMarked k then [] else [k] := by
  have hmark : Doc.restMark.isPrefixOf k = decide (IsMarked k) := by
    rw [Bool.eq_iff_iff, List.isPrefixOf_iff_prefix, decide_eq_true_iff, IsMarked]
  unfold plain Doc.plainProps
  rw [List.filter_append]
  by_cases h : IsMarked k <;> simp [h, hmark]

theorem rest?_append (keys : List Text) (k : Text) :
    (⟨keys ++ [k]⟩ : PropSet).rest? = (⟨keys⟩ : PropSet).rest?.or (Text.dropPrefix? Doc.restMark k) := by
  unfold rest?
  rw [List.findSome?_append]
  cases h : Text.dropPrefix? Doc.restMark k <;> simp [h]

/-- A key that is added comes last, unless it is empty or already there. -/
theorem plain_add {k : Text} (hk : ¬ IsMarked k) :
    (s.add k).plain = if k = [] ∨ k ∈ s.plain then s.plain else s.plain ++ [k] := by
  have hhas : s.has k = true ↔ k ∈ s.plain := by simp [has, s.mem_plain, hk]
  unfold add
  by_cases hadd : k = [] ∨ k ∈ s.plain
  · rw [if_pos hadd, if_pos (by simpa [hhas] using hadd)]
  · rw [if_neg hadd, if_neg (by simpa [hhas] using hadd), plain_append, if_neg hk]

theorem rest?_add {k : Text} (hk : ¬ IsMarked k) : (s.add k).rest? = s.rest? := by
  have hnone : Text.dropPrefix? Doc.restMark k = none := by
    by_contra h
    obtain ⟨u, hu⟩ := Option.ne_none_iff_exists'.1 h
    exact hk ⟨u, (Text.dropPrefix?_eq_some.1 hu).symm⟩
  unfold add
  split
  · rfl
  · rw [rest?_append, hnone, Option.or_none]

/-- A set without a captured rest takes one. -/
theorem addRest_eq {name : Text} (hs : s.rest? = none) (hn : name ≠ []) :
    s.addRest name = ⟨s.keys ++ [Doc.restMark ++ name]⟩ := by
  have hnew : s.has (Doc.restMark ++ name) = false := by
    rw [← Bool.not_eq_true]
    intro h
    unfold rest? at hs
    rw [List.findSome?_eq_none_iff] at hs
    have := hs _ (List.contains_iff_mem.1 h)
    rw [Text.dropPrefix?_eq_some.2 rfl] at this
    cases this
  have hne : (Doc.restMark ++ name).isEmpty = false := by simp [Doc.restMark, hn]
  unfold addRest add
  rw [hs, if_neg (by simpa using hn), if_neg (by simp [hnew, hne])]

theorem plain_addRest (name : Text) : (s.addRest name).plain = s.plain := by
  by_cases h : s.rest?.isSome || name.isEmpty
  · unfold addRest
    rw [if_pos h]
  · simp only [Bool.or_eq_true, not_or, Bool.not_eq_true, Option.isSome_eq_false_iff, Option.isNone_iff_eq_none] at h
    have hmark : IsMarked (Doc.restMark ++ name) := List.prefix_append _ _
    rw [s.addRest_eq h.1 (by simpa using h.2), plain_append, if_pos hmark, List.append_nil]

/-- The first rest with a name stays. -/
theorem rest?_addRest (name : Text) : (s.addRest name).rest? = s.rest?.or (if name = [] then none else some name) := by
  cases hs : s.rest? with
  | some r => simp [addRest, hs]
  | none =>
    by_cases hn : name = []
    · simp [addRest, hn, hs]
    · rw [s.addRest_eq hs hn, rest?_append, Text.dropPrefix?_eq_some.2 rfl, if_neg hn]
      change s.rest?.or _ = _
      rw [hs]

end PropSet

/-! ## Uses one after another -/

namespace PropUse

/-- The key that is read. -/
def key? : PropUse → Option Text
  | key name => some name
  | _ => none

/-- The name under which the rest is captured. -/
def restName? : PropUse → Option Text
  | rest name => name
  | _ => none

/-- Whether the use is of all props that are not listed. -/
def opens : PropUse → Bool
  | key _ => false
  | _ => true

end PropUse

namespace Contract

variable (c : Contract)

theorem param_foldl_use (uses : List PropUse) : (uses.foldl use c).param = c.param := by
  induction uses generalizing c with
  | nil => rfl
  | cons u uses ih =>
    rw [List.foldl_cons, ih]
    cases u with
    | rest name => cases name <;> rfl
    | _ => rfl

theorem spread_foldl_use (uses : List PropUse) :
    (uses.foldl use c).spread = (c.spread || uses.any PropUse.opens) := by
  induction uses generalizing c with
  | nil => simp
  | cons u uses ih =>
    rw [List.foldl_cons, ih, List.any_cons, ← Bool.or_assoc]
    congr 1
    cases u with
    | key name => simp [use, PropUse.opens]
    | rest name => cases name <;> simp [use, PropUse.opens]
    | spread => simp [use, PropUse.opens]

theorem eraseDups_concat (l : List Text) (k : Text) :
    (l ++ [k]).eraseDups = if k ∈ l.eraseDups then l.eraseDups else l.eraseDups ++ [k] := by
  rw [List.eraseDups_append]
  by_cases h : k ∈ l <;> simp [List.removeAll, h, List.eraseDups_cons]

/-- Of a set's keys those that name a prop are the keys read, each at its first occurrence. -/
theorem plain_foldl_use (param : Text) (uses : List PropUse)
    (h : ∀ k ∈ uses.filterMap PropUse.key?, ¬ PropSet.IsMarked k) :
    (uses.foldl use { empty with param }).props.plain = ((uses.filterMap PropUse.key?).filter (· ≠ [])).eraseDups := by
  induction uses using List.reverseRecOn with
  | nil => rfl
  | append_singleton uses u ih =>
    rw [List.filterMap_append] at h
    have ih := ih fun k hk => h k (List.mem_append_left _ hk)
    rw [List.foldl_concat, List.filterMap_append, List.filter_append]
    cases u with
    | key k =>
      have hk : ¬ PropSet.IsMarked k := h k (List.mem_append_right _ (by simp [PropUse.key?]))
      change ((uses.foldl use _).props.add k).plain = _
      rw [PropSet.plain_add _ hk, ih]
      by_cases hne : k = []
      · simp [PropUse.key?, hne]
      · simp [PropUse.key?, hne, eraseDups_concat]
    | rest name =>
      simp only [List.filterMap_cons, PropUse.key?, List.filterMap_nil, List.filter_nil, List.append_nil, ← ih]
      cases name with
      | none => rfl
      | some n => exact PropSet.plain_addRest _ n
    | spread =>
      simp only [List.filterMap_cons, PropUse.key?, List.filterMap_nil, List.filter_nil, List.append_nil, ← ih]
      rfl

/-- The captured rest is the first that has a name. -/
theorem rest?_foldl_use (param : Text) (uses : List PropUse)
    (h : ∀ k ∈ uses.filterMap PropUse.key?, ¬ PropSet.IsMarked k) :
    (uses.foldl use { empty with param }).props.rest? = (uses.filterMap PropUse.restName?).find? (· ≠ []) := by
  induction uses using List.reverseRecOn with
  | nil => rfl
  | append_singleton uses u ih =>
    rw [List.filterMap_append] at h
    have ih := ih fun k hk => h k (List.mem_append_left _ hk)
    rw [List.foldl_concat, List.filterMap_append, List.find?_append]
    cases u with
    | key k =>
      have hk : ¬ PropSet.IsMarked k := h k (List.mem_append_right _ (by simp [PropUse.key?]))
      change ((uses.foldl use _).props.add k).rest? = _
      rw [PropSet.rest?_add _ hk, ih]
      simp [PropUse.restName?]
    | rest name =>
      cases name with
      | none =>
        change (uses.foldl use _).props.rest? = _
        rw [ih]
        simp [PropUse.restName?]
      | some n =>
        change ((uses.foldl use _).props.addRest n).rest? = _
        rw [PropSet.rest?_addRest, ih]
        by_cases hn : n = [] <;> simp [PropUse.restName?, hn]
    | spread =>
      change (uses.foldl use _).props.rest? = _
      rw [ih]
      simp [PropUse.restName?]

end Contract

/-! ## What stands in the code -/

namespace Node

/-- `p.Binds q`: the parameter `p` without default values and type annotations is the pattern `q`. -/
inductive Binds : Node → Node → Prop
  | annotated {p q r : Node} : p.kind = "required_parameter" ∨ p.kind = "optional_parameter" →
      p.child? "pattern" = some q → Binds q r → Binds p r
  | defaulted {p q r : Node} : p.kind = "assignment_pattern" → p.child? "left" = some q → Binds q r → Binds p r
  | bare {p : Node} : p.kind ≠ "required_parameter" → p.kind ≠ "optional_parameter" →
      p.kind ≠ "assignment_pattern" → Binds p p

theorem binds_of_bindingPattern? (p : Node) : ∀ q, p.bindingPattern? = some q → p.Binds q := by
  induction p using Node.ind with
  | h p ih =>
    intro q h
    rw [bindingPattern?_eq] at h
    split at h
    · rename_i hk
      obtain ⟨c, hc, hq⟩ := Option.bind_eq_some_iff.1 h
      exact .annotated (by simpa using hk) hc (ih c (child?_mem hc) q hq)
    · rename_i hk
      split at h
      · rename_i ha
        obtain ⟨c, hc, hq⟩ := Option.bind_eq_some_iff.1 h
        exact .defaulted (by simpa using ha) hc (ih c (child?_mem hc) q hq)
      · rename_i ha
        cases h
        simp only [Bool.or_eq_true, beq_iff_eq, not_or] at hk ha
        exact .bare hk.1 hk.2 ha

theorem bindingPattern?_of_binds {p q : Node} (h : p.Binds q) : p.bindingPattern? = some q := by
  induction h with
  | annotated hk hc _ ih => rw [bindingPattern?_eq, if_pos (by simpa using hk), hc]; exact ih
  | defaulted hk hc _ ih => rw [bindingPattern?_eq, if_neg (by simp [hk]), if_pos (by simp [hk]), hc]; exact ih
  | bare h1 h2 h3 => rw [bindingPattern?_eq, if_neg (by simp [h1, h2]), if_neg (by simp [h3])]

variable (src param : Text) (n : Node)

/-- The key a property of a pattern lists: `k`, `k: x` or `k = x`. -/
def listedKey? : Option Text :=
  if n.kind = "shorthand_property_identifier_pattern" then some (n.text src)
  else if n.kind = "pair_pattern" then (n.child? "key").bind fun k => PropUse.keyOf? k src
  else if n.kind = "object_assignment_pattern" then
    ((n.child? "left").filter fun l => l.kind == "shorthand_property_identifier_pattern").map fun l => l.text src
  else none

/-- A property that captures the rest: `...r`. -/
def isRest : Bool := n.kind == "rest_pattern"

/-- The name under which a property captures the rest. -/
def restBinding? : Option Text :=
  if n.isRest then (n.firstProper?.filter fun r => r.shape == .identifier).map fun r => r.text src else none

/-- The key a node reads from the parameter: `param.k`, `param?.k` or `param["k"]`. -/
def readKey? : Option Text :=
  if (n.child? "object").any (PropUse.isParam src param) then
    match n.shape with
    | .member => ((n.child? "property").filter fun p => p.kind == "property_identifier").map fun p => p.text src
    | .subscript => (n.child? "index").bind fun i => i.stringContent? src
    | _ => none
  else none

/-- The node spreads the parameter: `...param`. -/
def spreads : Bool := n.shape == .spread && n.firstProper?.any (PropUse.isParam src param)

/-- The pattern of a declarator whose value is the parameter, in parentheses or not. -/
def openedPattern? : Option Node :=
  if n.shape = .declarator ∧ ((n.child? "value").bind stripParens?).any (PropUse.isParam src param) then
    (n.child? "name").filter fun p => p.shape == .objectPattern
  else none

end Node

namespace PropUse

variable {src param : Text}

/-- A property lists a key or captures the rest. -/
theorem ofProperty?_eq_or (n : Node) : ofProperty? src n =
    ((n.listedKey? src).map key).or (if n.isRest then some (rest (n.restBinding? src)) else none) := by
  unfold ofProperty? Node.listedKey? Node.restBinding? Node.isRest
  split
  · rename_i hk; simp [hk]
  · rename_i hk; simp [hk]
  · rename_i hk
    cases hl : n.child? "left" with
    | none => simp [hk]
    | some l => by_cases h : l.kind = "shorthand_property_identifier_pattern" <;> simp [hk, h, Option.filter]
  · rename_i hk
    cases hr : n.firstProper? with
    | none => simp [hk]
    | some r => by_cases h : r.shape = .identifier <;> simp [hk, h, Option.filter]
  · rename_i h1 h2 h3 h4
    rw [if_neg h1, if_neg h2, if_neg h3, if_neg (by simpa using h4)]
    rfl

/-- An access reads a key of the parameter or spreads it. -/
theorem ofAccess?_eq_or (n : Node) : ofAccess? src param n =
    ((n.readKey? src param).map key).or (if n.spreads src param then some spread else none) := by
  unfold ofAccess? Node.readKey? Node.spreads
  split
  · rename_i hs
    cases ho : n.child? "object" with
    | none => simp [hs]
    | some o =>
      cases hp : n.child? "property" with
      | none => simp [hs]
      | some p =>
        by_cases h : isParam src param o <;> by_cases hk : p.kind = "property_identifier" <;>
          simp [hs, h, hk, Option.filter]
  · rename_i hs
    cases ho : n.child? "object" with
    | none => simp [hs]
    | some o =>
      cases hi : n.child? "index" with
      | none => simp [hs]
      | some i => by_cases h : isParam src param o <;> simp [hs, h]
  · rename_i hs
    cases hf : n.firstProper? with
    | none => simp [hs]
    | some t => by_cases h : isParam src param t <;> simp [hs, h]
  · rename_i h1 h2 h3
    have h3 : n.shape ≠ .spread := h3
    simp [h3]

theorem destructured?_eq (n : Node) : destructured? src param n = n.openedPattern? src param := by
  unfold destructured? Node.openedPattern?
  by_cases hs : n.shape = .declarator
  · cases hv : (n.child? "value").bind Node.stripParens? with
    | none => simp [hs]
    | some v =>
      cases hn : n.child? "name" with
      | none => simp [hs]
      | some p => by_cases h : isParam src param v <;> by_cases hp : p.shape = .objectPattern <;>
        simp [hs, h, hp, Option.filter]
  · simp [hs]

theorem isRest_of_listedKey? {n : Node} {k : Text} (h : n.listedKey? src = some k) : n.isRest = false := by
  have hkind : n.kind ≠ "rest_pattern" := by
    intro hk
    simp [Node.listedKey?, hk] at h
  simpa [Node.isRest] using hkind

theorem spreads_of_readKey? {n : Node} {k : Text} (h : n.readKey? src param = some k) :
    n.spreads src param = false := by
  have hshape : n.shape ≠ .spread := by
    intro hs
    simp [Node.readKey?, hs] at h
  simp [Node.spreads, hshape]

/-! ## The uses of a pattern and of a body -/

theorem keys_ofPattern (p : Node) : (ofPattern src p).filterMap key? = p.proper.filterMap (Node.listedKey? src) := by
  unfold ofPattern
  rw [List.filterMap_filterMap]
  refine List.filterMap_congr fun n _ => ?_
  rw [ofProperty?_eq_or]
  cases n.listedKey? src with
  | some k => rfl
  | none => cases n.isRest <;> rfl

theorem rests_ofPattern (p : Node) :
    (ofPattern src p).filterMap restName? = p.proper.filterMap (Node.restBinding? src) := by
  unfold ofPattern
  rw [List.filterMap_filterMap]
  refine List.filterMap_congr fun n _ => ?_
  rw [ofProperty?_eq_or]
  cases hk : n.listedKey? src with
  | some k => simp [restName?, Node.restBinding?, isRest_of_listedKey? hk]
  | none => cases hr : n.isRest <;> simp [restName?, Node.restBinding?, hr]

theorem opens_ofPattern (p : Node) : (ofPattern src p).any opens = p.proper.any Node.isRest := by
  unfold ofPattern
  rw [List.any_filterMap]
  refine List.any_congr rfl fun n => ?_
  rw [ofProperty?_eq_or]
  cases hk : n.listedKey? src with
  | some k => exact (isRest_of_listedKey? hk).symm
  | none => cases n.isRest <;> rfl

theorem keys_ofBody (body : Node) :
    (ofBody src param body).filterMap key? = body.namedPreorder.filterMap (Node.readKey? src param) := by
  unfold ofBody
  rw [List.filterMap_filterMap]
  refine List.filterMap_congr fun n _ => ?_
  rw [ofAccess?_eq_or]
  cases n.readKey? src param with
  | some k => rfl
  | none => cases n.spreads src param <;> rfl

theorem opens_ofBody (body : Node) :
    (ofBody src param body).any opens = body.namedPreorder.any (Node.spreads src param) := by
  unfold ofBody
  rw [List.any_filterMap]
  refine List.any_congr rfl fun n => ?_
  rw [ofAccess?_eq_or]
  cases hk : n.readKey? src param with
  | some k => exact (spreads_of_readKey? hk).symm
  | none => cases n.spreads src param <;> rfl

theorem rests_ofBody (body : Node) : (ofBody src param body).filterMap restName? = [] := by
  unfold ofBody
  rw [List.filterMap_filterMap, List.filterMap_eq_nil_iff]
  intro n _
  rw [ofAccess?_eq_or]
  cases n.readKey? src param with
  | some k => rfl
  | none => cases n.spreads src param <;> rfl

end PropUse

namespace Contract

/-! ## The contract of a function -/

/-- The name of the parameter of which the code speaks. -/
def paramName (src : Text) (pattern : Node) : Text :=
  if pattern.shape = .identifier then pattern.text src else Doc.unnamedParam

/-- The patterns that take the parameter apart, in the order of the document: the parameter itself if
it is one, and those of the declarators in the body if it is a name. -/
def patterns (src : Text) (pattern body : Node) : List Node :=
  match pattern.shape with
  | .identifier => body.namedPreorder.filterMap (Node.openedPattern? src (pattern.text src))
  | .objectPattern => [pattern]
  | _ => []

theorem patterns_eq_nil {src : Text} {pattern body : Node} (h1 : pattern.shape ≠ .identifier)
    (h2 : pattern.shape ≠ .objectPattern) : patterns src pattern body = [] := by
  unfold patterns
  split
  · rename_i hs; exact absurd hs h1
  · rename_i hs; exact absurd hs h2
  · rfl

/-- The keys that some patterns list, one pattern after the other. -/
def patternKeys (src : Text) (ps : List Node) : List Text :=
  ps.flatMap fun p => p.proper.filterMap (Node.listedKey? src)

/-- The keys read from a parameter by its name, in the order of the document. -/
def keyReads (src param : Text) (body : Node) : List Text :=
  body.namedPreorder.filterMap (Node.readKey? src param)

/-- The names under which some patterns capture the rest. -/
def restBindings (src : Text) (ps : List Node) : List Text :=
  ps.flatMap fun p => p.proper.filterMap (Node.restBinding? src)

theorem usesOf_eq_append (src : Text) (pattern body : Node) : usesOf src pattern body =
    (paramName src pattern, (patterns src pattern body).flatMap (PropUse.ofPattern src) ++
      PropUse.ofBody src (paramName src pattern) body) := by
  have hopened : ∀ param, (fun n => PropUse.destructured? src param n) = Node.openedPattern? src param :=
    fun param => funext PropUse.destructured?_eq
  unfold usesOf paramName
  split
  · rename_i hs
    simp only [patterns, hs, if_true, PropUse.ofDestructuring, hopened]
  · rename_i hs
    simp [patterns, hs]
  · rename_i h1 h2
    rw [if_neg h1, patterns_eq_nil h1 h2]
    rfl

/-- The props of a function with a body. If its first parameter binds no pattern, nothing is known.
Otherwise the keys are those of the patterns, one pattern after the other, and then those that are
read, each where it first occurs; the rest is the first that has a name; and props beyond these are
accepted exactly if a pattern captures the rest or the body spreads the parameter. -/
theorem ofFunction_infers (src : Text) (n : Node) (f : FunctionParts) (hf : n.functionParts? = some f) :
    ((¬ ∃ first pattern, f.params.head? = some first ∧ first.Binds pattern) → ofFunction src n = empty) ∧
      ∀ first pattern, f.params.head? = some first → first.Binds pattern →
        let c := ofFunction src n
        let ps := patterns src pattern f.body
        let keys := patternKeys src ps ++ keyReads src c.param f.body
        c.param = paramName src pattern ∧
          (c.spread = true ↔ (∃ p ∈ ps, ∃ r ∈ p.proper, r.isRest = true) ∨
            ∃ e ∈ f.body.namedPreorder, e.spreads src c.param = true) ∧
          ((∀ k ∈ keys, ¬ PropSet.IsMarked k) →
            c.props.plain = (keys.filter (· ≠ [])).eraseDups ∧
              c.props.rest? = (restBindings src ps).find? (· ≠ [])) := by
  constructor
  · intro hnone
    have hb : f.params.head?.bind Node.bindingPattern? = none := by
      rw [Option.eq_none_iff_forall_ne_some]
      intro q hq
      obtain ⟨first, hfirst, hq⟩ := Option.bind_eq_some_iff.1 hq
      exact hnone ⟨first, q, hfirst, Node.binds_of_bindingPattern? first q hq⟩
    unfold ofFunction
    simp only [hf, hb]
  · intro first pattern hfirst hbinds c ps keys
    have hc : c = (ps.flatMap (PropUse.ofPattern src) ++ PropUse.ofBody src (paramName src pattern) f.body).foldl use
        { empty with param := paramName src pattern } := by
      have hb : f.params.head?.bind Node.bindingPattern? = some pattern := by
        rw [hfirst]
        exact Node.bindingPattern?_of_binds hbinds
      simp only [c, ofFunction, hf, hb, usesOf_eq_append, ps]
    have hparam : c.param = paramName src pattern := by rw [hc, param_foldl_use]
    have hkeys : (ps.flatMap (PropUse.ofPattern src) ++ PropUse.ofBody src (paramName src pattern) f.body).filterMap
        PropUse.key? = keys := by
      simp only [keys, patternKeys, keyReads, hparam, List.filterMap_append, List.filterMap_flatMap,
        PropUse.keys_ofPattern, PropUse.keys_ofBody]
    refine ⟨hparam, ?_, fun hmarked => ⟨?_, ?_⟩⟩
    · rw [hparam, hc, spread_foldl_use, List.any_append, List.any_flatMap, PropUse.opens_ofBody]
      simp only [PropUse.opens_ofPattern]
      simp [empty, List.any_eq_true]
    · rw [hc, plain_foldl_use _ _ (by rwa [hkeys]), hkeys]
    · rw [hc, rest?_foldl_use _ _ (by rwa [hkeys]), List.filterMap_append, List.filterMap_flatMap, PropUse.rests_ofBody,
        List.append_nil]
      simp only [PropUse.rests_ofPattern, restBindings]

/-! ## A pattern inside a pattern -/

/-- `function A(p) { const { a = () => { const { b } = p; }, c, ...r } = p; return f(p.d); }` -/
def reopenedText : Text :=
  "function A(p) \x7b const \x7b a = () => \x7b const \x7b b \x7d = p; \x7d, c, ...r \x7d = p; return f(p.d); \x7d\n"

/-- The declaration `const pattern = p;`. -/
def reopening (start stop : Nat) (pattern : Node) : Node :=
  .named "lexical_declaration" none start stop
    [.mk ⟨"const", some "kind", start, start + 5, false, false, false, false⟩ [],
      .named "variable_declarator" none (start + 6) (stop - 1)
        [pattern, .token "=" (stop - 4) (stop - 3), .named "identifier" (some "value") (stop - 2) (stop - 1) []],
      .token ";" (stop - 1) stop]

def reopenedParam : Node := .named "identifier" none 11 12 []

def reopenedBody : Node :=
  .named "statement_block" (some "body") 14 87
    [.token "\x7b" 14 15,
      reopening 16 70 (.named "object_pattern" (some "name") 22 65
        [.token "\x7b" 22 23,
          .named "object_assignment_pattern" none 24 54
            [.named "shorthand_property_identifier_pattern" (some "left") 24 25 [], .token "=" 26 27,
              .named "arrow_function" (some "right") 28 54
                [.named "formal_parameters" (some "parameters") 28 30 [.token "(" 28 29, .token ")" 29 30],
                  .token "=>" 31 33,
                  .named "statement_block" (some "body") 34 54
                    [.token "\x7b" 34 35,
                      reopening 36 52 (.named "object_pattern" (some "name") 42 47
                        [.token "\x7b" 42 43, .named "shorthand_property_identifier_pattern" none 44 45 [],
                          .token "\x7d" 46 47]),
                      .token "\x7d" 53 54]]],
          .token "," 54 55, .named "shorthand_property_identifier_pattern" none 56 57 [], .token "," 57 58,
          .named "rest_pattern" none 59 63 [.token "..." 59 62, .named "identifier" none 62 63 []],
          .token "\x7d" 64 65]),
      .named "return_statement" none 71 85
        [.token "return" 71 77,
          .named "call_expression" none 78 84
            [.named "identifier" (some "function") 78 79 [],
              .named "arguments" (some "arguments") 79 84
                [.token "(" 79 80,
                  .named "member_expression" none 80 83
                    [.named "identifier" (some "object") 80 81 [], .token "." 81 82,
                      .named "property_identifier" (some "property") 82 83 []],
                  .token ")" 83 84]],
          .token ";" 84 85],
      .token "\x7d" 86 87]

def reopened : Node :=
  .named "function_declaration" none 0 87
    [.token "function" 0 8, .named "identifier" (some "name") 9 10 [],
      .named "formal_parameters" (some "parameters") 10 13 [.token "(" 10 11, reopenedParam, .token ")" 12 13],
      reopenedBody]

theorem functionParts?_reopened : reopened.functionParts? = some ⟨[reopenedParam], reopenedBody⟩ := by rfl

theorem binds_reopenedParam : reopenedParam.Binds reopenedParam := .bare (by decide) (by decide) (by decide)

/-- The keys of the outer pattern, of the inner one, and the key that is read. -/
theorem ofFunction_reopened : reopened.functionParts? = some ⟨[reopenedParam], reopenedBody⟩ ∧
    reopenedParam.Binds reopenedParam ∧
      (ofFunction reopenedText reopened).props.plain = ["a", "c", "b", "d"] ∧
        (ofFunction reopenedText reopened).props.rest? = some "r" ∧
        (ofFunction reopenedText reopened).spread = true := by
  obtain ⟨hparam, hspread, hprops⟩ := (ofFunction_infers reopenedText reopened _ functionParts?_reopened).2
    reopenedParam reopenedParam rfl binds_reopenedParam
  obtain ⟨hplain, hrest⟩ := hprops (by decide +kernel)
  refine ⟨functionParts?_reopened, binds_reopenedParam, hplain.trans ?_, hrest.trans ?_, hspread.2 (.inl ?_)⟩
  · decide +kernel
  · decide +kernel
  · decide +kernel

/-- The keys of the inner pattern stand before the last of the outer one, but they are listed after it. -/
theorem listed_out_of_order : ¬ ∀ (src : Text) (n : Node) (f : FunctionParts), n.functionParts? = some f →
    ∀ first pattern, f.params.head? = some first → first.Binds pattern →
      let c := ofFunction src n
      let properties := ((patterns src pattern f.body).flatMap Node.proper).insertionSort fun a b => a.start ≤ b.start
      let keys := properties.filterMap (Node.listedKey? src) ++ keyReads src c.param f.body
      (∀ k ∈ keys, ¬ PropSet.IsMarked k) → c.props.plain = (keys.filter (· ≠ [])).eraseDups := by
  intro h
  have hplain := h reopenedText reopened _ functionParts?_reopened reopenedParam reopenedParam rfl binds_reopenedParam
    (by decide +kernel)
  exact absurd hplain (by decide +kernel)

end Contract

end DocAtlas
