/-
The facts of a file list what the file has: an entry for each declaration, each import and each call, at any
depth, and none besides. The patterns of a query for declarations are for different kinds of node, so no
declaration is found twice. Both patterns for calls are for one kind; there it matters that a call has one callee.

The entries come in document order. A call begins where its callee begins, so the calls of a chain begin
together. A match of a call ends with the arguments, and those of an inner call end before those of the outer
one begin; so the inner call comes first.
-/
import DocAtlas.Knowledge.Extract
import DocAtlas.Proofs.Tree.Fitting
import DocAtlas.Proofs.Tree.Querying

namespace DocAtlas

section Search

variable {α β κ : Type}

/-- Of members with different keys one at most is taken by what only takes a member with one key. -/
theorem filterMap_of_nodup_keys [DecidableEq κ] {key : α → κ} {k : κ} {f : α → Option β} {l : List α}
    (hl : (l.map key).Nodup) (hf : ∀ a ∈ l, key a ≠ k → f a = none) :
    l.filterMap f = ((l.find? fun a => key a == k).bind f).toList := by
  induction l with
  | nil => rfl
  | cons a l ih =>
    obtain ⟨ha, hl⟩ := List.nodup_cons.1 hl
    obtain ⟨hfa, hf⟩ := List.forall_mem_cons.1 hf
    by_cases hk : key a = k
    · have hrest : l.filterMap f = [] := by
        refine List.filterMap_eq_nil_iff.2 fun b hb => hf b hb fun hkb => ha ?_
        rw [hk, ← hkb]
        exact List.mem_map_of_mem hb
      rw [List.find?_cons_of_pos (by simpa using hk), Option.bind_some, List.filterMap_cons, hrest]
      cases f a <;> rfl
    · rw [List.find?_cons_of_neg (by simpa using hk), List.filterMap_cons, hfa hk, ih hl hf]

/-- If one member at most is of a sort, the first of the sort decides whether there is one with a property. -/
theorem find?_and_of_unique {p q : α → Bool} {l : List α} (h : (l.filter p).length ≤ 1) :
    l.find? (fun a => p a && q a) = (l.find? p).filter q := by
  have hboth : l.filter (fun a => p a && q a) = (l.filter p).filter q := by
    simp only [List.filter_filter, Bool.and_comm]
  rw [← List.head?_filter, ← List.head?_filter, hboth]
  generalize l.filter p = few at h
  match few, h with
  | [], _ => rfl
  | [a], _ => cases hq : q a <;> simp [Option.filter, hq]

end Search

namespace Node

/-! ## Declarations, imports and calls -/

/-- The first named child with a role, of some kind unless any will do. -/
def part? (n : Node) (field : String) (kind : Option String) : Option Node :=
  n.children.find? (FieldStep.mk field kind).accepts

/-- A kind of declaration: the kind of node, the category it is recorded under, and the kind of node its name is
unless any will do. -/
structure Declaring where
  kind : String
  category : String
  nameKind : Option String

/-- The kinds of declaration of a grammar. -/
def declaring (g : Grammar) : List Declaring :=
  [⟨"class_declaration", "class", none⟩, ⟨"function_declaration", "function", some "identifier"⟩,
    ⟨"generator_function_declaration", "function", some "identifier"⟩,
    ⟨"variable_declarator", "variable", some "identifier"⟩] ++
  if g.isTyped then
    [⟨"abstract_class_declaration", "class", some "type_identifier"⟩,
      ⟨"interface_declaration", "interface", some "type_identifier"⟩,
      ⟨"type_alias_declaration", "type", some "type_identifier"⟩, ⟨"enum_declaration", "enum", some "identifier"⟩]
  else []

/-- The category of a declaration and its name. -/
def declared? (g : Grammar) (n : Node) : Option (String × Node) :=
  if n.isNamed then
    ((declaring g).find? fun d => d.kind == n.kind).bind fun d =>
      (n.part? "name" d.nameKind).map fun name => (d.category, name)
  else none

/-- Whether the node is recorded as a declaration. -/
def isDeclaration (g : Grammar) (n : Node) : Bool := (n.declared? g).isSome

/-- The source of an import. -/
def imported? (n : Node) : Option Node :=
  if n.isNamed && n.kind == "import_statement" then n.part? "source" (some "string") else none

/-- Whether the node is recorded as an import. -/
def isImport (n : Node) : Bool := n.imported?.isSome

/-- The plain property of a member expression. -/
def property? (n : Node) : Option Node := n.part? "property" (some "property_identifier")

/-- What a callee is called: an identifier, or the plain property of a member expression. -/
def calleeName? (callee : Node) : Option Node :=
  if callee.kind == "identifier" then some callee
  else if callee.kind == "member_expression" then callee.property?
  else none

/-- The children of a call that are called. -/
def callees (n : Node) : List Node := n.children.filter (FieldStep.mk "function" none).accepts

/-- The arguments of a call. -/
def arguments? (n : Node) : Option Node := n.part? "arguments" (some "arguments")

/-- The name of a call and its arguments. -/
def called? (n : Node) : Option (Node × Node) :=
  if n.isNamed && n.kind == "call_expression" then
    ((n.part? "function" none).bind calleeName?).bind fun name => n.arguments?.map fun args => (name, args)
  else none

/-- Whether the node is recorded as a call. -/
def isCall (n : Node) : Bool := n.called?.isSome

/-- The tree is one in which the calls of a chain can be told apart: its nodes are laid out, and a call has one callee
at most and ends with arguments, which are not empty and do not begin it. -/
structure CallsFit (root : Node) : Prop where
  laid : ∀ n ∈ root.preorder, n.Laid
  callee : ∀ n ∈ root.preorder, n.kind = "call_expression" → n.callees.length ≤ 1
  arguments : ∀ n ∈ root.preorder, n.kind = "call_expression" →
    ∀ args ∈ n.arguments?, n.start < args.start ∧ args.start < args.stop

instance (root : Node) : Decidable root.CallsFit :=
  decidable_of_iff ((∀ n ∈ root.preorder, n.Laid) ∧
    (∀ n ∈ root.preorder, n.kind = "call_expression" → n.callees.length ≤ 1) ∧
      ∀ n ∈ root.preorder, n.kind = "call_expression" →
        ∀ args ∈ n.arguments?, n.start < args.start ∧ args.start < args.stop)
    ⟨fun h => ⟨h.1, h.2.1, h.2.2⟩, fun h => ⟨h.1, h.2, h.3⟩⟩

theorem Laid.apart {n x y : Node} (h : n.Laid) (hx : x ∈ n.children) (hy : y ∈ n.children) :
    x = y ∨ x.stop ≤ y.start ∨ y.stop ≤ x.start := by
  have : Std.Symm fun a b : Node => a.stop ≤ b.start ∨ b.stop ≤ a.start := ⟨fun _ _ hab => hab.symm⟩
  have hordered : n.children.Pairwise fun a b => a.stop ≤ b.start ∨ b.stop ≤ a.start := h.ordered.imp Or.inl
  exact or_iff_not_imp_left.2 (hordered.forall hx hy)

theorem part?_eq_filter {n : Node} {field : String}
    (h : (n.children.filter (FieldStep.mk field none).accepts).length ≤ 1) (kind : String) :
      n.part? field (some kind) = (n.part? field none).filter fun c => c.kind == kind := by
  have hsplit : (FieldStep.mk field (some kind)).accepts = fun c =>
    (FieldStep.mk field none).accepts c && c.kind == kind := by
    funext c
    simp [FieldStep.accepts]
  unfold part?
  rw [hsplit, find?_and_of_unique h]

/-- The name of a call is its callee or a property of it; it cannot be both. -/
theorem bind_calleeName? {n : Node} (h : n.callees.length ≤ 1) :
    (n.part? "function" none).bind calleeName? =
        (n.part? "function" (some "identifier")).or ((n.part? "function" (some "member_expression")).bind property?) ∧
      (n.part? "function" (some "identifier") = none ∨
        (n.part? "function" (some "member_expression")).bind property? = none) := by
  rw [part?_eq_filter h, part?_eq_filter h]
  cases n.part? "function" none with
  | none => exact ⟨rfl, .inl rfl⟩
  | some callee =>
    by_cases hid : callee.kind = "identifier"
    · simp [calleeName?, hid, Option.filter]
    · by_cases hmember : callee.kind = "member_expression" <;> simp [calleeName?, hid, hmember, Option.filter]

end Node

/-! ## Captures -/

theorem FieldStep.map_node_follow? (s : FieldStep) (c : Cursor) :
    (s.follow? c).map Cursor.node = c.node.children.find? s.accepts := by
  unfold follow?
  rw [← Cursor.map_node_children, List.find?_map]
  rfl

theorem Pattern.captureParts?_cons (c : Cursor) (steps : List FieldStep) (label : String)
    (parts : List (List FieldStep × String)) :
    captureParts? c ((steps, label) :: parts) = (steps.foldl (fun at? s => at?.bind s.follow?) (some c)).bind fun d =>
      (captureParts? c parts).map fun rest => ⟨label, d⟩ :: rest := by
  rw [captureParts?]
  cases steps.foldl (fun at? s => at?.bind s.follow?) (some c) with
  | none => rfl
  | some d => cases captureParts? c parts <;> rfl

/-- A pattern with one part, which is a child. -/
theorem Pattern.captures?_child (c : Cursor) (kind label field partLabel : String) (partKind : Option String) :
    (Pattern.mk kind label [([⟨field, partKind⟩], partLabel)]).captures? c =
      if c.node.isNamed && c.node.kind == kind then
      ((FieldStep.mk field partKind).follow? c).map fun d => [⟨label, c⟩, ⟨partLabel, d⟩] else none := by
  unfold captures?
  rw [captureParts?_cons, captureParts?, List.foldl_cons, List.foldl_nil, Option.bind_some]
  cases (FieldStep.mk field partKind).follow? c <;> rfl

/-- What the matches at a place capture, their numbers aside. -/
theorem QueryKind.map_captures_matchesAt (ps : List Pattern) (c : Cursor) :
    (matchesAt ps c).map Match.captures = ps.filterMap fun p => p.captures? c := by
  unfold matchesAt
  rw [List.map_filterMap]
  conv_rhs => rw [← List.zipIdx_map_fst 0 ps, List.filterMap_map]
  refine List.filterMap_congr fun x _ => ?_
  rw [Option.map_map]
  exact Option.map_id'

/-- What is recorded of the matches at a place, if it does not depend on their numbers. -/
theorem QueryKind.filterMap_matchesAt {β : Type} {record? : Match → Option β}
    (h : ∀ i cs, record? ⟨i, cs⟩ = record? ⟨0, cs⟩) (ps : List Pattern) (c : Cursor) :
    (matchesAt ps c).filterMap record? = ps.filterMap fun p => (p.captures? c).bind fun cs => record? ⟨0, cs⟩ := by
  rw [← List.filterMap_filterMap, ← map_captures_matchesAt, List.filterMap_map]
  exact List.filterMap_congr fun m _ => h m.pattern m.captures

/-! ## Declarations -/

namespace SymbolFact

/-- The record of the declaration at a place. -/
def at? (g : Grammar) (tree : SyntaxTree) (c : Cursor) : Option SymbolFact :=
  (c.node.declared? g).map fun d => ofDeclaration tree d.1 (d.2.text tree.source) c

theorem at?_isSome (g : Grammar) (tree : SyntaxTree) (c : Cursor) : (at? g tree c).isSome = c.node.isDeclaration g :=
  Option.isSome_map

/-- The pattern for a kind of declaration. -/
def patternOf (d : Node.Declaring) : Pattern := QueryKind.declaration d.kind d.category d.nameKind

theorem patterns_symbols (g : Grammar) : QueryKind.symbols.patterns g = (Node.declaring g).map patternOf := by
  cases g <;> rfl

theorem category_mem {g : Grammar} {d : Node.Declaring} (hd : d ∈ Node.declaring g) : d.category ∈ categories := by
  have hall : ((Node.declaring g).all fun d => d.category ∈ categories) = true := by cases g <;> decide
  simpa using List.all_eq_true.1 hall d hd

/-- No kind of node has two patterns. -/
theorem nodup_declaring (g : Grammar) : ((Node.declaring g).map Node.Declaring.kind).Nodup := by cases g <;> decide

/-- What is captured of a declaration is recorded. -/
theorem ofMatch?_declaration {category : String} (hcategory : category ∈ categories) (tree : SyntaxTree)
    (c d : Cursor) :
    ofMatch? tree ⟨0, [⟨category ++ ".declaration", c⟩, ⟨category ++ ".name", d⟩]⟩ =
      some (c.node.start, ofDeclaration tree category (d.node.text tree.source) c) := by
  unfold categories at hcategory
  simp only [List.mem_cons, List.not_mem_nil, or_false] at hcategory
  rcases hcategory with rfl | rfl | rfl | rfl | rfl | rfl <;> rfl

theorem filterMap_ofMatch? (g : Grammar) (tree : SyntaxTree) (c : Cursor) :
    (QueryKind.matchesAt (QueryKind.symbols.patterns g) c).filterMap (ofMatch? tree) =
      ((at? g tree c).map fun s => (c.node.start, s)).toList := by
  have hone : ∀ d ∈ Node.declaring g, (((patternOf d).captures? c).bind fun cs => ofMatch? tree ⟨0, cs⟩) =
      if c.node.isNamed && c.node.kind == d.kind then (c.node.part? "name" d.nameKind).map fun name =>
        (c.node.start, ofDeclaration tree d.category (name.text tree.source) c) else none := by
    intro d hd
    unfold patternOf QueryKind.declaration Node.part?
    rw [Pattern.captures?_child, ← FieldStep.map_node_follow?]
    split
    · rw [Option.bind_map, Option.map_map]
      cases (FieldStep.mk "name" d.nameKind).follow? c with
      | none => rfl
      | some e => exact ofMatch?_declaration (category_mem hd) tree c e
    · rfl
  rw [QueryKind.filterMap_matchesAt (fun _ _ => rfl), patterns_symbols, List.filterMap_map]
  refine (List.filterMap_congr hone).trans ?_
  unfold at? Node.declared?
  cases c.node.isNamed with
  | false => simp
  | true =>
    rw [filterMap_of_nodup_keys (k := c.node.kind) (nodup_declaring g) fun d _ hd => ?_]
    · cases hfind : (Node.declaring g).find? fun d => d.kind == c.node.kind with
      | none => simp
      | some d =>
        have hkind : d.kind = c.node.kind := by simpa using List.find?_some hfind
        simp [hkind, Option.map_map, Function.comp_def]
    · simp [Ne.symm hd]

end SymbolFact

/-! ## Imports -/

namespace ImportFact

/-- The record of the import at a place. -/
def at? (tree : SyntaxTree) (c : Cursor) : Option ImportFact :=
  c.node.imported?.map fun source =>
    { source := unquoted (source.text tree.source)
      specifiers := some (specifiersOf tree.source c.node)
      startLine := tree.lineAt c.node.start
      endLine := tree.lineAt c.node.stop }

theorem at?_isSome (tree : SyntaxTree) (c : Cursor) : (at? tree c).isSome = c.node.isImport := Option.isSome_map

theorem filterMap_ofMatch? (g : Grammar) (tree : SyntaxTree) (c : Cursor) :
    (QueryKind.matchesAt (QueryKind.imports.patterns g) c).filterMap (ofMatch? tree) =
      ((at? tree c).map fun i => (c.node.start, i)).toList := by
  -- the pattern for exports captures no import
  have hexport : (((Pattern.mk "export_statement" "export.statement" []).captures? c).bind fun cs =>
      ofMatch? tree ⟨0, cs⟩) = none := by
    unfold Pattern.captures?
    split <;> rfl
  rw [QueryKind.filterMap_matchesAt fun _ _ => rfl]
  unfold QueryKind.patterns at? Node.imported? Node.part?
  rw [List.filterMap_cons, List.filterMap_cons, hexport, Pattern.captures?_child, ← FieldStep.map_node_follow?]
  cases c.node.isNamed && c.node.kind == "import_statement" with
  | false => rfl
  | true => cases (FieldStep.mk "source" (some "string")).follow? c <;> rfl

end ImportFact

/-! ## Calls -/

namespace CallFact

/-- The record of the call at a place, given its name and its arguments. -/
def ofCall (tree : SyntaxTree) (c : Cursor) (name args : Node) : CallFact :=
  { name := name.text tree.source
    arguments := some (args.proper.map (argumentName tree.source))
    context := contextOf tree.source c.ancestors
    line := tree.lineAt c.node.start
    endLine := tree.lineAt c.node.stop }

/-- The record of the call at a place. -/
def at? (tree : SyntaxTree) (c : Cursor) : Option CallFact := c.node.called?.map fun call => ofCall tree c call.1 call.2

theorem at?_isSome (tree : SyntaxTree) (c : Cursor) : (at? tree c).isSome = c.node.isCall := Option.isSome_map

/-- A pattern for calls, given the way to the name. -/
def patternOf (way : List FieldStep) : Pattern :=
  ⟨"call_expression", "call.expression", [(way, "call.name"), ([⟨"arguments", some "arguments"⟩], "call.arguments")]⟩

theorem patterns_calls (g : Grammar) : QueryKind.calls.patterns g =
    [patternOf [⟨"function", some "identifier"⟩],
      patternOf [⟨"function", some "member_expression"⟩, ⟨"property", some "property_identifier"⟩]] := rfl

/-- What a pattern for calls captures. -/
theorem captures?_patternOf (way : List FieldStep) (c : Cursor) : (patternOf way).captures? c =
    if c.node.isNamed && c.node.kind == "call_expression" then
      (way.foldl (fun at? s => at?.bind s.follow?) (some c)).bind fun name =>
        ((FieldStep.mk "arguments" (some "arguments")).follow? c).map fun args =>
          [⟨"call.expression", c⟩, ⟨"call.name", name⟩, ⟨"call.arguments", args⟩]
    else none := by
  unfold patternOf Pattern.captures?
  rw [Pattern.captureParts?_cons, Pattern.captureParts?_cons, Pattern.captureParts?, List.foldl_cons, List.foldl_nil,
    Option.bind_some]
  cases way.foldl (fun at? s => at?.bind s.follow?) (some c) with
  | none => rfl
  | some name => cases (FieldStep.mk "arguments" (some "arguments")).follow? c <;> rfl

/-- A match of a pattern for calls is recorded with the name it leads to. -/
theorem record_patternOf (tree : SyntaxTree) (way : List FieldStep) (c : Cursor) :
    (((patternOf way).captures? c).bind fun cs => ofMatch? tree ⟨0, cs⟩) =
      if c.node.isNamed && c.node.kind == "call_expression" then
        ((way.foldl (fun at? s => at?.bind s.follow?) (some c)).map Cursor.node).bind fun name =>
          c.node.arguments?.map fun args => (c.node.start, ofCall tree c name args)
      else none := by
  rw [captures?_patternOf, Node.arguments?, Node.part?, ← FieldStep.map_node_follow?]
  split
  · cases way.foldl (fun at? s => at?.bind s.follow?) (some c) with
    | none => rfl
    | some name => cases (FieldStep.mk "arguments" (some "arguments")).follow? c <;> rfl
  · rfl

theorem filterMap_ofMatch? (g : Grammar) (tree : SyntaxTree) {c : Cursor}
    (hcallee : c.node.kind = "call_expression" → c.node.callees.length ≤ 1) :
    (QueryKind.matchesAt (QueryKind.calls.patterns g) c).filterMap (ofMatch? tree) =
      ((at? tree c).map fun call => (c.node.start, call)).toList := by
  have hidentifier : (([⟨"function", some "identifier"⟩] : List FieldStep).foldl
      (fun at? s => at?.bind s.follow?) (some c)).map Cursor.node = c.node.part? "function" (some "identifier") :=
    FieldStep.map_node_follow? _ c
  have hmember : (([⟨"function", some "member_expression"⟩,
    ⟨"property", some "property_identifier"⟩] : List FieldStep).foldl
      (fun at? s => at?.bind s.follow?) (some c)).map Cursor.node =
        (c.node.part? "function" (some "member_expression")).bind Node.property? := by
    unfold Node.part?
    rw [List.foldl_cons, List.foldl_cons, List.foldl_nil, Option.bind_some, Option.map_bind,
      ← FieldStep.map_node_follow?, Option.bind_map]
    exact Option.bind_congr fun d _ => FieldStep.map_node_follow? _ d
  rw [QueryKind.filterMap_matchesAt fun _ _ => rfl, patterns_calls, List.filterMap_cons, List.filterMap_cons,
    List.filterMap_nil, record_patternOf, record_patternOf, hidentifier, hmember]
  unfold at? Node.called?
  by_cases hcall : (c.node.isNamed && c.node.kind == "call_expression") = true
  · obtain ⟨hname, hone⟩ := Node.bind_calleeName? (hcallee (beq_iff_eq.1 ((Bool.and_eq_true _ _).mp hcall).2))
    simp only [if_pos hcall, hname]
    generalize c.node.part? "function" (some "identifier") = identifier at hone
    generalize (c.node.part? "function" (some "member_expression")).bind Node.property? = property at hone
    rcases hone with rfl | rfl
    · cases property <;> cases c.node.arguments? <;> rfl
    · cases identifier <;> cases c.node.arguments? <;> rfl
  · simp only [if_neg hcall]
    rfl

/-- A match for a call ends where the arguments begin. -/
theorem lastStart_of_mem_matchesAt {g : Grammar} {c : Cursor} {m : Match}
    (hm : m ∈ QueryKind.matchesAt (QueryKind.calls.patterns g) c) :
    c.node.kind = "call_expression" ∧ ∃ args ∈ c.node.arguments?, m.lastStart = args.start := by
  obtain ⟨⟨p, i⟩, hp, hm⟩ := List.mem_filterMap.1 hm
  obtain ⟨captures, hcaptures, rfl⟩ := Option.map_eq_some_iff.1 hm
  have hway : ∃ way, p = patternOf way := by
    have hmem : p ∈ QueryKind.calls.patterns g := (List.mem_zipIdx' hp).2 ▸ List.getElem_mem _
    rw [patterns_calls] at hmem
    simp only [List.mem_cons, List.not_mem_nil, or_false] at hmem
    exact hmem.elim (fun h => ⟨_, h⟩) fun h => ⟨_, h⟩
  obtain ⟨way, rfl⟩ := hway
  rw [captures?_patternOf] at hcaptures
  split at hcaptures
  · rename_i hcall
    obtain ⟨name, -, hcaptures⟩ := Option.bind_eq_some_iff.1 hcaptures
    obtain ⟨args, hargs, rfl⟩ := Option.map_eq_some_iff.1 hcaptures
    refine ⟨beq_iff_eq.1 ((Bool.and_eq_true _ _).mp hcall).2, args.node, ?_, rfl⟩
    rw [Node.arguments?, Node.part?, ← FieldStep.map_node_follow?, hargs]
    rfl
  · cases hcaptures

/-- Of two calls that begin together the one whose arguments begin first lies inside the other. -/
theorem contains_of_endsBefore {g : Grammar} {root : Node} (hfit : root.CallsFit) {a b : Cursor}
    (ha : (Cursor.ofRoot root).Contains a) (hb : (Cursor.ofRoot root).Contains b) (hstart : a.node.start = b.node.start)
    (h : QueryKind.EndsBefore (QueryKind.calls.patterns g) a b) : b.Contains a := by
  obtain ⟨m, hm, m', hm', hle⟩ := h
  obtain ⟨hkind, args, hargs, hlast⟩ := lastStart_of_mem_matchesAt hm
  obtain ⟨hkind', args', hargs', hlast'⟩ := lastStart_of_mem_matchesAt hm'
  rw [hlast, hlast'] at hle
  have hmem := Cursor.mem_preorder_of_contains ha
  have hmem' := Cursor.mem_preorder_of_contains hb
  have hchild : args ∈ a.node.children := List.mem_of_find?_eq_some hargs
  have hchild' : args' ∈ b.node.children := List.mem_of_find?_eq_some hargs'
  have hbounds := hfit.arguments _ hmem hkind args hargs
  have hbounds' := hfit.arguments _ hmem' hkind' args' hargs'
  have hinside := (hfit.laid _ hmem).inside args hchild
  have hinside' := (hfit.laid _ hmem').inside args' hchild'
  rcases Cursor.contains_of_start hfit.laid hb ha (by omega) (by omega) (by omega) with hab | hba
  · rcases Relation.ReflTransGen.cases_head hab with rfl | ⟨d, hd, hdb⟩
    · exact .refl _
    · -- `b` would begin with `a`, so before the arguments of `a`, and then end before them
      have hrange := Cursor.range_of_contains hfit.laid (ha.trans (Cursor.contains_of_child hd)) hdb
      rcases (hfit.laid _ hmem).apart (Cursor.node_mem_of_child hd) hchild with heq | hsep | hsep
      · rw [heq] at hrange
        omega
      · omega
      · omega
  · exact hba

end CallFact

/-! ## The facts of a tree -/

namespace FileFacts

/-- The record of the declaration at a place of a file, with the mark of what the file exports by name. -/
def symbolAt? (g : Grammar) (tree : SyntaxTree) (c : Cursor) : Option SymbolFact :=
  (SymbolFact.at? g tree c).map fun s =>
    if (exportedNames (ExportFact.extract g tree)).contains s.name then { s with exported := true } else s

/-- Symbols, imports and calls have one entry for each declaration, import and call of the tree, and no other,
ordered by where they start. Of calls that start together the inner one comes first. -/
theorem ofTree_lists (path : Text) (g : Grammar) (tree : SyntaxTree) :
    (∃ places, Cursor.Enumerates tree.root (Node.isDeclaration g) places ∧
      List.Forall₂ (fun c s => symbolAt? g tree c = some s) places (ofTree path g tree).symbols) ∧
    (∃ places, Cursor.Enumerates tree.root Node.isImport places ∧
      List.Forall₂ (fun c i => ImportFact.at? tree c = some i) places (ofTree path g tree).imports) ∧
    (tree.root.CallsFit → ∃ places, Cursor.Enumerates tree.root Node.isCall places ∧
      places.Pairwise (fun a b => a.node.start = b.node.start → b.Contains a) ∧
        List.Forall₂ (fun c call => CallFact.at? tree c = some call) places (ofTree path g tree).calls) := by
  refine ⟨?_, ?_, fun hfit => ?_⟩
  · obtain ⟨places, hplaces, -, hrecords⟩ := QueryKind.exists_places (fun c _ => SymbolFact.filterMap_ofMatch? g tree c)
      (SymbolFact.at?_isSome g tree)
    refine ⟨places, hplaces, ?_⟩
    unfold ofTree markExported
    rw [List.forall₂_map_right_iff]
    refine hrecords.imp fun c s hs => ?_
    rw [symbolAt?, hs, Option.map_some]
  · obtain ⟨places, hplaces, -, hrecords⟩ := QueryKind.exists_places (fun c _ => ImportFact.filterMap_ofMatch? g tree c)
      (ImportFact.at?_isSome tree)
    exact ⟨places, hplaces, hrecords⟩
  · obtain ⟨places, hplaces, hsorted, hrecords⟩ := QueryKind.exists_places (fun c hc =>
        CallFact.filterMap_ofMatch? g tree (hfit.callee _ (Cursor.node_mem_preorder hc))) (CallFact.at?_isSome tree)
    refine ⟨places, hplaces, hsorted.imp_of_mem fun {a b} ha hb hab hstart => ?_, hrecords⟩
    have hends := (hab.resolve_left fun hlt => absurd hstart hlt.ne).2
    exact CallFact.contains_of_endsBefore hfit (Cursor.mem_preorder.1 ((hplaces.mem a).1 ha).1)
      (Cursor.mem_preorder.1 ((hplaces.mem b).1 hb).1) hstart hends

/-- The file `import x from "m"; const f = g().h();` on two lines. -/
def chainTree : SyntaxTree :=
  ⟨"import x from \"m\";\nconst f = g().h();\n", .named "program" none 0 38
    [.named "import_statement" none 0 18
      [.token "import" 0 6, .named "import_clause" none 7 8 [.named "identifier" none 7 8 []], .token "from" 9 13,
        .named "string" (some "source") 14 17 [], .token ";" 17 18],
    .named "lexical_declaration" none 19 37
      [.token "const" 19 24,
        .named "variable_declarator" none 25 36
          [.named "identifier" (some "name") 25 26 [], .token "=" 27 28,
            .named "call_expression" (some "value") 29 36
              [.named "member_expression" (some "function") 29 34
                [.named "call_expression" (some "object") 29 32
                  [.named "identifier" (some "function") 29 30 [],
                    .named "arguments" (some "arguments") 30 32 [.token "(" 30 31, .token ")" 31 32]],
                  .token "." 32 33, .named "property_identifier" (some "property") 33 34 []],
                .named "arguments" (some "arguments") 34 36 [.token "(" 34 35, .token ")" 35 36]]],
        .token ";" 36 37]]⟩

theorem chainTree_lists : chainTree.root.CallsFit ∧ ∃ places, Cursor.Enumerates chainTree.root Node.isCall places ∧
    places.Pairwise (fun a b => a.node.start = b.node.start → b.Contains a) ∧
      List.Forall₂ (fun c call => CallFact.at? chainTree c = some call) places
        (ofTree "p.js" .javascript chainTree).calls := by
  have hfit : chainTree.root.CallsFit := by decide +kernel
  exact ⟨hfit, (ofTree_lists "p.js" .javascript chainTree).2.2 hfit⟩

end FileFacts

end DocAtlas
