/-
One export for each exported name. Which names a statement exports is told by its form: those its declaration binds,
`default`, those of a clause, that of a namespace, or all of a module, for which `*` stands (`OnePerName`).

The records follow the form but for four things (`onePerName_iff`). A declaration is asked for the name it has itself,
so what a pattern binds, or a declaration inside another, is lost. A namespace is asked for its named nodes, and the
keyword `default` is none. Nothing listed is taken for everything, so an empty clause passes on all of its module.
And a name that is empty can be exported as `*`.
-/
import DocAtlas.Knowledge.Modules
import DocAtlas.Proofs.Tree.Nodes

namespace DocAtlas

/-- If parts are missing at most, the whole is the same only if no part is missing. -/
theorem flatMap_eq_iff_of_sublist {α β : Type} {f g : α → List β} {l : List α} (h : ∀ a ∈ l, (f a).Sublist (g a)) :
    l.flatMap f = l.flatMap g ↔ ∀ a ∈ l, f a = g a := by
  refine ⟨fun heq => ?_, List.flatMap_congr⟩
  induction l with
  | nil => exact fun a ha => absurd ha List.not_mem_nil
  | cons a l ih =>
    obtain ⟨ha, hl⟩ := List.forall_mem_cons.1 h
    have hrest : (l.flatMap f).length ≤ (l.flatMap g).length := (List.Sublist.flatMap_right _ hl).length_le
    have hlength := congrArg List.length heq
    rw [List.flatMap_cons, List.flatMap_cons, List.length_append, List.length_append] at hlength
    have hhead : f a = g a := ha.eq_of_length (by have := ha.length_le; omega)
    rw [List.flatMap_cons, List.flatMap_cons, hhead] at heq
    exact List.forall_mem_cons.2 ⟨hhead, ih hl (List.append_cancel_left heq)⟩

namespace Node

/-! ## Names that are bound -/

/-- Where the names stand that a node binds. -/
inductive Binding where
  /-- The node is the name. -/
  | itself
  /-- In the first child of a sort. -/
  | first (p : Node → Bool)
  /-- In all children of a sort. -/
  | each (p : Node → Bool)

/-- Where the names stand that a declaration or a pattern binds: not in keys and not in default values. Of a dotted name
the leading part is bound. -/
def binding (kind : String) : Binding :=
  match kind with
  | "identifier" | "type_identifier" | "shorthand_property_identifier_pattern" => .itself
  | "lexical_declaration" | "variable_declaration" => .each fun d => d.isProper && d.kind == "variable_declarator"
  | "object_pattern" | "array_pattern" => .each isProper
  | "ambient_declaration" | "import_alias" | "rest_pattern" => .first isProper
  | "assignment_pattern" | "object_assignment_pattern" => .first (hasField "left")
  | "pair_pattern" => .first (hasField "value")
  | "nested_identifier" => .first (hasField "object")
  | _ => .first (hasField "name")

mutual

/-- The names a declaration or a pattern binds, in order. -/
def bound (src : Text) : Node → List Text
  | mk i cs =>
    match binding i.kind with
    | .itself => [(mk i cs).text src]
    | .first p => boundFirst src p cs
    | .each p => boundEach src p cs

/-- The names bound in the first node of a sort. -/
def boundFirst (src : Text) (p : Node → Bool) : List Node → List Text
  | [] => []
  | c :: cs => if p c then bound src c else boundFirst src p cs

/-- The names bound in all nodes of a sort. -/
def boundEach (src : Text) (p : Node → Bool) : List Node → List Text
  | [] => []
  | c :: cs => (if p c then bound src c else []) ++ boundEach src p cs

end

variable (src : Text)

theorem boundFirst_eq (p : Node → Bool) (cs : List Node) :
    boundFirst src p cs = ((cs.find? p).map (bound src)).getD [] := by
  induction cs with
  | nil => rfl
  | cons c cs ih =>
    rw [boundFirst, List.find?_cons]
    cases p c with
    | false => simpa using ih
    | true => rfl

theorem boundEach_eq (p : Node → Bool) (cs : List Node) : boundEach src p cs = (cs.filter p).flatMap (bound src) := by
  induction cs with
  | nil => rfl
  | cons c cs ih =>
    rw [boundEach, ih, List.filter_cons]
    cases p c <;> rfl

theorem bound_of_itself {n : Node} (h : binding n.kind = .itself) : n.bound src = [n.text src] := by
  obtain ⟨i, cs⟩ := n
  change binding i.kind = _ at h
  rw [bound, h]

theorem bound_of_first {n : Node} {p : Node → Bool} (h : binding n.kind = .first p) :
    n.bound src = ((n.children.find? p).map (bound src)).getD [] := by
  obtain ⟨i, cs⟩ := n
  change binding i.kind = _ at h
  rw [bound, h]
  exact boundFirst_eq ..

theorem bound_of_each {n : Node} {p : Node → Bool} (h : binding n.kind = .each p) :
    n.bound src = (n.children.filter p).flatMap (bound src) := by
  obtain ⟨i, cs⟩ := n
  change binding i.kind = _ at h
  rw [bound, h]
  exact boundEach_eq ..

/-- A declaration whose names are those it has itself: variables have identifiers for names, or patterns that bind
nothing; what else is declared binds its name alone. -/
def NamedDirectly (decl : Node) : Prop :=
  if decl.isVariableDeclaration then
    ∀ d ∈ decl.proper, d.kind = "variable_declarator" → ∀ name, d.child? "name" = some name →
      name.kind = "identifier" ∨ name.bound src = []
  else decl.bound src = ((decl.child? "name").map fun n => n.text src).toList

theorem bound_variables {decl : Node} (h : decl.isVariableDeclaration = true) :
    decl.bound src = (decl.proper.filter fun d => d.kind == "variable_declarator").flatMap fun d =>
      ((d.child? "name").map (bound src)).getD [] := by
  have hkind : binding decl.kind = .each fun d => d.isProper && d.kind == "variable_declarator" := by
    unfold isVariableDeclaration at h
    rw [Bool.or_eq_true, beq_iff_eq, beq_iff_eq] at h
    rcases h with h | h <;> rw [h] <;> rfl
  rw [bound_of_each src hkind, proper, List.filter_filter]
  have hfilter : (fun d : Node => d.isProper && d.kind == "variable_declarator") =
      fun d => d.kind == "variable_declarator" && d.isProper := funext fun d => Bool.and_comm ..
  rw [hfilter]
  refine List.flatMap_congr fun d hd => ?_
  have hd : d.kind = "variable_declarator" := by
    have := (List.mem_filter.1 hd).2
    simp only [Bool.and_eq_true, beq_iff_eq] at this
    exact this.1
  exact bound_of_first src (by rw [hd]; rfl)

end Node

namespace ExportFact

/-- The names recorded of variables: those of their declarators that have identifiers for names. -/
theorem declaredNames_variables (src : Text) {decl : Node} (h : decl.isVariableDeclaration = true) :
    declaredNames src decl = (decl.proper.filter fun d => d.kind == "variable_declarator").flatMap fun d =>
      (((d.child? "name").filter fun name => name.kind == "identifier").map (Node.bound src)).getD [] := by
  unfold declaredNames
  rw [if_pos h, List.filterMap_eq_flatMap_toList]
  refine List.flatMap_congr fun d _ => ?_
  cases d.child? "name" with
  | none => rfl
  | some name =>
    by_cases hkind : name.kind = "identifier"
    · have hitself : Node.binding name.kind = .itself := by rw [hkind]; rfl
      simp [Option.filter, hkind, Node.bound_of_itself src hitself]
    · simp [Option.filter, hkind]

/-- The recorded names are those that are bound just if the declaration has them itself. -/
theorem declaredNames_eq_bound_iff (src : Text) (decl : Node) :
    declaredNames src decl = decl.bound src ↔ decl.NamedDirectly src := by
  unfold Node.NamedDirectly
  split
  · rename_i hvariables
    rw [declaredNames_variables src hvariables, Node.bound_variables src hvariables, flatMap_eq_iff_of_sublist]
    · simp only [List.mem_filter, beq_iff_eq, and_imp]
      refine forall₃_congr fun d _ _ => ?_
      cases d.child? "name" with
      | none => simp
      | some name =>
        by_cases hkind : name.kind = "identifier"
        · simp [Option.filter, hkind]
        · simp [Option.filter, hkind, @eq_comm _ []]
    · intro d _
      cases d.child? "name" with
      | none => exact .refl _
      | some name => by_cases hkind : name.kind = "identifier" <;> simp [Option.filter, hkind]
  · rename_i hother
    unfold declaredNames
    rw [if_neg hother]
    exact eq_comm

/-- The declaration `const { p, q: r } = o;`. -/
def destructured : Node :=
  .named "lexical_declaration" none 0 22
    [.token "const" 0 5,
      .named "variable_declarator" none 6 21
        [.named "object_pattern" (some "name") 6 17
          [.token "\x7b" 6 7, .named "shorthand_property_identifier_pattern" none 8 9 [], .token "," 9 10,
            .named "pair_pattern" none 11 15
              [.named "property_identifier" (some "key") 11 12 [], .token ":" 12 13,
              .named "identifier" (some "value") 14 15 []],
            .token "\x7d" 16 17],
          .token "=" 18 19, .named "identifier" (some "value") 20 21 []],
      .token ";" 21 22]

example : destructured.bound "const \x7b p, q: r \x7d = o;" = ["p", "r"] ∧
    declaredNames "const \x7b p, q: r \x7d = o;" destructured = [] := by decide

/-! ## Statements -/

/-- The module a statement passes names on from; empty if it passes on none. -/
def sourceOf (src : Text) (stmt : Node) : Text := ((stmt.child? "source").map fun s => unquoted (s.text src)).getD []

/-- The clauses and namespaces of a statement. -/
def parts (stmt : Node) : List Node :=
  stmt.proper.filter fun c => c.kind == "export_clause" || c.kind == "namespace_export"

def specifiers (clause : Node) : List Node := clause.proper.filter fun s => s.kind == "export_specifier"

/-- What a specifier exports. -/
def innerName (src : Text) (spec : Node) : Text := ((spec.child? "name").map fun n => unquoted (n.text src)).getD []

/-- What a specifier exports it as. -/
def outerName (src : Text) (spec : Node) : Text :=
  ((spec.child? "alias").map fun a => unquoted (a.text src)).getD (innerName src spec)

/-- What a namespace is exported as: its named node, or else the keyword `default`. -/
def namespaceName (src : Text) (part : Node) : Text :=
  (part.proper.head?.map fun id => unquoted (id.text src)).getD "default"

/-- What the grammars promise of an export statement: which parts come together. -/
structure IsExport (stmt : Node) : Prop where
  valueDefault : (stmt.child? "value").isSome = true → stmt.hasToken "default" = true
  defaultGiven : stmt.hasToken "default" = true → (stmt.child? "declaration").isSome = true ∨
    (stmt.child? "value").isSome = true
  ownSource : (stmt.child? "declaration").isSome = true ∨ (stmt.child? "value").isSome = true →
    stmt.child? "source" = none
  ownParts : (stmt.child? "declaration").isSome = true ∨ (stmt.child? "value").isSome = true → parts stmt = []
  onePart : (parts stmt).length ≤ 1
  specified : ∀ c ∈ parts stmt, ∀ spec ∈ specifiers c, (spec.child? "name").isSome = true
  oneName : ∀ c ∈ parts stmt, c.kind = "namespace_export" → c.proper.length ≤ 1

/-- The record of a specifier. -/
structure Specified (src : Text) (stmt spec : Node) (e : ExportFact) : Prop where
  name : e.name = outerName src spec
  localName : e.localName = innerName src spec
  isDefault : e.isDefault = true ↔ e.name = "default"
  source : e.source = sourceOf src stmt

/-- The records are one for each name that a statement exports. -/
structure OnePerName (src : Text) (line : Int) (stmt : Node) (es : List ExportFact) : Prop where
  /-- A declaration exports each name it binds. -/
  declared : ∀ decl, stmt.child? "declaration" = some decl → stmt.hasToken "default" = false →
    es = (decl.bound src).map fun name => ⟨name, name, false, [], line⟩
  /-- What is exported by default has that for its name. -/
  defaulted : stmt.hasToken "default" = true → ∃ e, es = [e] ∧ e.name = "default" ∧ e.isDefault = true
  /-- A clause exports what its specifiers say. -/
  clause : ∀ c ∈ parts stmt, c.kind = "export_clause" → List.Forall₂ (Specified src stmt) (specifiers c) es
  /-- A namespace is exported as one name. -/
  namespaced : ∀ c ∈ parts stmt, c.kind = "namespace_export" → ∃ e, es = [e] ∧ e.name = namespaceName src c ∧
    e.source = sourceOf src stmt
  /-- Everything is passed on if nothing is listed. -/
  everything : (∃ e ∈ es, e.name = "*" ∧ e.localName = []) ↔ sourceOf src stmt ≠ [] ∧ parts stmt = []

/-- The statement shows the names it exports: a declaration has its names itself, a clause has a specifier if it passes
names on, a namespace has a named node for its name, and no empty name is exported as `*`. -/
structure ShowsNames (src : Text) (stmt : Node) : Prop where
  direct : ∀ decl, stmt.child? "declaration" = some decl → stmt.hasToken "default" = false → decl.NamedDirectly src
  filled : sourceOf src stmt ≠ [] → ∀ c ∈ parts stmt, c.kind = "export_clause" → specifiers c ≠ []
  named : ∀ c ∈ parts stmt, c.kind = "namespace_export" → c.proper ≠ []
  starless : ∀ c ∈ parts stmt, c.kind = "export_clause" → ∀ spec ∈ specifiers c, outerName src spec = "*" →
    innerName src spec ≠ []

section Laws

variable {src : Text} {line : Int} {stmt : Node} {es : List ExportFact}

/-- Without parts there is left what is declared, and what `*` stands for. -/
theorem OnePerName.of_no_parts (hparts : parts stmt = [])
    (hdeclared : ∀ decl, stmt.child? "declaration" = some decl → stmt.hasToken "default" = false →
      es = (decl.bound src).map fun name => ⟨name, name, false, [], line⟩)
    (hdefaulted : stmt.hasToken "default" = true → ∃ e, es = [e] ∧ e.name = "default" ∧ e.isDefault = true)
    (heverything : (∃ e ∈ es, e.name = "*" ∧ e.localName = []) ↔ sourceOf src stmt ≠ []) :
      OnePerName src line stmt es where
  declared := hdeclared
  defaulted := hdefaulted
  clause := by simp [hparts]
  namespaced := by simp [hparts]
  everything := by simpa [hparts] using heverything

/-- With a part there is nothing declared, and nothing may pass for everything. -/
theorem OnePerName.of_part (hdefault : stmt.hasToken "default" = false)
    (hdecl : stmt.child? "declaration" = none) {c : Node} (hparts : parts stmt = [c])
    (hclause : c.kind = "export_clause" → List.Forall₂ (Specified src stmt) (specifiers c) es)
    (hnamespace : c.kind = "namespace_export" → ∃ e, es = [e] ∧ e.name = namespaceName src c ∧
      e.source = sourceOf src stmt)
    (hstar : ∀ e ∈ es, e.name = "*" → e.localName ≠ []) : OnePerName src line stmt es where
  declared := by simp [hdecl]
  defaulted := by simp [hdefault]
  clause := by simpa [hparts] using hclause
  namespaced := by simpa [hparts] using hnamespace
  everything := iff_of_false (fun ⟨e, he, hname, hlocal⟩ => hstar e he hname hlocal) (by simp [hparts])

end Laws

/-! ### Declarations and values -/

section Own

variable {src : Text} {line : Int} {stmt : Node}

/-- A declaration that is not exported by default. -/
theorem onePerName_declaration (h : IsExport stmt) {decl : Node} (hdecl : stmt.child? "declaration" = some decl)
    (hdefault : stmt.hasToken "default" = false) :
    OnePerName src line stmt (ofStatement src line stmt) ↔ decl.NamedDirectly src := by
  have hown : (stmt.child? "declaration").isSome = true ∨ (stmt.child? "value").isSome = true :=
    .inl (by rw [hdecl]; rfl)
  have hparts := h.ownParts hown
  have hsource : sourceOf src stmt = [] := by rw [sourceOf, h.ownSource hown]; rfl
  have hes : ofStatement src line stmt = (declaredNames src decl).map fun name => ⟨name, name, false, [], line⟩ := by
    unfold ofStatement
    simp only [hdecl, hdefault, Bool.false_eq_true, if_false]
  rw [← declaredNames_eq_bound_iff, hes]
  have hinj : Function.Injective fun name : Text => (⟨name, name, false, [], line⟩ : ExportFact) := fun a b hab =>
    congrArg ExportFact.name hab
  constructor
  · intro hone
    exact List.map_injective_iff.2 hinj (hone.declared decl hdecl hdefault)
  · intro hnames
    refine .of_no_parts hparts ?_ (by simp [hdefault]) ?_
    · intro decl' hdecl' _
      rw [hdecl] at hdecl'
      cases hdecl'
      rw [hnames]
    · refine iff_of_false ?_ (by simp [hsource])
      rintro ⟨e, he, hstar, hlocal⟩
      obtain ⟨name, -, rfl⟩ := List.mem_map.1 he
      rw [show name = "*" from hstar] at hlocal
      exact absurd hlocal (show ("*" : Text) ≠ [] by decide)

/-- What is exported by default. -/
theorem onePerName_default (h : IsExport stmt) (hdefault : stmt.hasToken "default" = true) :
    OnePerName src line stmt (ofStatement src line stmt) := by
  have hown := h.defaultGiven hdefault
  have hparts := h.ownParts hown
  have hsource : sourceOf src stmt = [] := by rw [sourceOf, h.ownSource hown]; rfl
  obtain ⟨name, hes⟩ : ∃ name, ofStatement src line stmt = [⟨"default", name, true, [], line⟩] := by
    unfold ofStatement
    cases hdecl : stmt.child? "declaration" with
    | some decl => simp [hdefault]
    | none =>
      obtain ⟨value, hvalue⟩ := Option.isSome_iff_exists.1 (hown.resolve_left (by simp [hdecl]))
      simp [hvalue]
  rw [hes]
  refine .of_no_parts hparts (by simp [hdefault]) (fun _ => ⟨_, rfl, rfl, rfl⟩) (iff_of_false ?_ (by simp [hsource]))
  rintro ⟨e, he, hstar, -⟩
  rw [List.mem_singleton.1 he] at hstar
  exact absurd hstar (show ("default" : Text) ≠ "*" by decide)

end Own

/-! ### Clauses and namespaces -/

/-- The record of a specifier. -/
def ofSpecifier (src source : Text) (line : Int) (spec : Node) : ExportFact :=
  ⟨outerName src spec, innerName src spec, outerName src spec == "default", source, line⟩

/-- The record of all that a module exports. -/
def ofModule (source : Text) (line : Int) : ExportFact := ⟨"*", [], false, source, line⟩

section Listed

variable {src : Text} {line : Int} {stmt : Node}

theorem ofChild_clause {source : Text} {c : Node} (hkind : c.kind = "export_clause")
    (hnames : ∀ spec ∈ specifiers c, (spec.child? "name").isSome = true) :
    ofChild src source line c = (specifiers c).map (ofSpecifier src source line) := by
  unfold ofChild
  simp only [hkind]
  rw [← List.filterMap_eq_map]
  refine List.filterMap_congr fun spec hspec => ?_
  obtain ⟨name, hname⟩ := Option.isSome_iff_exists.1 (hnames spec hspec)
  simp [ofSpecifier, outerName, innerName, hname]

theorem ofChild_namespace {source : Text} {c : Node} (hkind : c.kind = "namespace_export") :
    ofChild src source line c = c.proper.map fun id => ⟨unquoted (id.text src), "*", false, source, line⟩ := by
  unfold ofChild
  simp only [hkind]

/-- A statement that declares nothing gives what its parts list, or else all of its module. -/
theorem ofStatement_listed (hdecl : stmt.child? "declaration" = none) (hvalue : stmt.child? "value" = none) :
    ofStatement src line stmt =
      if ((parts stmt).flatMap (ofChild src (sourceOf src stmt) line)).isEmpty && !(sourceOf src stmt).isEmpty then
        [ofModule (sourceOf src stmt) line]
      else (parts stmt).flatMap (ofChild src (sourceOf src stmt) line) := by
  have hlisted : ∀ l : List Node, l.flatMap (ofChild src (sourceOf src stmt) line) =
      (l.filter fun c => c.kind == "export_clause" || c.kind == "namespace_export").flatMap
        (ofChild src (sourceOf src stmt) line) := by
    intro l
    induction l with
    | nil => rfl
    | cons c l ih =>
      rw [List.flatMap_cons, List.filter_cons, ih]
      split
      · rfl
      · rename_i hother
        simp only [Bool.or_eq_true, beq_iff_eq, not_or] at hother
        have hnone : ofChild src (sourceOf src stmt) line c = [] := by
          unfold ofChild
          split
          · rename_i hkind
            exact absurd hkind hother.1
          · rename_i hkind
            exact absurd hkind hother.2
          · rfl
        rw [hnone, List.nil_append]
  unfold ofStatement
  simp only [hdecl, hvalue]
  rw [parts, ← hlisted]
  rfl

variable (h : IsExport stmt) (hdefault : stmt.hasToken "default" = false) (hdecl : stmt.child? "declaration" = none)
  (hvalue : stmt.child? "value" = none)

include hdefault hdecl hvalue

/-- A statement without parts passes everything on, or exports nothing. -/
theorem onePerName_bare (hparts : parts stmt = []) : OnePerName src line stmt (ofStatement src line stmt) := by
  rw [ofStatement_listed hdecl hvalue, hparts]
  refine .of_no_parts hparts (by simp [hdecl]) (by simp [hdefault]) ?_
  cases hsource : sourceOf src stmt with
  | nil => simp
  | cons b rest => simp [ofModule]

include h

/-- A clause lists its specifiers; without any it passes on everything if it has a source. -/
theorem onePerName_clause {c : Node} (hparts : parts stmt = [c]) (hkind : c.kind = "export_clause") :
    OnePerName src line stmt (ofStatement src line stmt) ↔
      (sourceOf src stmt ≠ [] → specifiers c ≠ []) ∧
        ∀ spec ∈ specifiers c, outerName src spec = "*" → innerName src spec ≠ [] := by
  have hmem : c ∈ parts stmt := by simp [hparts]
  have hnames := h.specified c hmem
  rw [ofStatement_listed hdecl hvalue, hparts, List.flatMap_singleton, ofChild_clause hkind hnames]
  have hlisted : (sourceOf src stmt ≠ [] → specifiers c ≠ []) →
      ¬ (((specifiers c).map (ofSpecifier src (sourceOf src stmt) line)).isEmpty && !(sourceOf src stmt).isEmpty) =
      true := by
    simpa using fun hfilled => not_imp_not.1 hfilled
  constructor
  · intro hone
    have hclause := hone.clause c hmem hkind
    have hfilled : sourceOf src stmt ≠ [] → specifiers c ≠ [] := by
      intro hsource hempty
      simp [hempty, hsource] at hclause
    refine ⟨hfilled, fun spec hspec houter hinner => ?_⟩
    have hstar := hone.everything.1
    rw [if_neg (hlisted hfilled)] at hstar
    exact absurd (hstar ⟨_, List.mem_map_of_mem hspec, houter, hinner⟩).2 (by simp [hparts])
  · rintro ⟨hfilled, hstarless⟩
    rw [if_neg (hlisted hfilled)]
    refine .of_part hdefault hdecl hparts (fun _ => ?_) (by simp [hkind]) ?_
    · rw [List.forall₂_map_right_iff, List.forall₂_same]
      exact fun spec _ => ⟨rfl, rfl, beq_iff_eq, rfl⟩
    · intro e he
      obtain ⟨spec, hspec, rfl⟩ := List.mem_map.1 he
      exact hstarless spec hspec

/-- A namespace is exported under its named node; without one it is lost, or everything is passed on in its place. -/
theorem onePerName_namespace {c : Node} (hparts : parts stmt = [c]) (hkind : c.kind = "namespace_export") :
    OnePerName src line stmt (ofStatement src line stmt) ↔ c.proper ≠ [] := by
  have hmem : c ∈ parts stmt := by simp [hparts]
  have hone := h.oneName c hmem hkind
  rw [ofStatement_listed hdecl hvalue, hparts, List.flatMap_singleton, ofChild_namespace hkind]
  cases hproper : c.proper with
  | nil =>
    -- nothing is recorded, or the name `*`
    refine iff_of_false (fun hlaw => ?_) (by simp)
    obtain ⟨e, he, hname, -⟩ := hlaw.namespaced c hmem hkind
    have hdefaultName : namespaceName src c = "default" := by rw [namespaceName, hproper]; rfl
    rw [hdefaultName] at hname
    by_cases hsource : sourceOf src stmt = []
    · simp [hsource] at he
    · simp only [List.map_nil, List.isEmpty_nil, List.isEmpty_eq_false_iff.2 hsource, Bool.not_false, Bool.and_self,
        if_true] at he
      rw [← (List.cons.inj he).1] at hname
      exact absurd hname (show ("*" : Text) ≠ "default" by decide)
  | cons id rest =>
    rw [hproper, List.length_cons] at hone
    obtain rfl : rest = [] := List.length_eq_zero_iff.1 (by omega)
    refine iff_of_true (.of_part hdefault hdecl hparts (by simp [hkind]) (fun _ => ?_) ?_) (by simp)
    · exact ⟨_, rfl, by simp [namespaceName, hproper], rfl⟩
    · intro e he _
      rw [List.mem_singleton.1 he]
      exact show ("*" : Text) ≠ [] by decide

end Listed

/-- The records of a statement are one for each name it exports exactly if it shows its names. -/
theorem onePerName_iff (src : Text) (line : Int) (stmt : Node) (h : IsExport stmt) :
    OnePerName src line stmt (ofStatement src line stmt) ↔ ShowsNames src stmt := by
  cases hdefault : stmt.hasToken "default" with
  | true =>
    have hparts := h.ownParts (h.defaultGiven hdefault)
    refine iff_of_true (onePerName_default h hdefault) ⟨?_, ?_, ?_, ?_⟩ <;> simp [hdefault, hparts]
  | false =>
    have hvalue : stmt.child? "value" = none := by
      rw [← Option.not_isSome_iff_eq_none]
      exact fun hvalue => Bool.false_ne_true (hdefault ▸ h.valueDefault hvalue)
    cases hdecl : stmt.child? "declaration" with
    | some decl =>
      have hparts := h.ownParts (.inl (by simp [hdecl]))
      rw [onePerName_declaration h hdecl hdefault]
      exact ⟨fun hdirect => ⟨by simpa [hdecl] using fun _ => hdirect, by simp [hparts], by simp [hparts],
        by simp [hparts]⟩,
        fun hshows => hshows.direct decl hdecl hdefault⟩
    | none =>
      match hparts : parts stmt, h.onePart with
      | [], _ =>
        refine iff_of_true (onePerName_bare hdefault hdecl hvalue hparts) ⟨?_, ?_, ?_, ?_⟩ <;> simp [hdecl, hparts]
      | [c], _ =>
        have hmem : c ∈ parts stmt := by simp [hparts]
        have hkind := (List.mem_filter.1 hmem).2
        simp only [Bool.or_eq_true, beq_iff_eq] at hkind
        rcases hkind with hkind | hkind
        · rw [onePerName_clause h hdefault hdecl hvalue hparts hkind]
          constructor
          · rintro ⟨hfilled, hstarless⟩
            refine ⟨by simp [hdecl], ?_, ?_, ?_⟩
            · simpa [hparts, hkind] using hfilled
            · simp [hparts, hkind]
            · simpa [hparts, hkind] using hstarless
          · exact fun hshows => ⟨fun hsource => hshows.filled hsource c hmem hkind, hshows.starless c hmem hkind⟩
        · rw [onePerName_namespace h hdefault hdecl hvalue hparts hkind]
          exact ⟨fun hnamed => ⟨by simp [hdecl], by simp [hparts, hkind], by simpa [hparts] using fun _ => hnamed,
            by simp [hparts, hkind]⟩, fun hshows => hshows.named c hmem hkind⟩

/-- The statement `export { a, b as default } from "m";`. -/
def twoNames : Node :=
  .named "export_statement" none 0 36
    [.token "export" 0 6,
      .named "export_clause" none 7 26
        [.token "\x7b" 7 8, .named "export_specifier" none 9 10 [.named "identifier" (some "name") 9 10 []],
        .token "," 10 11,
          .named "export_specifier" none 12 24
            [.named "identifier" (some "name") 12 13 [], .token "as" 14 16,
              .mk ⟨"default", some "alias", 17, 24, false, false, false, false⟩ []],
          .token "\x7d" 25 26],
      .token "from" 27 31, .named "string" (some "source") 32 35 [], .token ";" 35 36]

/-- It exports two names of another module, one of them by default. -/
theorem twoNames_onePerName : IsExport twoNames ∧ ShowsNames "export \x7b a, b as default \x7d from \"m\";" twoNames ∧
    OnePerName "export \x7b a, b as default \x7d from \"m\";" 1 twoNames
      [⟨"a", "a", false, "m", 1⟩, ⟨"default", "b", true, "m", 1⟩] := by
  have hpromise : IsExport twoNames := by
    refine ⟨?_, ?_, ?_, ?_, ?_, ?_, ?_⟩ <;> decide
  have hshows : ShowsNames "export \x7b a, b as default \x7d from \"m\";" twoNames :=
    ⟨(fun _ hdecl => by cases hdecl), by decide, by decide, by decide⟩
  exact ⟨hpromise, hshows, (onePerName_iff _ 1 twoNames hpromise).2 hshows⟩

/-- The statement `export {} from "e";`. -/
def noNames : Node :=
  .named "export_statement" none 0 19
    [.token "export" 0 6, .named "export_clause" none 7 9 [.token "\x7b" 7 8, .token "\x7d" 8 9], .token "from" 10 14,
      .named "string" (some "source") 15 18 [], .token ";" 18 19]

/-- So the records need not be one for each name: a clause that lists nothing passes on all of its module. -/
theorem not_onePerName : ¬ ∀ (src : Text) (line : Int) (stmt : Node), stmt.kind = "export_statement" →
    stmt.hasFault = false →
    IsExport stmt → OnePerName src line stmt (ofStatement src line stmt) := by
  intro h
  have hpromise : IsExport noNames := by
    refine ⟨?_, ?_, ?_, ?_, ?_, ?_, ?_⟩ <;> decide
  have hone := h "export \x7b\x7d from \"e\";" 1 noNames rfl rfl hpromise
  have hall : (⟨"*", [], false, "e", 1⟩ : ExportFact) ∈ ofStatement "export \x7b\x7d from \"e\";" 1 noNames :=
    List.mem_singleton.2 rfl
  exact absurd (hone.everything.1 ⟨_, hall, rfl, rfl⟩).2 (by decide)

end ExportFact

end DocAtlas
