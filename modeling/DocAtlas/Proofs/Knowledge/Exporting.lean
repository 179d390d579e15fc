/-
Which declarations inside functions count as exported. A declaration that stands in an export statement does,
and no such statement stands in a function. But a symbol also counts as exported if an export of the file has its
name for the local one, and the names are compared without their places. So a declaration inside a function is
marked exactly if it happens to have the name of something that is exported.
-/
import DocAtlas.Proofs.Knowledge.Listing

namespace DocAtlas

/-! ## Inside functions -/

/-- A function stands around the place. -/
def Cursor.InFunction (c : Cursor) : Prop := ∃ p ∈ c.ancestors, p.isFunction = true

instance (c : Cursor) : Decidable c.InFunction := inferInstanceAs (Decidable (∃ p ∈ c.ancestors, p.isFunction = true))

/-- No export statement stands in a function. -/
def SyntaxTree.ExportsOutside (t : SyntaxTree) : Prop :=
  ∀ e ∈ (Cursor.ofRoot t.root).preorder, e.node.kind = "export_statement" → ¬ e.InFunction

instance (t : SyntaxTree) : Decidable t.ExportsOutside :=
  inferInstanceAs (Decidable (∀ e ∈ (Cursor.ofRoot t.root).preorder, e.node.kind = "export_statement" → ¬ e.InFunction))

theorem Cursor.inFunction_of_child {c d : Cursor} (h : d ∈ c.children) :
    d.InFunction ↔ c.node.isFunction = true ∨ c.InFunction := by
  unfold InFunction
  rw [ancestors_of_child h, List.exists_mem_cons_iff]

theorem Node.not_isFunction_of_export {n : Node} (h : n.kind = "export_statement") : n.isFunction = false := by
  rw [isFunction, shape, h]
  rfl

theorem Node.not_isFunction_of_variables {n : Node} (h : n.isVariableDeclaration = true) : n.isFunction = false := by
  unfold isVariableDeclaration at h
  rw [Bool.or_eq_true, beq_iff_eq, beq_iff_eq] at h
  rcases h with h | h <;> rw [isFunction, shape, h] <;> rfl

/-- What stands directly in an export statement stands in no function, if the statement does not. -/
theorem SymbolFact.not_isExported_of_inFunction {tree : SyntaxTree} (houtside : tree.ExportsOutside) {d : Cursor}
    (hd : d ∈ (Cursor.ofRoot tree.root).preorder) (hin : d.InFunction) : isExported d = false := by
  have hstatement : ∀ e, (Cursor.ofRoot tree.root).Contains e → e.node.isFunction = true ∨ e.InFunction →
      e.node.kind ≠ "export_statement" := by
    intro e he hfun hkind
    rcases hfun with hfun | hfun
    · rw [Node.not_isFunction_of_export hkind] at hfun
      cases hfun
    · exact houtside e (Cursor.mem_preorder.2 he) hkind hfun
  rcases Relation.ReflTransGen.cases_tail (Cursor.mem_preorder.1 hd) with rfl | ⟨c, hc, hchild⟩
  · rfl
  rw [Cursor.inFunction_of_child hchild] at hin
  have hparent := hstatement c hc hin
  unfold isExported
  rw [Cursor.ancestors_of_child hchild]
  simp only [beq_eq_false_iff_ne.2 hparent, Bool.false_or, Bool.and_eq_false_imp]
  intro hvariables
  rcases Relation.ReflTransGen.cases_tail hc with rfl | ⟨b, hb, hchild'⟩
  · rfl
  -- the declaration of the variables is no function, so the function stands around it
  have hin' := hin.resolve_left (by rw [Node.not_isFunction_of_variables hvariables]; exact Bool.false_ne_true)
  rw [Cursor.inFunction_of_child hchild'] at hin'
  rw [Cursor.ancestors_of_child hchild', List.head?_cons, Option.any_some]
  exact beq_eq_false_iff_ne.2 (hstatement b hb hin')

/-! ## Exports -/

namespace ExportFact

/-- What is recorded of the matches at a place. -/
theorem flatMap_ofMatch (g : Grammar) (tree : SyntaxTree) (c : Cursor) :
    (QueryKind.matchesAt (QueryKind.imports.patterns g) c).flatMap (ofMatch tree) =
      if c.node.isNamed && c.node.kind == "export_statement" then
        (ofStatement tree.source (tree.lineAt c.node.start) c.node).map fun e => (c.node.start, e)
      else [] := by
  have hcaptures : (QueryKind.matchesAt (QueryKind.imports.patterns g) c).flatMap (ofMatch tree) =
      ((QueryKind.imports.patterns g).filterMap fun p => p.captures? c).flatMap fun cs => ofMatch tree ⟨0, cs⟩ := by
    rw [← QueryKind.map_captures_matchesAt, List.flatMap_map]
    rfl
  -- the pattern for imports captures no export
  have himport : ∀ cs, (Pattern.mk "import_statement" "import.statement"
      [([⟨"source", some "string"⟩], "import.source")]).captures? c = some cs → ofMatch tree ⟨0, cs⟩ = [] := by
    intro cs hcs
    rw [Pattern.captures?_child] at hcs
    split at hcs
    · obtain ⟨d, -, rfl⟩ := Option.map_eq_some_iff.1 hcs
      rfl
    · cases hcs
  have hexport : (([Pattern.mk "export_statement" "export.statement" []].filterMap fun p => p.captures? c).flatMap
      fun cs => ofMatch tree ⟨0, cs⟩) = if c.node.isNamed && c.node.kind == "export_statement" then
        (ofStatement tree.source (tree.lineAt c.node.start) c.node).map fun e => (c.node.start, e) else [] := by
    rw [List.filterMap_cons, List.filterMap_nil, Pattern.captures?]
    cases c.node.isNamed && c.node.kind == "export_statement" with
    | false => rfl
    | true => exact List.flatMap_singleton ..
  rw [hcaptures, ← hexport, QueryKind.patterns, List.filterMap_cons]
  split
  · rfl
  · rename_i cs hcs
    rw [List.flatMap_cons, himport cs hcs, List.nil_append]

/-- The exports of a file are those of its export statements. -/
theorem mem_extract {g : Grammar} {tree : SyntaxTree} {e : ExportFact} : e ∈ extract g tree ↔
    ∃ c ∈ (Cursor.ofRoot tree.root).preorder, (c.node.isNamed && c.node.kind == "export_statement") = true ∧
      e ∈ ofStatement tree.source (tree.lineAt c.node.start) c.node := by
  have hat : ∀ c y, y ∈ (QueryKind.matchesAt (QueryKind.imports.patterns g) c).flatMap (ofMatch tree) ↔
      (c.node.isNamed && c.node.kind == "export_statement") = true ∧
        ∃ e ∈ ofStatement tree.source (tree.lineAt c.node.start) c.node, (c.node.start, e) = y := by
    intro c y
    rw [flatMap_ofMatch]
    split
    · rename_i hc
      rw [List.mem_map, and_iff_right hc]
    · rename_i hc
      simp [hc]
  unfold extract inDocumentOrder
  simp only [List.mem_map, List.mem_mergeSort, List.mem_flatMap, QueryKind.mem_run] at hat ⊢
  constructor
  · rintro ⟨y, ⟨m, ⟨c, hc, hm⟩, hy⟩, rfl⟩
    obtain ⟨hkind, e, he, rfl⟩ := (hat c y).1 ⟨m, hm, hy⟩
    exact ⟨c, hc, hkind, he⟩
  · rintro ⟨c, hc, hkind, he⟩
    obtain ⟨m, hm, hy⟩ := (hat c (c.node.start, e)).2 ⟨hkind, e, he, rfl⟩
    exact ⟨_, ⟨m, ⟨c, hc, hm⟩, hy⟩, rfl⟩

end ExportFact

/-! ## Marks -/

namespace FileFacts

/-- The symbol is the record of the declaration at the place. -/
def RecordedAt (g : Grammar) (tree : SyntaxTree) (d : Cursor) (s : SymbolFact) : Prop :=
  d ∈ (Cursor.ofRoot tree.root).preorder ∧ symbolAt? g tree d = some s

theorem mem_exportedNames {exports : List ExportFact} {name : Text} :
    name ∈ exportedNames exports ↔ name ≠ [] ∧ ∃ e ∈ exports, e.source = [] ∧ e.localName = name := by
  unfold exportedNames
  simp only [List.mem_map, List.mem_filter, Bool.and_eq_true, List.isEmpty_iff, Bool.not_eq_true',
    List.isEmpty_eq_false_iff]
  constructor
  · rintro ⟨e, ⟨he, hsource, hname⟩, rfl⟩
    exact ⟨hname, e, he, hsource, rfl⟩
  · rintro ⟨hname, e, he, hsource, rfl⟩
    exact ⟨e, ⟨he, hsource, hname⟩, rfl⟩

theorem mem_symbols {path : Text} {g : Grammar} {tree : SyntaxTree} {s : SymbolFact} :
    s ∈ (ofTree path g tree).symbols ↔ ∃ d, RecordedAt g tree d s := by
  unfold ofTree markExported SymbolFact.extract RecordedAt symbolAt?
  simp only [List.mem_map, QueryKind.mem_records fun c _ => SymbolFact.filterMap_ofMatch? g tree c,
    Option.map_eq_some_iff]
  constructor
  · rintro ⟨t, ⟨d, hd, ht⟩, rfl⟩
    exact ⟨d, hd, t, ht, rfl⟩
  · rintro ⟨d, hd, t, ht, rfl⟩
    exact ⟨t, ⟨d, hd, ht⟩, rfl⟩

theorem exported_ofDeclaration (tree : SyntaxTree) (category : String) (name : Text) (d : Cursor) :
    (SymbolFact.ofDeclaration tree category name d).exported = SymbolFact.isExported d := by
  unfold SymbolFact.ofDeclaration
  split
  · rfl
  · split
    · rfl
    · split <;> rfl

/-- A symbol is marked where its declaration stands in an export statement, and where its name is exported. -/
theorem exported_iff {g : Grammar} {tree : SyntaxTree} {d : Cursor} {s : SymbolFact} (h : RecordedAt g tree d s) :
    s.exported = true ↔ SymbolFact.isExported d = true ∨ s.name ∈ exportedNames (ExportFact.extract g tree) := by
  obtain ⟨-, h⟩ := h
  obtain ⟨t, ht, rfl⟩ := Option.map_eq_some_iff.1 h
  obtain ⟨x, -, rfl⟩ := Option.map_eq_some_iff.1 ht
  rw [← exported_ofDeclaration tree x.1 (x.2.text tree.source) d]
  generalize SymbolFact.ofDeclaration tree x.1 (x.2.text tree.source) d = t
  by_cases hname : t.name ∈ exportedNames (ExportFact.extract g tree) <;> simp [hname]

/-- If all exports stand outside functions, a declaration inside a function is marked as exported exactly if it has the
local name of an export that is the file's own. -/
theorem exported_inFunction_iff (path : Text) (g : Grammar) (tree : SyntaxTree) (houtside : tree.ExportsOutside) :
    (∀ s, s ∈ (ofTree path g tree).symbols ↔ ∃ d, RecordedAt g tree d s) ∧
      ∀ d s, RecordedAt g tree d s → d.InFunction →
        (s.exported = true ↔ s.name ≠ [] ∧ ∃ e ∈ (ofTree path g tree).exports, e.source = [] ∧
          e.localName = s.name) := by
  refine ⟨fun s => mem_symbols, fun d s hs hd => ?_⟩
  have hplace := SymbolFact.not_isExported_of_inFunction houtside hs.1 hd
  rw [exported_iff hs, hplace, mem_exportedNames]
  simp only [Bool.false_eq_true, false_or]
  rfl

/-- The declaration `const a = 1;`. -/
def constantA (field : Option String) (start : Nat) : Node :=
  .named "lexical_declaration" field start (start + 12)
    [.mk ⟨"const", some "kind", start, start + 5, false, false, false, false⟩ [],
      .named "variable_declarator" none (start + 6) (start + 11)
        [.named "identifier" (some "name") (start + 6) (start + 7) [], .token "=" (start + 8) (start + 9),
          .named "number" (some "value") (start + 10) (start + 11) []],
      .token ";" (start + 11) (start + 12)]

/-- A file that exports `a` and has a function with a variable `a` of its own. -/
def shadowTree : SyntaxTree :=
  ⟨"export const a = 1;\nfunction f() \x7b const a = 2; \x7d\n", .named "program" none 0 50
    [.named "export_statement" none 0 19 [.token "export" 0 6, constantA (some "declaration") 7],
      .named "function_declaration" none 20 49
        [.token "function" 20 28, .named "identifier" (some "name") 29 30 [],
          .named "formal_parameters" (some "parameters") 30 32 [.token "(" 30 31, .token ")" 31 32],
          .named "statement_block" (some "body") 33 49 [.token "\x7b" 33 34, constantA none 35, .token "\x7d" 48 49]]]⟩

/-- The place of the variable in the function. -/
def shadowPlace : Cursor := ((Cursor.ofRoot shadowTree.root).down? [1, 3, 1, 1]).getD (.ofRoot shadowTree.root)

/-- The record of this variable. -/
def shadowSymbol : SymbolFact := ⟨"variable", "a", 2, 2, true, "const", [], false, false, [], [], []⟩

theorem shadow_recorded : RecordedAt .javascript shadowTree shadowPlace shadowSymbol := by
  have hway : (Cursor.ofRoot shadowTree.root).down? [1, 3, 1, 1] = some _ := rfl
  have hplace : shadowPlace ∈ (Cursor.ofRoot shadowTree.root).preorder :=
    Cursor.mem_preorder.2 (Cursor.contains_of_down? hway)
  have hrecord : SymbolFact.at? .javascript shadowTree shadowPlace = some { shadowSymbol with exported := false } := rfl
  have hexport : (⟨"a", "a", false, [], 1⟩ : ExportFact) ∈ ExportFact.extract .javascript shadowTree := by
    have hstatement : (Cursor.ofRoot shadowTree.root).down? [0] = some _ := rfl
    exact ExportFact.mem_extract.2
      ⟨_, Cursor.mem_preorder.2 (Cursor.contains_of_down? hstatement), rfl, List.mem_singleton.2 rfl⟩
  have hname : (exportedNames (ExportFact.extract .javascript shadowTree)).contains ("a" : Text) = true :=
    List.contains_iff_mem.2 (mem_exportedNames.2 ⟨by decide, _, hexport, rfl, rfl⟩)
  refine ⟨hplace, ?_⟩
  rw [symbolAt?, hrecord, Option.map_some]
  exact congrArg some (if_pos hname)

/-- The variable in the function is marked, for the file exports a name like its own. -/
theorem shadow_exported : shadowTree.ExportsOutside ∧ RecordedAt .javascript shadowTree shadowPlace shadowSymbol ∧
    shadowPlace.InFunction ∧ shadowSymbol.name ≠ [] ∧
      ∃ e ∈ (ofTree "p.js" .javascript shadowTree).exports, e.source = [] ∧ e.localName = shadowSymbol.name := by
  have houtside : shadowTree.ExportsOutside := by decide +kernel
  have hin : shadowPlace.InFunction := by decide +kernel
  refine ⟨houtside, shadow_recorded, hin, ?_⟩
  exact ((exported_inFunction_iff "p.js" .javascript shadowTree houtside).2 shadowPlace shadowSymbol
    shadow_recorded hin).1 rfl

/-- So a declaration inside a function can count as exported although nothing in a function is. -/
theorem locals_not_unexported : ¬ ∀ (g : Grammar) (tree : SyntaxTree) (d : Cursor) (s : SymbolFact),
    tree.root.hasFault = false → tree.ExportsOutside → RecordedAt g tree d s → s.exported = true → ¬ d.InFunction := by
  intro h
  have houtside : shadowTree.ExportsOutside := by decide +kernel
  have hin : shadowPlace.InFunction := by decide +kernel
  exact h .javascript shadowTree shadowPlace shadowSymbol rfl houtside shadow_recorded rfl hin

end FileFacts

end DocAtlas
