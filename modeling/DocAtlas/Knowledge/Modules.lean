/-
The imports and exports of a file. They are read as written; nothing is resolved against other
files.
-/
import DocAtlas.Knowledge.Symbols

namespace DocAtlas

/-- A string literal without its delimiters; anything else unchanged. -/
def unquoted (t : Text) : Text :=
  match t with
  | q :: rest =>
    if (q == 34 || q == 39 || q == 96) && 1 ≤ rest.length && rest.getLast? == some q then rest.dropLast else t
  | [] => t

namespace ImportFact

/-- The bindings of one part of an import clause. -/
def specifiersOfPart (src : Text) (part : Node) : List Specifier :=
  match part.kind with
  | "identifier" =>
    let name := part.text src
    [⟨"ImportDefaultSpecifier", name, name⟩]
  | "namespace_import" =>
    (part.proper.filter fun id => id.kind == "identifier").map fun id =>
      ⟨"ImportNamespaceSpecifier", id.text src, id.text src⟩
  | "named_imports" =>
    (part.proper.filter fun s => s.kind == "import_specifier").filterMap fun s =>
      (s.child? "name").map fun name =>
        let imported := unquoted (name.text src)
        ⟨"ImportSpecifier", ((s.child? "alias").map fun a => a.text src).getD imported, imported⟩
  | _ => []

/-- The bindings of an import statement. -/
def specifiersOf (src : Text) (stmt : Node) : List Specifier :=
  ((stmt.proper.filter fun c => c.kind == "import_clause").flatMap Node.proper).flatMap (specifiersOfPart src)

/-- The record of a match, with the byte it starts at. -/
def ofMatch? (tree : SyntaxTree) (m : Match) : Option (Nat × ImportFact) :=
  match m.get? "import.statement", m.get? "import.source" with
  | some stmt, some source =>
    some (stmt.node.start,
      { source := unquoted (source.node.text tree.source)
        specifiers := some (specifiersOf tree.source stmt.node)
        startLine := tree.lineAt stmt.node.start
        endLine := tree.lineAt stmt.node.stop })
  | _, _ => none

/-- The imports of a tree. -/
def extract (g : Grammar) (tree : SyntaxTree) : List ImportFact :=
  inDocumentOrder ((QueryKind.imports.run g tree.root).filterMap (ofMatch? tree))

end ImportFact

namespace ExportFact

/-- The names an exported declaration introduces. -/
def declaredNames (src : Text) (decl : Node) : List Text :=
  if decl.isVariableDeclaration then
    (decl.proper.filter fun d => d.kind == "variable_declarator").filterMap fun d =>
      match d.child? "name" with
      | some name => if name.kind == "identifier" then some (name.text src) else none
      | none => none
  else ((decl.child? "name").map fun n => n.text src).toList

/-- What a default export calls its value in the file. -/
def valueName (src : Text) (value : Node) : Text :=
  match value.kind with
  | "identifier" => value.text src
  | "function_expression" | "function" | "class" => ((value.child? "name").map fun n => n.text src).getD []
  | _ => []

/-- The exports of a clause or a namespace export. -/
def ofChild (src source : Text) (line : Int) (child : Node) : List ExportFact :=
  match child.kind with
  | "export_clause" =>
    (child.proper.filter fun s => s.kind == "export_specifier").filterMap fun s =>
      (s.child? "name").map fun name =>
        let inner := unquoted (name.text src)
        let outer := ((s.child? "alias").map fun a => unquoted (a.text src)).getD inner
        ⟨outer, inner, outer == "default", source, line⟩
  | "namespace_export" => child.proper.map fun id => ⟨unquoted (id.text src), "*", false, source, line⟩
  | _ => []

/-- The exports of a statement. One that names nothing but has a source passes everything on. -/
def ofStatement (src : Text) (line : Int) (stmt : Node) : List ExportFact :=
  let source := ((stmt.child? "source").map fun s => unquoted (s.text src)).getD []
  match stmt.child? "declaration" with
  | some decl =>
    let names := declaredNames src decl
    if stmt.hasToken "default" then [⟨"default", names.head?.getD [], true, [], line⟩]
    else names.map fun name => ⟨name, name, false, [], line⟩
  | none =>
    match stmt.child? "value" with
    | some value => [⟨"default", valueName src value, true, [], line⟩]
    | none =>
      let listed := stmt.proper.flatMap (ofChild src source line)
      if listed.isEmpty && !source.isEmpty then [⟨"*", [], false, source, line⟩] else listed

/-- The records of a match, with the byte they start at. -/
def ofMatch (tree : SyntaxTree) (m : Match) : List (Nat × ExportFact) :=
  match m.get? "export.statement" with
  | some stmt =>
    (ofStatement tree.source (tree.lineAt stmt.node.start) stmt.node).map fun e => (stmt.node.start, e)
  | none => []

/-- The exports of a tree. -/
def extract (g : Grammar) (tree : SyntaxTree) : List ExportFact :=
  inDocumentOrder ((QueryKind.imports.run g tree.root).flatMap (ofMatch tree))

end ExportFact

end DocAtlas
