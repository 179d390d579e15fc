/-
The declarations of a file, at any depth, in document order.
-/
import DocAtlas.Knowledge.Facts
import DocAtlas.Tree.Query

namespace DocAtlas

/-- Records with the byte they start at, put in document order; records that start together keep
their order. -/
def inDocumentOrder {α : Type} (items : List (Nat × α)) : List α :=
  (items.mergeSort fun a b => decide (a.1 ≤ b.1)).map Prod.snd

namespace Node

mutual

/-- A parameter without its annotations and default value, as far as there is something below. -/
def bareParameter : Node → Node
  | mk i cs =>
    if i.kind == "required_parameter" || i.kind == "optional_parameter" then
      (bareField? "pattern" cs).getD (mk i cs)
    else if i.kind == "assignment_pattern" then (bareField? "left" cs).getD (mk i cs)
    else mk i cs

/-- The first node with a role, bare. -/
def bareField? (f : String) : List Node → Option Node
  | [] => none
  | c :: cs => if c.hasField f then some (bareParameter c) else bareField? f cs

end

/-- Whether a node is a declaration of variables. -/
def isVariableDeclaration (n : Node) : Bool :=
  n.kind == "lexical_declaration" || n.kind == "variable_declaration"

end Node

namespace SymbolFact

/-- Whether a declaration stands directly in an export statement. -/
def isExported (decl : Cursor) : Bool :=
  match decl.ancestors with
  | [] => false
  | parent :: above =>
    parent.kind == "export_statement" ||
      (parent.isVariableDeclaration && (above.head?.any fun g => g.kind == "export_statement"))

/-- The names of the parameters; patterns are kept as written. -/
def parameterNames (src : Text) (params : Option Node) : List Text :=
  ((params.map Node.proper).getD []).map fun p => p.bareParameter.text src

/-- The expression a heritage clause extends. -/
def extended? (src : Text) (h : Node) : Option Text :=
  if h.kind == "extends_clause" then (h.child? "value").map fun v => v.text src
  else if h.kind == "implements_clause" then none
  else some (h.text src)

/-- The expression a class extends; empty if it extends none. -/
def superClassOf (src : Text) (decl : Node) : Text :=
  (((decl.proper.filter fun c => c.kind == "class_heritage").flatMap Node.proper).findSome? (extended? src)).getD []

/-- The members of a class body of some kind, by the text of their field. -/
def membersOf (src : Text) (body : Option Node) (field? : String → Option String) : List Text :=
  ((body.map Node.proper).getD []).filterMap fun m =>
    ((field? m.kind).bind m.child?).map fun n => n.text src

/-- The field that holds the name of a method. -/
def methodField? (kind : String) : Option String := if kind == "method_definition" then some "name" else none

/-- The field that holds the name of a property. -/
def propertyField? (kind : String) : Option String :=
  if kind == "field_definition" then some "property"
  else if kind == "public_field_definition" then some "name"
  else none

/-- The keyword a variable is declared with. -/
def keywordOf (src : Text) (decl : Cursor) : Text :=
  match decl.ancestors with
  | [] => []
  | parent :: _ =>
    if parent.kind == "lexical_declaration" then ((parent.child? "kind").map fun k => k.text src).getD []
    else if parent.kind == "variable_declaration" then "var"
    else []

/-- What every declaration records. -/
def basic (tree : SyntaxTree) (category : String) (name : Text) (decl : Cursor) : SymbolFact :=
  { kind := category
    name
    startLine := tree.lineAt decl.node.start
    endLine := tree.lineAt decl.node.stop
    exported := isExported decl
    declaration := []
    params := []
    async := false
    generator := false
    superClass := []
    methods := []
    properties := [] }

/-- The record of a declaration of a category. -/
def ofDeclaration (tree : SyntaxTree) (category : String) (name : Text) (decl : Cursor) : SymbolFact :=
  let s := basic tree category name decl
  let n := decl.node
  if category == "function" then
    { s with
      params := parameterNames tree.source (n.child? "parameters")
      async := n.hasToken "async"
      generator := n.kind == "generator_function_declaration" }
  else if category == "variable" then { s with declaration := keywordOf tree.source decl }
  else if category == "class" then
    let body := n.child? "body"
    { s with
      superClass := superClassOf tree.source n
      methods := membersOf tree.source body methodField?
      properties := membersOf tree.source body propertyField? }
  else s

/-- The categories of declaration. -/
def categories : List String := ["class", "function", "variable", "interface", "type", "enum"]

/-- The record of a match, with the byte it starts at. -/
def ofMatch? (tree : SyntaxTree) (m : Match) : Option (Nat × SymbolFact) :=
  categories.findSome? fun category =>
    match m.get? (category ++ ".name"), m.get? (category ++ ".declaration") with
    | some name, some decl =>
      some (decl.node.start, ofDeclaration tree category (name.node.text tree.source) decl)
    | _, _ => none

/-- The declarations of a tree. -/
def extract (g : Grammar) (tree : SyntaxTree) : List SymbolFact :=
  inDocumentOrder ((QueryKind.symbols.run g tree.root).filterMap (ofMatch? tree))

end SymbolFact

end DocAtlas
