/-
Queries over a tree. A pattern names a kind of node and, for some of its fields, the kind of child
that must stand there; the node and the children are captured under names. All nodes are tried,
and matches come in the order of their last captures.
-/
import DocAtlas.Tree.Cursor
import DocAtlas.Fault
import DocAtlas.Source.Grammar

namespace DocAtlas

/-- A step to a child: its role, and its kind unless any named child will do. -/
structure FieldStep where
  field : String
  kind : Option String

namespace FieldStep

/-- Whether a child is the one the step asks for. -/
def accepts (s : FieldStep) (n : Node) : Bool :=
  n.hasField s.field && n.isNamed && (s.kind.all fun k => n.kind == k)

/-- The first child the step asks for. -/
def follow? (s : FieldStep) (c : Cursor) : Option Cursor := c.children.find? fun d => s.accepts d.node

end FieldStep

/-- A pattern: the kind of the node, the name it is captured under, and the descendants that must
be there with the names they are captured under. -/
structure Pattern where
  kind : String
  label : String
  parts : List (List FieldStep × String)

/-- A captured node. -/
structure Capture where
  label : String
  node : Cursor

/-- A match of the pattern with the given number. -/
structure Match where
  pattern : Nat
  captures : List Capture

namespace Pattern

/-- The captures of the parts, if all are there. -/
def captureParts? (c : Cursor) : List (List FieldStep × String) → Option (List Capture)
  | [] => some []
  | (steps, label) :: parts =>
    match steps.foldl (fun at? s => at?.bind s.follow?) (some c), captureParts? c parts with
    | some d, some rest => some (⟨label, d⟩ :: rest)
    | _, _ => none

/-- The captures of a pattern at a node. -/
def captures? (p : Pattern) (c : Cursor) : Option (List Capture) :=
  if c.node.isNamed && c.node.kind == p.kind then (captureParts? c p.parts).map (⟨p.label, c⟩ :: ·) else none

end Pattern

namespace Match

/-- The first node captured under a name. -/
def get? (m : Match) (label : String) : Option Cursor :=
  (m.captures.find? fun c => c.label == label).map Capture.node

/-- Where the last capture starts. -/
def lastStart (m : Match) : Nat := (m.captures.getLast?.map fun c => c.node.node.start).getD 0

end Match

/-- What can be asked of a file. -/
inductive QueryKind where
  | symbols | imports | calls
deriving DecidableEq, Repr

namespace QueryKind

def name : QueryKind → Text
  | symbols => "symbols"
  | imports => "imports"
  | calls => "calls"

/-- A declaration with a name of some kind. -/
def declaration (kind category : String) (nameKind : Option String) : Pattern :=
  ⟨kind, category ++ ".declaration", [([⟨"name", nameKind⟩], category ++ ".name")]⟩

/-- The patterns of a query for a grammar. -/
def patterns (g : Grammar) : QueryKind → List Pattern
  | symbols =>
    [declaration "class_declaration" "class" none,
     declaration "function_declaration" "function" (some "identifier"),
     declaration "generator_function_declaration" "function" (some "identifier"),
     declaration "variable_declarator" "variable" (some "identifier")] ++
    if g.isTyped then
      [declaration "abstract_class_declaration" "class" (some "type_identifier"),
       declaration "interface_declaration" "interface" (some "type_identifier"),
       declaration "type_alias_declaration" "type" (some "type_identifier"),
       declaration "enum_declaration" "enum" (some "identifier")]
    else []
  | imports =>
    [⟨"import_statement", "import.statement", [([⟨"source", some "string"⟩], "import.source")]⟩,
     ⟨"export_statement", "export.statement", []⟩]
  | calls =>
    [⟨"call_expression", "call.expression",
      [([⟨"function", some "identifier"⟩], "call.name"), ([⟨"arguments", some "arguments"⟩], "call.arguments")]⟩,
     ⟨"call_expression", "call.expression",
      [([⟨"function", some "member_expression"⟩, ⟨"property", some "property_identifier"⟩], "call.name"),
       ([⟨"arguments", some "arguments"⟩], "call.arguments")]⟩]

/-- The query and grammar to run, given the query asked for (`none` if there is none of its number)
and the grammar of the file. A file without a grammar is refused first. -/
def ready? (q : Option QueryKind) (number : Int) (g : Option Grammar) : Except Fault (QueryKind × Grammar) :=
  match g, q with
  | none, q => .error (.noQueries ((q.map name).getD "unknown") "unknown")
  | some _, none => .error (.unknownQuery number)
  | some g, some q => .ok (q, g)

/-- The matches of numbered patterns at a node. -/
def matchesAt (ps : List Pattern) (c : Cursor) : List Match :=
  (ps.zipIdx).filterMap fun (p, i) => (p.captures? c).map (⟨i, ·⟩)

/-- The matches of a query in a tree. -/
def run (q : QueryKind) (g : Grammar) (root : Node) : List Match :=
  (((Cursor.ofRoot root).preorder).flatMap (matchesAt (q.patterns g))).mergeSort
    fun a b => decide (a.lastStart ≤ b.lastStart)

end QueryKind

end DocAtlas
