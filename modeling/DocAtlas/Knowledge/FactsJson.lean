/-
Facts as JSON: members in a fixed order, empty ones left out where a reader can do without them.
-/
import DocAtlas.Knowledge.Facts
import DocAtlas.Json.Value

namespace DocAtlas

namespace Json

/-- A list that may never have been made. -/
def listing {α : Type} (item : α → Json) : Listing α → Json
  | none => null
  | some xs => arr (xs.map item)

end Json

namespace SymbolFact

/-- The members of a declaration. -/
def members (s : SymbolFact) : List (Text × Json) :=
  List.flatten
    [[("kind", .str s.kind), ("name", .str s.name), ("startLine", .int s.startLine),
      ("endLine", .int s.endLine), ("exported", .bool s.exported)],
     Json.unlessEmpty "declaration" s.declaration, Json.unlessNone "params" s.params,
     Json.ifTrue "async" s.async, Json.ifTrue "generator" s.generator,
     Json.unlessEmpty "superClass" s.superClass, Json.unlessNone "methods" s.methods,
     Json.unlessNone "properties" s.properties]

def toJson (s : SymbolFact) : Json := .obj s.members

end SymbolFact

namespace Specifier

def toJson (s : Specifier) : Json :=
  .obj [("type", .str s.type), ("local", .str s.localName), ("imported", .str s.imported)]

end Specifier

namespace ImportFact

def toJson (i : ImportFact) : Json :=
  .obj [("source", .str i.source), ("specifiers", Json.listing Specifier.toJson i.specifiers),
    ("startLine", .int i.startLine), ("endLine", .int i.endLine)]

end ImportFact

namespace ExportFact

def toJson (e : ExportFact) : Json :=
  .obj (List.flatten
    [[("name", .str e.name)], Json.unlessEmpty "local" e.localName, Json.ifTrue "default" e.isDefault,
     Json.unlessEmpty "source" e.source, [("line", .int e.line)]])

end ExportFact

namespace CallFact

/-- The members of a call. -/
def members (c : CallFact) : List (Text × Json) :=
  [("name", .str c.name), ("arguments", Json.listing Json.str c.arguments), ("context", .str c.context),
   ("line", .int c.line), ("endLine", .int c.endLine)]

def toJson (c : CallFact) : Json := .obj c.members

end CallFact

namespace FileFacts

def toJson (f : FileFacts) : Json :=
  .obj [("path", .str f.path), ("language", .str f.language),
    ("symbols", .arr (f.symbols.map SymbolFact.toJson)), ("imports", .arr (f.imports.map ImportFact.toJson)),
    ("exports", .arr (f.exports.map ExportFact.toJson)), ("calls", .arr (f.calls.map CallFact.toJson))]

end FileFacts

end DocAtlas
