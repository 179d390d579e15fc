/-
The documents of a knowledge base as JSON, and read back.
-/
import DocAtlas.Knowledge.Base
import DocAtlas.Knowledge.FactsJson
import DocAtlas.Knowledge.FactsReader

namespace DocAtlas

namespace Json

/-- A table of lists. -/
def lists {α : Type} (item : α → Json) (t : Table (Listing α)) : Json :=
  obj (List.map (fun e => (e.1, listing item e.2)) t)

end Json

namespace Reference

def toJson (r : Reference) : Json :=
  .obj (List.flatten
    [[("type", .str r.type)], Json.unlessEmpty "source" r.source, Json.unlessEmpty "local" r.localName,
     Json.unlessEmpty "imported" r.imported, Json.unlessEmpty "name" r.name, [("line", .int r.line)]])

def ofJson? : Json → Option Reference :=
  Json.record? ⟨[], [], [], [], [], 0⟩
    [.plain "type" Json.text? fun x r => { r with type := x },
     .plain "source" Json.text? fun x r => { r with source := x },
     .plain "local" Json.text? fun x r => { r with localName := x },
     .plain "imported" Json.text? fun x r => { r with imported := x },
     .plain "name" Json.text? fun x r => { r with name := x },
     .plain "line" Json.int? fun x r => { r with line := x }]

end Reference

namespace IndexedSymbol

def toJson (s : IndexedSymbol) : Json := 
  .obj (List.flatten [s.symbol.members, [("definedIn", .str s.definedIn)]])

/-- The field of a symbol as a field of an index entry. -/
def ofSymbolField (f : Json.RecordField SymbolFact) : Json.RecordField IndexedSymbol where
  name := f.name
  set v s := (f.set v s.symbol).map fun symbol => { s with symbol }

def ofJson? : Json → Option IndexedSymbol :=
  Json.record? ⟨SymbolFact.blank, []⟩
    (SymbolFact.fields.map ofSymbolField ++
      [.plain "definedIn" Json.text? fun x s => { s with definedIn := x }])

end IndexedSymbol

namespace KnowledgeBase

def symbolsJson (k : KnowledgeBase) : Json := Json.lists SymbolFact.toJson k.symbols

def importsJson (k : KnowledgeBase) : Json := Json.lists ImportFact.toJson k.imports

def exportsJson (k : KnowledgeBase) : Json := Json.lists ExportFact.toJson k.exports

def referencesJson (k : KnowledgeBase) : Json := Json.lists Reference.toJson k.references

def callsJson (k : KnowledgeBase) : Json := Json.lists CallFact.toJson k.calls

def indexJson (k : KnowledgeBase) : Json := .obj (List.map (fun e => (e.1, e.2.toJson)) k.index)

end KnowledgeBase

namespace Manifest

def toJson (m : Manifest) : Json :=
  .obj [("runId", .str m.runId), ("generatedAt", .str m.generatedAt), ("root", .str m.root),
    ("files", Json.listing Json.str m.files)]

end Manifest

end DocAtlas
