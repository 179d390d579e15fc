/-
What a knowledge base answers: all that is recorded of a file, and where a symbol is declared,
called and imported. Calls and imports are found by name alone.
-/
import DocAtlas.Files.Path
import DocAtlas.Knowledge.BaseJson

namespace DocAtlas

/-- All that is recorded of a file. -/
structure FileView where
  file : Text
  symbols : Listing SymbolFact
  imports : Listing ImportFact
  exports : Listing ExportFact
  references : Listing Reference
  calls : Listing CallFact
deriving DecidableEq, Repr

/-- A declaration of a traced symbol, with its source lines if they were asked for. -/
structure Definition where
  file : Text
  symbol : SymbolFact
  snippet : Text
deriving DecidableEq, Repr

/-- What one file has of a traced symbol. -/
structure InFile (α : Type) where
  file : Text
  items : Listing α
deriving DecidableEq, Repr

/-- Where a symbol is declared, called and imported. -/
structure Trace where
  symbol : Text
  definitions : Listing Definition
  calls : Listing (InFile CallFact)
  imports : Listing (InFile ImportFact)
deriving DecidableEq, Repr

namespace KnowledgeBase

/-- The files, in byte order. -/
def files (k : KnowledgeBase) : List Text := Table.keys k.symbols

/-- The list of a file in a table, empty if there is none. -/
def listOf {α : Type} (t : Table (Listing α)) (file : Text) : List α := ((Table.find? file t).bind id).getD []

/-- The path a file is recorded under. -/
def recordedPath (path : Text) : Text := Text.trimPrefix "./" (Path.clean path)

/-- What is recorded of the file at a path relative to the root. -/
def view? (k : KnowledgeBase) (path : Text) : Option FileView :=
  let file := recordedPath path
  (Table.find? file k.symbols).map fun symbols =>
    ⟨file, symbols, some (listOf k.imports file), some (listOf k.exports file), some (listOf k.references file),
      some (listOf k.calls file)⟩

/-- The items of a table that count, by file, without the files that have none. -/
def select {α : Type} (p : α → Bool) (t : Table (Listing α)) : List (InFile α) :=
  List.filterMap
    (fun e =>
      let found := (e.2.getD []).filter p
      if found.isEmpty then none else some ⟨e.1, some found⟩)
    t

/-- The declarations of a symbol, by file and in order. -/
def declarations (k : KnowledgeBase) (symbol : Text) : List (Text × SymbolFact) :=
  List.flatMap (fun e => ((e.2.getD []).filter fun s => s.name == symbol).map fun s => (e.1, s)) k.symbols

/-- Whether an import binds a name, here or there. -/
def bindsName (i : ImportFact) (name : Text) : Bool :=
  (i.specifiers.getD []).any fun s => s.localName == name || s.imported == name

/-- The trace of a symbol with these definitions. -/
def traceWith (k : KnowledgeBase) (symbol : Text) (definitions : List Definition) : Trace :=
  { symbol
    definitions := some definitions
    calls := some (select (fun c => c.name == symbol) k.calls)
    imports := some (select (fun i => bindsName i symbol) k.imports) }

end KnowledgeBase

namespace FileView

def toJson (v : FileView) : Json :=
  .obj [("file", .str v.file), ("symbols", Json.listing SymbolFact.toJson v.symbols),
    ("imports", Json.listing ImportFact.toJson v.imports), ("exports", Json.listing ExportFact.toJson v.exports),
    ("references", Json.listing Reference.toJson v.references), ("calls", Json.listing CallFact.toJson v.calls)]

end FileView

namespace Definition

def toJson (d : Definition) : Json :=
  .obj (List.flatten [[("file", .str d.file)], d.symbol.members, Json.unlessEmpty "snippet" d.snippet])

end Definition

namespace Trace

def toJson (t : Trace) : Json :=
  .obj [("symbol", .str t.symbol), ("definitions", Json.listing Definition.toJson t.definitions),
    ("calls", Json.listing (fun c => .obj [("file", .str c.file), ("calls", Json.listing CallFact.toJson c.items)])
      t.calls),
    ("imports", Json.listing
      (fun i => .obj [("file", .str i.file), ("imports", Json.listing ImportFact.toJson i.items)]) t.imports)]

end Trace

end DocAtlas
