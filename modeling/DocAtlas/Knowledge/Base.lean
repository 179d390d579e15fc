/-
The knowledge base: the facts of all files of a project, by file, with the references of each file
and an index of all symbols. Nothing is resolved across files. It depends only on the last facts
recorded for each path.
-/
import DocAtlas.Knowledge.Facts
import DocAtlas.Text.Table

namespace DocAtlas

/-- What a file refers to elsewhere: a name an import binds, or the class one of its classes
extends. -/
structure Reference where
  type : Text
  source : Text
  localName : Text
  imported : Text
  name : Text
  line : Int
deriving DecidableEq, Repr

namespace Reference

/-- The reference of a binding of an import. -/
def ofSpecifier (i : ImportFact) (s : Specifier) : Reference :=
  ⟨"import", i.source, s.localName, s.imported, [], i.startLine⟩

/-- The reference of a class to the one it extends. -/
def ofSuperClass (s : SymbolFact) : Reference := ⟨"extends", [], [], [], s.superClass, s.startLine⟩

/-- The references of a file: those of its imports, then those of its classes. -/
def ofFile (f : FileFacts) : List Reference :=
  f.imports.flatMap (fun i => (i.specifiers.getD []).map (ofSpecifier i)) ++
    (f.symbols.filter fun s => s.kind == ("class" : Text) && !s.superClass.isEmpty).map ofSuperClass

end Reference

/-- An entry of the index: a symbol and the file that declares it. -/
structure IndexedSymbol where
  symbol : SymbolFact
  definedIn : Text
deriving DecidableEq, Repr

/-- All that is known of a project. Each table but the index is keyed by the path of a file. -/
structure KnowledgeBase where
  /-- Keyed by file and name. -/
  index : Table IndexedSymbol
  symbols : Table (Listing SymbolFact)
  imports : Table (Listing ImportFact)
  exports : Table (Listing ExportFact)
  references : Table (Listing Reference)
  calls : Table (Listing CallFact)
deriving DecidableEq, Repr

/-- The facts gathered so far, by path. -/
abbrev Gathered := Table FileFacts

namespace Gathered

/-- Adds the facts of a file, in place of earlier ones for its path. -/
def add (g : Gathered) (f : FileFacts) : Gathered := Table.put f.path f g

/-- Adds the facts of a file if there are any. -/
def offer (g : Gathered) : Option FileFacts → Gathered
  | some f => g.add f
  | none => g

/-- What some offers leave, one after the other. -/
def ofOffers (offers : List (Option FileFacts)) : Gathered := offers.foldl offer []

end Gathered

namespace KnowledgeBase

def empty : KnowledgeBase := ⟨[], [], [], [], [], []⟩

/-- The key of a symbol in the index. -/
def symbolKey (file name : Text) : Text := file ++ ":" ++ name

/-- The entries the symbols of a file give, in order. -/
def indexEntries (path : Text) (f : FileFacts) : List (Text × IndexedSymbol) :=
  f.symbols.map fun s => (symbolKey path s.name, ⟨s, path⟩)

/-- One table of the base: a list for each file. -/
def collect {α : Type} (part : FileFacts → List α) (g : Gathered) : Table (Listing α) :=
  List.map (fun e => (e.1, some (part e.2))) g

/-- The base of the gathered facts. Of symbols with the same key the last counts. -/
def ofGathered (g : Gathered) : KnowledgeBase :=
  { index := Table.ofPairs (List.flatMap (fun e => indexEntries e.1 e.2) g)
    symbols := collect FileFacts.symbols g
    imports := collect FileFacts.imports g
    exports := collect FileFacts.exports g
    references := collect Reference.ofFile g
    calls := collect FileFacts.calls g }

end KnowledgeBase

/-- The run a saved base comes from. -/
structure Manifest where
  runId : Text
  generatedAt : Text
  /-- The absolute root of the run, to which the paths are relative. -/
  root : Text
  files : Listing Text
deriving DecidableEq, Repr

end DocAtlas
