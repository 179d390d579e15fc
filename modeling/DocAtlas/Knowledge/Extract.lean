/-
Extracting the facts of a file: parse it once and run all queries over the same tree. A symbol is
also exported if a clause or a default export names it.
-/
import DocAtlas.Knowledge.Calls
import DocAtlas.Knowledge.Modules
import DocAtlas.Source.Parsers

namespace DocAtlas

namespace FileFacts

/-- The names in the file that an export without a source refers to. -/
def exportedNames (exports : List ExportFact) : List Text :=
  (exports.filter fun e => e.source.isEmpty && !e.localName.isEmpty).map ExportFact.localName

/-- Marks the symbols with an exported name. -/
def markExported (exports : List ExportFact) (symbols : List SymbolFact) : List SymbolFact :=
  symbols.map fun s => if (exportedNames exports).contains s.name then { s with exported := true } else s

/-- The facts of a tree without faults. -/
def ofTree (path : Text) (g : Grammar) (tree : SyntaxTree) : FileFacts :=
  let exports := ExportFact.extract g tree
  { path
    language := g.language
    symbols := markExported exports (SymbolFact.extract g tree)
    imports := ImportFact.extract g tree
    exports
    calls := CallFact.extract g tree }

end FileFacts

/-- The parsers of an extraction, and the queries made ready so far. -/
structure Extractor where
  parsers : Parsers
  ready : List (Grammar × QueryKind)

namespace Extractor

def fresh (limit : Nat) : Extractor := ⟨Parsers.fresh limit, []⟩

/-- Makes a query ready, with the log if it was not. -/
def prepare (x : Extractor) (g : Grammar) (q : QueryKind) : List LogRecord × Extractor :=
  if x.ready.contains (g, q) then ([], x)
  else
    ([⟨.debug, "compiled query",
        [("language", .text g.language), ("tsx", .bool g.isTsx), ("type", .text q.name)]⟩],
      { x with ready := (g, q) :: x.ready })

/-- Makes all queries of a grammar ready. -/
def prepareAll (x : Extractor) (g : Grammar) : List LogRecord × Extractor :=
  [QueryKind.symbols, .imports, .calls].foldl
    (fun (log, x) q =>
      let (more, x) := x.prepare g q
      (log ++ more, x))
    ([], x)

/-- The log of the queries being put away. -/
def closingLog (x : Extractor) : List LogRecord :=
  [⟨.debug, "closing QueryManager", [("queries_compiled", .int x.ready.length)]⟩]

/-- The facts of a source. `path` selects the grammar, `rel` is what is recorded. -/
def extract (gs : Grammars) (x : Extractor) (path rel src : Text) :
    Except Fault FileFacts × List LogRecord × Extractor :=
  match Grammar.ofPath? path with
  | none => (.error (.unsupportedFile path), [], x)
  | some g =>
    let r := x.parsers.parse gs g src
    let x := { x with parsers := r.parsers }
    match r.fault, r.tree with
    | some (.parse f), _ => (.error (.parse { f with path := rel }), r.log, x)
    | some f, _ => (.error (.during ("failed to parse " ++ rel) f), r.log, x)
    | none, none => (.error .unknownLanguage, r.log, x)
    | none, some tree =>
      let (queryLog, x) := x.prepareAll g
      let facts := FileFacts.ofTree rel g tree
      let done : LogRecord :=
        ⟨.debug, "extracted file",
          [("file", .text rel), ("language", .text g.language), ("symbols", .int facts.symbols.length),
           ("imports", .int facts.imports.length), ("exports", .int facts.exports.length),
           ("calls", .int facts.calls.length)]⟩
      (.ok facts, r.log ++ queryLog ++ [done], x)

end Extractor

end DocAtlas
