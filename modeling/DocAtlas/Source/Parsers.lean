/-
Parsing with a set of parsers. A parser is made for a grammar when a source first asks for it and
kept; the set counts how often it parsed and how often the source was malformed. The trees come
from a table of grammars given from outside.
-/
import DocAtlas.Fault
import DocAtlas.Log.Record
import DocAtlas.Source.Grammar

namespace DocAtlas

/-- The grammars at work: the tree of a source, if there is one. -/
abbrev Grammars := Grammar → Text → Option Node

/-- The parsers made so far and what they did. -/
structure Parsers where
  /-- The most parsers kept per grammar. -/
  limit : Nat
  made : List Grammar
  parses : Nat
  faults : Nat
deriving Repr

/-- The outcome of a parse: a tree and a fault if the source is malformed, the log and the parsers
afterwards. -/
structure Parsed where
  tree : Option SyntaxTree
  fault : Option Fault
  log : List LogRecord
  parsers : Parsers

namespace Parsers

def fresh (limit : Nat) : Parsers := ⟨limit, [], 0, 0⟩

/-- The log of a parser being made. -/
def makingLog (limit : Nat) (g : Grammar) : List LogRecord :=
  [⟨.debug, "created parser pool",
      [("language", .text g.language), ("tsx", .bool g.isTsx), ("max_size", .int limit)]⟩,
   ⟨.debug, "created parser",
      [("language", .text g.language), ("tsx", .bool g.isTsx), ("pool_size", .int 1)]⟩]

/-- The log of the parsers being put away. -/
def closingLog (p : Parsers) : List LogRecord :=
  [⟨.debug, "closing parser manager", [("parses", .int p.parses), ("parse_errors", .int p.faults)]⟩]

/-- Parses a source with a grammar. -/
def parse (gs : Grammars) (p : Parsers) (g : Grammar) (src : Text) : Parsed :=
  let log := if p.made.contains g then [] else makingLog p.limit g
  let p := { p with parses := p.parses + 1, made := if p.made.contains g then p.made else g :: p.made }
  match gs g src with
  | none => ⟨none, some (.noTree g.language), log, p⟩
  | some root =>
    let tree : SyntaxTree := ⟨src, root⟩
    match ParseFault.ofTree? tree with
    | none => ⟨some tree, none, log, p⟩
    | some f => ⟨some tree, some (.parse f), log, { p with faults := p.faults + 1 }⟩

/-- Names the file in the place of a malformed source. -/
def atPath (path : Text) : Fault → Fault
  | .parse f => .parse { f with path }
  | f => f

/-- Parses a source with the grammar its path calls for. -/
def parseFile (gs : Grammars) (p : Parsers) (path src : Text) : Parsed :=
  match Grammar.ofPath? path with
  | none => ⟨none, some (.unsupportedExtension path), [], p⟩
  | some g =>
    let r := p.parse gs g src
    { r with fault := r.fault.map (atPath path) }

end Parsers

end DocAtlas
