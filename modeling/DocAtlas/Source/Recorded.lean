/-
Recorded trees stand in for the grammars: each is given as JSON, with its grammar and its source,
as the list of its nodes in document order. A node is its depth, kind, role, range and flags.
-/
import DocAtlas.Json.Bytes
import DocAtlas.Json.Decode
import DocAtlas.Source.Parsers

namespace DocAtlas.Recorded

/-- A number of a node. -/
def number (v : Json) : Nat := ((Json.int? v).getD 0).toNat

/-- A node with its depth. -/
def node? : Json → Option (Nat × NodeInfo)
  | .arr [depth, .str kind, role, start, stop, flags] =>
    let bits := number flags
    some (number depth,
      { kind := Text.toString kind
        field := (Json.text? role).map Text.toString
        start := number start
        stop := number stop
        named := bits % 2 == 1
        error := bits / 2 % 2 == 1
        missing := bits / 4 % 2 == 1
        extra := bits / 8 % 2 == 1 })
  | _ => none

/-- A recorded tree. -/
structure Parse where
  grammar : Grammar
  source : Text
  nodes : List (Nat × NodeInfo)

/-- The grammar of a name. -/
def grammar? (name : Text) : Option Grammar :=
  if name = "javascript" then some .javascript
  else if name = "typescript" then some .typescript
  else if name = "tsx" then some .tsx
  else none

def parse? : Json → Option Parse
  | .obj members => do
    let grammar ← grammar? (← Json.text? (← Json.lookup? "grammar" members))
    let source ← Json.bytes? (← Json.lookup? "source" members)
    match ← Json.lookup? "tree" members with
    | .arr nodes => return ⟨grammar, source, ← nodes.mapM node?⟩
    | _ => none
  | _ => none

/-- Grammars that know the recorded sources only. -/
def grammars (records : List Json) : Grammars :=
  let parses := records.filterMap parse?
  fun g src => (parses.find? fun p => p.grammar == g && p.source == src).bind fun p => Node.ofPreorder? p.nodes

end DocAtlas.Recorded
