/-
Malformed sources. A tree with a node at fault is reported at the first such node in document
order, with what was found there or what is missing.
-/
import DocAtlas.Tree.Node
import DocAtlas.Text.Blank
import DocAtlas.Text.Quoted

namespace DocAtlas

/-- A place in a source that does not fit its grammar. Lines and columns count from one. -/
structure ParseFault where
  path : Text
  line : Nat
  column : Nat
  what : Text
deriving DecidableEq, Repr

namespace ParseFault

def message (f : ParseFault) : Text :=
  let place := Text.ofNat f.line ++ ":" ++ Text.ofNat f.column ++ ": " ++ f.what
  if f.path.isEmpty then place else f.path ++ ":" ++ place

/-- The length at which found text is cut off. -/
def shownLength : Nat := 40

/-- What is wrong at a node. -/
def describe (src : Text) (n : Node) : Text :=
  if n.info.missing then "missing " ++ Text.ofString n.kind
  else
    let found := Text.trim (Text.slice src n.start n.stop)
    if found.isEmpty then "syntax error"
    else
      let shown := if shownLength < found.length then found.take shownLength ++ "..." else found
      "unexpected " ++ Text.quoted shown

/-- The fault of a tree that has one. -/
def ofTree? (t : SyntaxTree) : Option ParseFault :=
  if t.root.hasFault then
    match t.root.firstFault? with
    | some n => some ⟨[], t.lineAt n.start, t.columnAt n.start, describe t.source n⟩
    | none => some ⟨[], 1, 1, "syntax error"⟩
  else none

end ParseFault

end DocAtlas
