/-
Documentation blocks: what is written above a component. A block is a comment with one line per
tag; the parameter of the component is documented first, then each prop, then the rest of the
props if they are captured or spread.
-/
import DocAtlas.Text.Basic

namespace DocAtlas.Doc

/-- Marks an entry of a prop list that names a captured rest binding. -/
def restMark : Text := "..."

/-- The name given to an open-ended set of props that has none. -/
def unnamedRest : Text := "rest"

/-- The name of a parameter that has none of its own. -/
def unnamedParam : Text := "props"

/-- What a block says about a component. -/
structure Facts where
  name : Text
  param : Text
  /-- In order of appearance; a captured rest carries `restMark`. -/
  props : List Text
  /-- Whether props beyond the listed ones are accepted. -/
  spread : Bool
deriving DecidableEq, Repr

/-- The entries that name a prop. -/
def plainProps (props : List Text) : List Text := props.filter fun p => !restMark.isPrefixOf p

/-- The names of the entries that capture the rest. -/
def restNames (props : List Text) : List Text := props.filterMap (Text.dropPrefix? restMark)

/-- The first captured rest with a name, or the stand-in if props are spread. -/
def restOf (facts : Facts) : Option Text :=
  match (restNames facts.props).find? fun r => !r.isEmpty with
  | some r => some r
  | none => if facts.spread then some unnamedRest else none

/-- A line that documents a part of the parameter. -/
def paramLine (type path : Text) : Text := " * @param \x7b" ++ type ++ "\x7d " ++ path ++ " - [auto generate]\n"

/-- The block for a component, without indentation and without a newline at its end. With a stamp
it says when it was made, in milliseconds since 1970. -/
def render (facts : Facts) (stamp : Option Int) : Text :=
  let param := if facts.param.isEmpty then unnamedParam else facts.param
  "/**\n" ++
    (match stamp with
      | some ms => " * @generated " ++ Text.ofInt ms ++ "\n"
      | none => []) ++
    " * @component " ++ facts.name.dropWhile (· == 95) ++ "\n *\n" ++
    " * @param \x7bObject\x7d " ++ param ++ " Component props\n" ++
    (plainProps facts.props).flatMap (fun p => paramLine "*" (param ++ "." ++ p)) ++
    (match restOf facts with
      | some r => paramLine "Object" (param ++ "." ++ r)
      | none => []) ++
    " * @returns \x7bJSX.Element\x7d React component\n" ++
    " */"

/-- Puts the indentation before every line but the first: the block goes where the indentation of
its first line already stands. -/
def indent (pad block : Text) : Text := Text.replaceByte Text.newline (Text.newline :: pad) block

end DocAtlas.Doc
