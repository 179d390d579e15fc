/-
JSON numbers as floating-point numbers. A document that goes through floating point has each of its
numbers replaced by the nearest 53-bit one, written with the fewest digits.
-/
import DocAtlas.Json.Value
import DocAtlas.Number.Shortest

namespace DocAtlas

namespace Json

/-- The sign, digits and decimal exponent of a number as written. -/
def decimalOf (literal : Text) : Bool × Nat × Int :=
  let neg := literal.head? == some 45
  let t := if neg then literal.tail else literal
  let whole := t.takeWhile Text.isDigit
  let t := t.drop whole.length
  let fraction := match t with
    | 46 :: u => u.takeWhile Text.isDigit
    | _ => []
  let t := if fraction.isEmpty then t else t.drop (fraction.length + 1)
  let exponent : Int := match t with
    | _ :: 45 :: u => -((Text.toNat? u).getD 0 : Int)
    | _ :: 43 :: u => ((Text.toNat? u).getD 0 : Int)
    | _ :: u => ((Text.toNat? u).getD 0 : Int)
    | [] => 0
  (neg, (Text.toNat? (whole ++ fraction)).getD 0, exponent - fraction.length)

/-- The floating-point number nearest to a written one; none if it is too large. -/
def float? (literal : Text) : Option Binary64 :=
  let (neg, digits, exp10) := decimalOf literal
  Binary64.ofDecimal? neg digits exp10

mutual

/-- The value with every number as documents write it; none if one is too large. -/
def floats? : Json → Option Json
  | num lit => (float? lit).map fun x => num x.documentText
  | arr items => (floatsEach? items).map arr
  | obj members => (floatsIn? members).map obj
  | v => some v

/-- The same for each value of a list. -/
def floatsEach? : List Json → Option (List Json)
  | [] => some []
  | v :: vs => do return (← floats? v) :: (← floatsEach? vs)

/-- The same for each member of an object. -/
def floatsIn? : List (Text × Json) → Option (List (Text × Json))
  | [] => some []
  | (k, v) :: ms => do return (k, ← floats? v) :: (← floatsIn? ms)

end

mutual

/-- The value in plain words, as reports show it. -/
def plain : Json → Text
  | null => "<nil>"
  | bool b => Text.ofBool b
  | num lit => ((float? lit).map Binary64.reportText).getD lit
  | str s => s
  | arr items => "[" ++ plainItems items ++ "]"
  | obj members => "map[" ++ plainMembers members ++ "]"

/-- Values with blanks between them. -/
def plainItems : List Json → Text
  | [] => []
  | [v] => plain v
  | v :: w :: vs => plain v ++ " " ++ plainItems (w :: vs)

/-- Members with blanks between them. -/
def plainMembers : List (Text × Json) → Text
  | [] => []
  | [(k, v)] => k ++ ":" ++ plain v
  | (k, v) :: m :: ms => k ++ ":" ++ plain v ++ " " ++ plainMembers (m :: ms)

end

end Json

end DocAtlas
