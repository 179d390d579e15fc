/-
JSON values. A number is kept as its written form, so that what is not a number of this library
passes through unchanged; the members of an object are kept in order.
-/
import DocAtlas.Text.Table

namespace DocAtlas

inductive Json where
  | null
  | bool (b : Bool)
  | num (literal : Text)
  | str (s : Text)
  | arr (items : List Json)
  | obj (members : List (Text × Json))
deriving Repr

namespace Json

def int (n : Int) : Json := num (Text.ofInt n)

def nat (n : Nat) : Json := num (Text.ofNat n)

/-- A list of texts. -/
def strs (ts : List Text) : Json := arr (ts.map str)

/-- A list of texts that is null if there is none. -/
def strsOrNull (ts : List Text) : Json := if ts.isEmpty then null else strs ts

/-- The last of the members with a key. -/
def lookup? (key : Text) (members : List (Text × Json)) : Option Json :=
  (members.reverse.find? fun m => m.1 == key).map Prod.snd

/-- Members that are left out if empty. -/
def unlessEmpty (key t : Text) : List (Text × Json) := if t.isEmpty then [] else [(key, str t)]

/-- A flag that is left out if false. -/
def ifTrue (key : Text) (b : Bool) : List (Text × Json) := if b then [(key, bool true)] else []

/-- A list that is left out if empty. -/
def unlessNone (key : Text) (ts : List Text) : List (Text × Json) := if ts.isEmpty then [] else [(key, strs ts)]

/-- The members in byte order of their keys, the last of equal ones kept. -/
def sortMembers (ms : List (Text × Json)) : List (Text × Json) := Table.ofPairs ms

end Json

end DocAtlas
