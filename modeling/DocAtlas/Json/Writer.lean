/-
Writing JSON, on one line or indented by two blanks. Text is written in UTF-8 with the escapes
JSON needs; stray bytes become an escaped U+FFFD. Documents meant to be embedded in web pages also
escape the angle brackets and the ampersand.
-/
import DocAtlas.Json.Value
import DocAtlas.Text.Rune

namespace DocAtlas.Json

/-- An escape by code. -/
def codeEscape (n : Nat) : Text := "\\u" ++ Text.paddedDigits 16 4 n

/-- A rune inside a JSON string; `web` also escapes what is special in web pages. -/
def escapedRune (web : Bool) (r : Rune) : Text :=
  match r.code with
  | none => "\\ufffd"
  | some n =>
    if n == 34 then "\\\""
    else if n == 92 then "\\\\"
    else if n == 8 then "\\b"
    else if n == 12 then "\\f"
    else if n == 10 then "\\n"
    else if n == 13 then "\\r"
    else if n == 9 then "\\t"
    else if n < 32 || n == 0x2028 || n == 0x2029 then codeEscape n
    else if web && (n == 60 || n == 62 || n == 38) then codeEscape n
    else r.bytes

/-- A JSON string. -/
def quote (web : Bool) (t : Text) : Text := 34 :: t.runes.flatMap (escapedRune web) ++ [34]

/-- A literal of the value, for values without parts. -/
def boolText (b : Bool) : Text := if b then "true" else "false"

mutual

/-- The value on one line. -/
def compact (web : Bool) : Json → Text
  | null => "null"
  | bool b => boolText b
  | num lit => lit
  | str s => quote web s
  | arr items => "[" ++ compactItems web items ++ "]"
  | obj members => 123 :: compactMembers web members ++ [125]

/-- Items with commas between them. -/
def compactItems (web : Bool) : List Json → Text
  | [] => []
  | [v] => compact web v
  | v :: w :: vs => compact web v ++ "," ++ compactItems web (w :: vs)

/-- Members with commas between them. -/
def compactMembers (web : Bool) : List (Text × Json) → Text
  | [] => []
  | [(k, v)] => quote web k ++ ":" ++ compact web v
  | (k, v) :: m :: ms => quote web k ++ ":" ++ compact web v ++ "," ++ compactMembers web (m :: ms)

end

/-- A line end and the indentation of a level. -/
def lineBreak (level : Nat) : Text := 10 :: List.replicate (2 * level) 32

mutual

/-- The value with each part on a line of its own, `level` levels deep. -/
def prettyAt (level : Nat) : Json → Text
  | null => "null"
  | bool b => boolText b
  | num lit => lit
  | str s => quote true s
  | arr [] => "[]"
  | arr (v :: vs) =>
    91 :: lineBreak (level + 1) ++ prettyItems (level + 1) (v :: vs) ++ lineBreak level ++ [93]
  | obj [] => [123, 125]
  | obj (m :: ms) =>
    123 :: lineBreak (level + 1) ++ prettyMembers (level + 1) (m :: ms) ++ lineBreak level ++ [125]

/-- Items on lines of their own. -/
def prettyItems (level : Nat) : List Json → Text
  | [] => []
  | [v] => prettyAt level v
  | v :: w :: vs => prettyAt level v ++ 44 :: lineBreak level ++ prettyItems level (w :: vs)

/-- Members on lines of their own. -/
def prettyMembers (level : Nat) : List (Text × Json) → Text
  | [] => []
  | [(k, v)] => quote true k ++ ": " ++ prettyAt level v
  | (k, v) :: m :: ms =>
    quote true k ++ ": " ++ prettyAt level v ++ 44 :: lineBreak level ++ prettyMembers level (m :: ms)

end

/-- The value as a document, without a final newline. -/
def pretty (v : Json) : Text := prettyAt 0 v

end DocAtlas.Json
