/-
Quoted text: a text between double quotes on one line, with everything that is not printable
escaped.
-/
import DocAtlas.Text.Rune
import DocAtlas.Text.Printable

namespace DocAtlas.Text

/-- The letter that names a control character after a backslash. -/
def controlLetter? (n : Nat) : Option Text :=
  match n with
  | 7 => some "a"
  | 8 => some "b"
  | 9 => some "t"
  | 10 => some "n"
  | 11 => some "v"
  | 12 => some "f"
  | 13 => some "r"
  | _ => none

/-- A rune inside quotes. -/
def quotedRune (r : Rune) : Text :=
  match r.code with
  | none => "\\x" ++ r.bytes.flatMap fun b => paddedDigits 16 2 b.toNat
  | some n =>
    if n == 34 || n == 92 then 92 :: r.bytes
    else if isPrintableCode n then r.bytes
    else match controlLetter? n with
      | some l => 92 :: l
      | none =>
        if n < 32 || n == 127 then "\\x" ++ paddedDigits 16 2 n
        else if n < 0x10000 then "\\u" ++ paddedDigits 16 4 n
        else "\\U" ++ paddedDigits 16 8 n

/-- The text between quotes. -/
def quoted (t : Text) : Text := 34 :: t.runes.flatMap quotedRune ++ [34]

end DocAtlas.Text
