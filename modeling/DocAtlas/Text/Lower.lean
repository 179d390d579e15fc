/-
Small letters, as far as a word in plain Latin letters can tell: the capitals of the Latin
alphabet, and the two other code points whose small form lies in it. Everything else stays, which
is right wherever the result is only compared with such words.
-/
import DocAtlas.Text.Rune

namespace DocAtlas.Text

/-- A rune made small. -/
def lowerRune (r : Rune) : Text :=
  match r.code with
  | some 0x130 => "i"
  | some 0x212A => "k"
  | _ => r.bytes.map lowerByte

/-- The text in small letters. -/
def lower (t : Text) : Text := t.runes.flatMap lowerRune

end DocAtlas.Text
