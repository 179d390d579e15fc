/-
White space: the code points with the White_Space property, and trimming by it. A stray byte is
never white space.
-/
import DocAtlas.Text.Rune

namespace DocAtlas

namespace Rune

/-- The code points that count as white space. -/
def isBlankCode (n : Nat) : Bool :=
  (9 ≤ n && n ≤ 13) || n == 32 || n == 0x85 || n == 0xA0 || n == 0x1680 ||
    (0x2000 ≤ n && n ≤ 0x200A) || n == 0x2028 || n == 0x2029 || n == 0x202F || n == 0x205F || n == 0x3000

/-- Whether a rune is white space. -/
def isBlank (r : Rune) : Bool := r.code.any isBlankCode

end Rune

namespace Text

/-- The text without the white space at its beginning. -/
def trimLeft (t : Text) : Text := ofRunes (t.runes.dropWhile Rune.isBlank)

/-- The text without the white space at its end. -/
def trimRight (t : Text) : Text := ofRunes (t.runes.reverse.dropWhile Rune.isBlank).reverse

/-- The text without the white space at both ends. -/
def trim (t : Text) : Text := trimRight (trimLeft t)

/-- The words of a text: its longest parts without white space. -/
def words (t : Text) : List Text :=
  let (last, done) := t.runes.foldl
    (fun (cur, acc) r => if r.isBlank then ([], if cur.isEmpty then acc else cur :: acc) else (cur ++ r.bytes, acc))
    (([] : Text), ([] : List Text))
  (if last.isEmpty then done else last :: done).reverse

end Text

end DocAtlas
