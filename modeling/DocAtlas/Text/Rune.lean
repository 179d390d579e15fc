/-
A text as a sequence of runes: a well-formed UTF-8 sequence stands for its code point, any other
byte for itself. Reading goes from the left and never skips a byte, so the runes' bytes make up
the text.
-/
import DocAtlas.Text.Basic

namespace DocAtlas

/-- A code point with the bytes that encode it, or a stray byte (`code = none`). -/
structure Rune where
  code : Option Nat
  bytes : Text
deriving DecidableEq, Repr

namespace Rune

/-- A continuation byte of UTF-8. -/
def isTail (b : UInt8) : Bool := 0x80 ≤ b && b ≤ 0xBF

/-- The low six bits of a continuation byte. -/
def tailBits (b : UInt8) : Nat := b.toNat % 64

/-- A lead byte of a three-byte sequence with a second byte it admits: no overlong form and no
surrogate. -/
def leadsThree (a b : UInt8) : Bool :=
  if a = 0xE0 then 0xA0 ≤ b && b ≤ 0xBF
  else if a = 0xED then 0x80 ≤ b && b ≤ 0x9F
  else 0xE1 ≤ a && a ≤ 0xEF && isTail b

/-- A lead byte of a four-byte sequence with a second byte it admits: no overlong form and nothing
beyond U+10FFFF. -/
def leadsFour (a b : UInt8) : Bool :=
  if a = 0xF0 then 0x90 ≤ b && b ≤ 0xBF
  else if a = 0xF4 then 0x80 ≤ b && b ≤ 0x8F
  else 0xF1 ≤ a && a ≤ 0xF3 && isTail b

/-- The first rune of the text `a :: rest`. -/
def read (a : UInt8) (rest : Text) : Rune :=
  if a < 0x80 then ⟨some a.toNat, [a]⟩
  else match rest with
    | b :: c :: d :: _ =>
      if 0xC2 ≤ a && a ≤ 0xDF && isTail b then ⟨some (a.toNat % 32 * 64 + tailBits b), [a, b]⟩
      else if leadsThree a b && isTail c then
        ⟨some (a.toNat % 16 * 4096 + tailBits b * 64 + tailBits c), [a, b, c]⟩
      else if leadsFour a b && isTail c && isTail d then
        ⟨some (a.toNat % 8 * 262144 + tailBits b * 4096 + tailBits c * 64 + tailBits d), [a, b, c, d]⟩
      else ⟨none, [a]⟩
    | [b, c] =>
      if 0xC2 ≤ a && a ≤ 0xDF && isTail b then ⟨some (a.toNat % 32 * 64 + tailBits b), [a, b]⟩
      else if leadsThree a b && isTail c then
        ⟨some (a.toNat % 16 * 4096 + tailBits b * 64 + tailBits c), [a, b, c]⟩
      else ⟨none, [a]⟩
    | [b] =>
      if 0xC2 ≤ a && a ≤ 0xDF && isTail b then ⟨some (a.toNat % 32 * 64 + tailBits b), [a, b]⟩
      else ⟨none, [a]⟩
    | [] => ⟨none, [a]⟩

end Rune

namespace Text

/-- The runes of a text whose first `skip` bytes belong to a rune already read. -/
def runesAfter : (skip : Nat) → Text → List Rune
  | _, [] => []
  | skip + 1, _ :: t => runesAfter skip t
  | 0, a :: t =>
    let r := Rune.read a t
    r :: runesAfter (r.bytes.length - 1) t

/-- The runes of a text. -/
def runes (t : Text) : List Rune := runesAfter 0 t

/-- The bytes of a sequence of runes. -/
def ofRunes (rs : List Rune) : Text := rs.flatMap Rune.bytes

/-- Whether every byte belongs to a well-formed sequence. -/
def isUtf8 (t : Text) : Bool := t.runes.all fun r => r.code.isSome

/-- The text with U+FFFD in place of every stray byte. -/
def scrubbed (t : Text) : Text :=
  t.runes.flatMap fun r => if r.code.isSome then r.bytes else ofCode 0xFFFD

end Text

end DocAtlas
