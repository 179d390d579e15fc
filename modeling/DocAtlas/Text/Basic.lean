/-
Text as the rest of the library handles it: a list of bytes. Sources may hold bytes that are not
UTF-8, and every offset, length and column counts bytes, so a byte list is the honest carrier and
all the list lemmas apply to it. A string literal stands for its UTF-8 bytes.
-/
namespace DocAtlas

/-- A byte string. -/
abbrev Text := List UInt8

namespace Text

/-- The UTF-8 bytes of a string. -/
def ofString (s : String) : Text := s.toList.flatMap String.utf8EncodeChar

instance : Coe String Text := ⟨ofString⟩

/-- The bytes of one code point. -/
def ofCode (n : Nat) : Text := String.utf8EncodeChar (Char.ofNat n)

/-- The byte that ends a line. -/
def newline : UInt8 := 10

/-- The digits of `n` in base `b` (at most sixteen), the most significant first, with lower-case
letters above nine. -/
def digits (b n : Nat) : Text := (Nat.toDigits b n).flatMap String.utf8EncodeChar

/-- A number in decimal. -/
def ofNat (n : Nat) : Text := digits 10 n

/-- A signed number in decimal. -/
def ofInt : Int → Text
  | .ofNat n => ofNat n
  | .negSucc n => 45 :: ofNat (n + 1)

/-- `true` and `false` in words. -/
def ofBool (b : Bool) : Text := if b then "true" else "false"

/-- The digits of `n` in base `b`, filled up with zeros on the left to at least `width`. -/
def paddedDigits (b width n : Nat) : Text :=
  let ds := digits b n
  List.replicate (width - ds.length) 48 ++ ds

/-! ## Cutting -/

/-- The bytes from `start` up to and without `stop`. -/
def slice (t : Text) (start stop : Nat) : Text := (t.take stop).drop start

/-- The pieces between the occurrences of the byte `sep`: always one more than there are of it. -/
def splitOn (sep : UInt8) : Text → List Text
  | [] => [[]]
  | c :: cs =>
    match splitOn sep cs with
    | [] => [[c]]
    | p :: ps => if c = sep then [] :: p :: ps else (c :: p) :: ps

/-- The pieces joined by `sep`. -/
def joinWith (sep : Text) : List Text → Text
  | [] => []
  | [p] => p
  | p :: q :: ps => p ++ sep ++ joinWith sep (q :: ps)

/-- The rest of `t` after `p`, if `t` starts with `p`. -/
def dropPrefix? : (p t : Text) → Option Text
  | [], t => some t
  | _ :: _, [] => none
  | a :: p, b :: t => if a = b then dropPrefix? p t else none

/-- `t` without a leading `p`, or `t` itself. -/
def trimPrefix (p t : Text) : Text := (dropPrefix? p t).getD t

/-- The part of `t` before `s`, if `t` ends with `s`. -/
def dropSuffix? (s t : Text) : Option Text :=
  if s.isSuffixOf t then some (t.take (t.length - s.length)) else none

/-- `t` without a trailing `s`, or `t` itself. -/
def trimSuffix (s t : Text) : Text := (dropSuffix? s t).getD t

/-- The parts before and after the first byte `c`; the second is missing if there is none. -/
def cut (c : UInt8) : Text → Text × Option Text
  | [] => ([], none)
  | b :: t =>
    if b = c then ([], some t)
    else
      let (before, after) := cut c t
      (b :: before, after)

/-- The parts around the first occurrence of `sep`. -/
def cutAt? (sep : Text) : Text → Option (Text × Text)
  | [] => if sep.isEmpty then some ([], []) else none
  | b :: t =>
    match dropPrefix? sep (b :: t) with
    | some rest => some ([], rest)
    | none => (cutAt? sep t).map fun (before, after) => (b :: before, after)

/-- Whether `part` occurs in the text. -/
def contains (part t : Text) : Bool := (cutAt? part t).isSome

/-- Every occurrence of the byte `c` replaced by `r`. -/
def replaceByte (c : UInt8) (r : Text) (t : Text) : Text :=
  t.flatMap fun b => if b = c then r else [b]

/-! ## Lines -/

/-- The lines of a text, of which the last has no newline after it. -/
def lines (t : Text) : List Text := splitOn newline t

/-- The number of line ends before an offset. -/
def rowAt (t : Text) (offset : Nat) : Nat := (t.take offset).count newline

/-- The number of bytes between the start of the line of an offset and the offset. -/
def columnAt (t : Text) (offset : Nat) : Nat :=
  ((t.take offset).reverse.takeWhile (· != newline)).length

/-! ## Order -/

/-- Byte order, a proper beginning first. -/
def le : Text → Text → Bool
  | [], _ => true
  | _ :: _, [] => false
  | a :: s, b :: t => a < b || (a == b && le s t)

/-- The texts in byte order. -/
def sort (ts : List Text) : List Text := ts.mergeSort le

/-! ## Letters -/

/-- An upper-case letter of the Latin alphabet made small. -/
def lowerByte (b : UInt8) : UInt8 := if 65 ≤ b && b ≤ 90 then b + 32 else b

/-- A digit from zero to nine. -/
def isDigit (b : UInt8) : Bool := 48 ≤ b && b ≤ 57

/-- The number a nonempty run of decimal digits stands for. -/
def toNat? (t : Text) : Option Nat :=
  if t.isEmpty || !t.all isDigit then none
  else some (t.foldl (fun n b => n * 10 + (b.toNat - 48)) 0)

/-- The truth value a word stands for. -/
def toBool? (t : Text) : Option Bool :=
  if ["1", "t", "T", "TRUE", "true", "True"].any fun w => ofString w == t then some true
  else if ["0", "f", "F", "FALSE", "false", "False"].any fun w => ofString w == t then some false
  else none

/-- The string with these bytes; stray bytes give the empty string. -/
def toString (t : Text) : String := (String.fromUTF8? ⟨t.toArray⟩).getD ""

end Text

end DocAtlas
