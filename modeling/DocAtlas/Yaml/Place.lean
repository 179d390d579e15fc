/-
A place in a YAML text: what is still to be read, and the line, column and count of characters
before it. Characters are counted, not bytes. A line ends with a line feed, a carriage return, both
together, or one of three marks of Unicode.
-/
import DocAtlas.Text.Rune

namespace DocAtlas.Yaml

/-- A place. Lines and columns are counted from zero. -/
structure Place where
  rest : Text
  line : Nat
  column : Nat
  index : Nat
deriving Repr

namespace Place

/-- The beginning of a text. -/
def start (t : Text) : Place := ⟨t, 0, 0, 0⟩

/-- The line end a text starts with, as content shows it, and what follows it. -/
def lineEnd? : Text → Option (Text × Text)
  | 13 :: 10 :: t => some ([10], t)
  | 13 :: t => some ([10], t)
  | 10 :: t => some ([10], t)
  | 0xC2 :: 0x85 :: t => some ([10], t)
  | 0xE2 :: 0x80 :: 0xA8 :: t => some ([0xE2, 0x80, 0xA8], t)
  | 0xE2 :: 0x80 :: 0xA9 :: t => some ([0xE2, 0x80, 0xA9], t)
  | _ => none

/-- A blank or a tab. -/
def isBlank (b : UInt8) : Bool := b == 32 || b == 9

/-- Whether a text is at its end, a line end or a blank. -/
def isGap (t : Text) : Bool :=
  match t with
  | [] => true
  | b :: _ => isBlank b || (lineEnd? t).isSome

/-- The number of bytes of the character a text starts with. -/
def width : Text → Nat
  | [] => 0
  | a :: t => (Rune.read a t).bytes.length

/-- The character at a place. -/
def char (p : Place) : Text := p.rest.take (width p.rest)

/-- The place after a character. -/
def skip (p : Place) : Place :=
  { p with rest := p.rest.drop (width p.rest), column := p.column + 1, index := p.index + 1 }

/-- The place after several characters. -/
def skipMany : Nat → Place → Place
  | 0, p => p
  | n + 1, p => skipMany n p.skip

/-- The place after a line end whose rest is known. -/
def afterLine (p : Place) (rest : Text) : Place := ⟨rest, p.line + 1, 0, p.index + 1⟩

/-- The places passed while a test holds of the next byte, none of which ends a line. -/
def skipWhile (test : UInt8 → Bool) (p : Place) : Place := skipMany ((p.rest.takeWhile test).length) p

/-- Whether a mark between documents stands here. -/
def atDocumentMark (p : Place) : Bool :=
  p.column == 0 && ["---", "..."].any fun m =>
    match Text.dropPrefix? (Text.ofString m) p.rest with
    | some t => isGap t
    | none => false

/-- The place at the end of a line. -/
def toLineEnd : (fuel : Nat) → Place → Place
  | 0, p => p
  | fuel + 1, p => if p.rest.isEmpty || (lineEnd? p.rest).isSome then p else toLineEnd fuel p.skip

end Place

end DocAtlas.Yaml
