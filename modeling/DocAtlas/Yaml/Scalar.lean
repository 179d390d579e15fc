/-
Scalars of a YAML text: plain, quoted, and blocks. Line ends within a plain or quoted scalar are
folded: one becomes a blank, of several all but the first remain.
-/
import DocAtlas.Yaml.Place

namespace DocAtlas.Yaml

/-- A scalar as far as it is read: its text, and the blanks and line ends after it, which count only
if something follows. -/
structure Folding where
  text : Text
  blanks : Text
  /-- Whether a line end was passed. -/
  broken : Bool
  firstBreak : Text
  moreBreaks : Text

namespace Folding

def empty : Folding := ⟨[], [], false, [], []⟩

def blank (f : Folding) (b : Text) : Folding := if f.broken then f else { f with blanks := f.blanks ++ b }

def lineEnd (f : Folding) (b : Text) : Folding :=
  if f.broken then { f with moreBreaks := f.moreBreaks ++ b }
  else { f with blanks := [], broken := true, firstBreak := b }

/-- The blanks and line ends as they count. -/
def gap (f : Folding) : Text :=
  if !f.broken then f.blanks
  else if f.firstBreak.head? == some 10 then if f.moreBreaks.isEmpty then [32] else f.moreBreaks
  else f.firstBreak ++ f.moreBreaks

/-- Whether something was passed after the text. -/
def isPending (f : Folding) : Bool := f.broken || !f.blanks.isEmpty

/-- The text with what was passed after it. -/
def join (f : Folding) : Folding := { empty with text := f.text ++ f.gap }

def push (f : Folding) (t : Text) : Folding := { f.join with text := f.join.text ++ t }

end Folding

/-! ## Plain -/

/-- The bytes that end a plain scalar between brackets. -/
def flowMarks : List UInt8 := Text.ofString ",?[]\x7b\x7d"

/-- Reads a plain scalar in a collection indented by `indent - 1`; none if a tab stands in the
indentation. -/
def plainFrom (inFlow : Bool) (indent : Nat) : (fuel : Nat) → Folding → Place → Option (Folding × Place)
  | 0, _, _ => none
  | fuel + 1, f, p =>
    match p.rest with
    | [] => some (f, p)
    | b :: t =>
      match Place.lineEnd? (b :: t) with
      | some (shown, rest) => plainFrom inFlow indent fuel (f.lineEnd shown) (p.afterLine rest)
      | none =>
        if Place.isBlank b then
          if f.broken && p.column < indent && b == 9 then none
          else plainFrom inFlow indent fuel (f.blank [b]) p.skip
        else if p.atDocumentMark || (f.isPending && (b == 35 || (!inFlow && p.column < indent))) ||
            (b == 58 && Place.isGap t) || (inFlow && flowMarks.contains b) then
          some (f, p)
        else plainFrom inFlow indent fuel (f.push p.char) p.skip

/-! ## Quoted -/

/-- The value of a hexadecimal digit. -/
def hexDigit? (b : UInt8) : Option Nat :=
  if Text.isDigit b then some (b.toNat - 48)
  else if 97 ≤ b && b ≤ 102 then some (b.toNat - 87)
  else if 65 ≤ b && b ≤ 70 then some (b.toNat - 55)
  else none

/-- The number hexadecimal digits stand for. -/
def hexNumber? (ds : Text) : Option Nat :=
  ds.foldlM (fun n b => (hexDigit? b).map fun d => n * 16 + d) 0

/-- The character an escape with one letter stands for. -/
def letterEscape? (b : UInt8) : Option Nat :=
  let named : List (String × Nat) :=
    [("0", 0), ("a", 7), ("b", 8), ("t", 9), ("n", 10), ("v", 11), ("f", 12), ("r", 13), ("e", 27), ("N", 0x85),
     ("_", 0xA0), ("L", 0x2028), ("P", 0x2029)]
  if ([9, 32, 34, 39, 47, 92] : List UInt8).contains b then some b.toNat
  else (named.find? fun e => Text.ofString e.1 == [b]).map Prod.snd

/-- The number of digits after an escape by code. -/
def codeWidth? (b : UInt8) : Option Nat :=
  if b == 120 then some 2 else if b == 117 then some 4 else if b == 85 then some 8 else none

/-- What an escape that starts with the byte `b` after the backslash stands for, and its length
after that byte. -/
def escape? (b : UInt8) (t : Text) : Option (Text × Nat) :=
  match letterEscape? b with
  | some n => some (Text.ofCode n, 0)
  | none => do
    let width ← codeWidth? b
    if t.length < width then none
    let n ← hexNumber? (t.take width)
    if (0xD800 ≤ n && n ≤ 0xDFFF) || 0x10FFFF < n then none
    return (Text.ofCode n, width)

/-- Reads a quoted scalar after its opening quote. -/
def quotedFrom (single : Bool) : (fuel : Nat) → Folding → Place → Option (Text × Place)
  | 0, _, _ => none
  | fuel + 1, f, p =>
    match p.rest with
    | [] => none
    | b :: t =>
      match Place.lineEnd? (b :: t) with
      | some (shown, rest) => quotedFrom single fuel (f.lineEnd shown) (p.afterLine rest)
      | none =>
        if Place.isBlank b then quotedFrom single fuel (f.blank [b]) p.skip
        else if p.atDocumentMark then none
        else if single then
          if b != 39 then quotedFrom single fuel (f.push p.char) p.skip
          else if t.head? == some 39 then quotedFrom single fuel (f.push [39]) (p.skipMany 2)
          else some (f.join.text, p.skip)
        else if b == 34 then some (f.join.text, p.skip)
        else if b != 92 then quotedFrom single fuel (f.push p.char) p.skip
        else
          match Place.lineEnd? t with
          | some (_, rest) => quotedFrom single fuel { f.join with broken := true } (p.afterLine rest)
          | none =>
            match t with
            | [] => none
            | c :: u =>
              match escape? c u with
              | none => none
              | some (shown, width) => quotedFrom single fuel (f.push shown) (p.skipMany (2 + width))

/-! ## Blocks -/

/-- What becomes of the line ends after a block. -/
inductive Chomping where
  | strip | clip | keep
deriving DecidableEq, Repr

/-- The head of a block: what becomes of its last line ends, and its indentation if it is given. -/
structure BlockHead where
  chomping : Chomping
  indent : Option Nat

/-- A sign of a block's head. -/
def chomping? (b : UInt8) : Option Chomping := if b == 43 then some .keep else if b == 45 then some .strip else none

/-- Reads the head of a block after its first mark, up to the marks it has. -/
def blockHead (p : Place) : Option (BlockHead × Place) :=
  let digit? (b : UInt8) : Option Nat := if Text.isDigit b then some (b.toNat - 48) else none
  let checked (h : BlockHead) (p : Place) : Option (BlockHead × Place) :=
    if h.indent == some 0 then none else some (h, p)
  match p.rest with
  | [] => some (⟨.clip, none⟩, p)
  | a :: t =>
    match chomping? a with
    | some c =>
      match t.head?.bind digit? with
      | some n => checked ⟨c, some n⟩ (p.skipMany 2)
      | none => some (⟨c, none⟩, p.skip)
    | none =>
      match digit? a with
      | none => some (⟨.clip, none⟩, p)
      | some n =>
        match t.head?.bind chomping? with
        | some c => checked ⟨c, some n⟩ (p.skipMany 2)
        | none => checked ⟨.clip, some n⟩ p.skip

/-- Passes empty lines and the indentation of the next line, at most to `indent` if that is known.
Gives the line ends and the widest indentation seen; none if a tab stands in the indentation. -/
def blockBreaks (indent : Option Nat) : (fuel : Nat) → (breaks : Text) → (widest : Nat) → Place →
    Option (Text × Nat × Place)
  | 0, _, _, _ => none
  | fuel + 1, breaks, widest, p =>
    let room := match indent with
      | some n => n - p.column
      | none => p.rest.length
    let p := p.skipMany (min room (p.rest.takeWhile (· == 32)).length)
    let widest := max widest p.column
    let inside := match indent with
      | some n => p.column < n
      | none => true
    if inside && p.rest.head? == some 9 then none
    else
      match Place.lineEnd? p.rest with
      | some (shown, rest) => blockBreaks indent fuel (breaks ++ shown) widest (p.afterLine rest)
      | none => some (breaks, widest, p)

/-- A block as far as it is read. -/
structure BlockState where
  text : Text
  leading : Text
  trailing : Text
  /-- Whether the line before started with a blank. -/
  afterBlank : Bool

/-- The block with the line ends before its next line. -/
def BlockState.join (literal : Bool) (s : BlockState) (startsBlank : Bool) : BlockState :=
  let folded := !literal && !s.afterBlank && !startsBlank && s.leading.head? == some 10
  let lead := if !folded then s.leading else if s.trailing.isEmpty then [32] else []
  ⟨s.text ++ lead ++ s.trailing, [], [], startsBlank⟩

/-- Reads the lines of a block indented by `indent`. -/
def blockLines (literal : Bool) (indent : Nat) : (fuel : Nat) → BlockState → Place → Option (BlockState × Place)
  | 0, _, _ => none
  | fuel + 1, s, p =>
    if p.column != indent || p.rest.isEmpty then some (s, p)
    else
      let s := s.join literal (p.rest.head?.any Place.isBlank)
      let q := p.toLineEnd p.rest.length
      let text := s.text ++ p.rest.take (p.rest.length - q.rest.length)
      let (leading, q) := match Place.lineEnd? q.rest with
        | some (shown, rest) => (shown, q.afterLine rest)
        | none => ([], q)
      match blockBreaks (some indent) (q.rest.length + 1) [] 0 q with
      | none => none
      | some (trailing, _, q) => blockLines literal indent fuel { s with text, leading, trailing } q

/-- The text of a block that was read to its end. -/
def BlockState.chomped (s : BlockState) : Chomping → Text
  | .strip => s.text
  | .clip => s.text ++ s.leading
  | .keep => s.text ++ s.leading ++ s.trailing

/-- Reads a block after its first mark; `outer` is the indentation of the collection around it. -/
def block? (literal : Bool) (outer : Option Nat) (p : Place) : Option (Text × Place) := do
  let (head, p) ← blockHead p
  let p := p.skipWhile Place.isBlank
  let p := if p.rest.head? == some 35 then p.toLineEnd p.rest.length else p
  let p ← match Place.lineEnd? p.rest with
    | some (_, rest) => some (p.afterLine rest)
    | none => if p.rest.isEmpty then some p else none
  let least := match outer with
    | some n => n + 1
    | none => 0
  let given := head.indent.map fun n => n + outer.getD 0
  let (breaks, widest, p) ← blockBreaks given (p.rest.length + 1) [] 0 p
  let indent := given.getD (max widest (max least 1))
  let (s, p) ← blockLines literal indent (p.rest.length + 1) ⟨[], [], breaks, false⟩ p
  return (s.chomped head.chomping, p)

end DocAtlas.Yaml
