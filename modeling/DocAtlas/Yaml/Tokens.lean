/-
Reading tokens. A key needs no mark before it: what may be one is remembered, and if a colon follows
on the same line the tokens that begin a key are put in before it. Indentation opens and closes
collections outside brackets.
-/
import DocAtlas.Yaml.Scalar
import DocAtlas.Yaml.Token

namespace DocAtlas.Yaml

/-- What may turn out to be a key: the token it starts at, and where. -/
structure KeyCandidate where
  token : Nat
  place : Place
  /-- Whether it has to be a key. -/
  required : Bool

/-- The state of reading. -/
structure Lexing where
  place : Place
  tokens : List Token
  /-- The indentations of the open collections, the innermost first. -/
  indents : List Nat
  /-- The candidates between the open brackets, the innermost first, the outermost for the text
  outside. -/
  keys : List (Option KeyCandidate)
  /-- Whether a key may start here. -/
  keyAllowed : Bool

namespace Lexing

def start (t : Text) : Lexing := ⟨Place.start t, [], [], [none], true⟩

/-- Whether the place is between brackets. -/
def inFlow (s : Lexing) : Bool := 1 < s.keys.length

/-- The indentation of the innermost collection. -/
def indent (s : Lexing) : Option Nat := s.indents.head?

def emit (s : Lexing) (k : TokenKind) : Lexing := { s with tokens := s.tokens ++ [⟨k, s.place.line⟩] }

/-- Emits a token of `n` characters. -/
def emitSkip (s : Lexing) (n : Nat) (k : TokenKind) : Lexing := { s.emit k with place := s.place.skipMany n }

def allowKey (s : Lexing) (b : Bool) : Lexing := { s with keyAllowed := b }

/-- Forgets the candidate between the innermost brackets, unless it had to be a key. -/
def dropKey (s : Lexing) : Option Lexing :=
  match s.keys with
  | some k :: rest => if k.required then none else some { s with keys := none :: rest }
  | _ => some s

/-- Remembers that a key may start here. -/
def saveKey (s : Lexing) : Option Lexing :=
  if !s.keyAllowed then some s
  else
    let required := !s.inFlow && s.indent == some s.place.column
    s.dropKey.map fun s => { s with keys := some ⟨s.tokens.length, s.place, required⟩ :: s.keys.tail }

/-- Ends the collections indented more than a column, or all of them. -/
def unroll (column : Option Nat) : (indents : List Nat) → Lexing → Lexing
  | [], s => { s with indents := [] }
  | n :: rest, s =>
    if column.all (· < n) then unroll column rest (s.emit .blockEnd) else { s with indents := n :: rest }

/-- Ends the collections that the place is not indented enough for. -/
def unrollTo (s : Lexing) (column : Option Nat) : Lexing := if s.inFlow then s else unroll column s.indents s

/-- Begins a collection at a column unless one is open there; its token is the `at_`-th. -/
def roll (s : Lexing) (column line at_ : Nat) (k : TokenKind) : Lexing :=
  if s.inFlow || s.indent.any (column ≤ ·) then s
  else { s with indents := column :: s.indents, tokens := s.tokens.insertIdx at_ ⟨k, line⟩ }

/-- Begins a collection here. -/
def rollHere (s : Lexing) (k : TokenKind) : Lexing := s.roll s.place.column s.place.line s.tokens.length k

/-! ## Passing blanks -/

/-- Passes blanks, comments and line ends. -/
def toToken : (fuel : Nat) → Lexing → Lexing
  | 0, s => s
  | fuel + 1, s =>
    let p := s.place.skipWhile fun b => b == 32 || ((s.inFlow || !s.keyAllowed) && b == 9)
    let p := if p.rest.head? == some 35 then p.toLineEnd p.rest.length else p
    match Place.lineEnd? p.rest with
    | some (_, rest) => toToken fuel { s with place := p.afterLine rest, keyAllowed := s.keyAllowed || !s.inFlow }
    | none => { s with place := p }

/-! ## Marks -/

/-- The candidate here if it can still be a key: it is on this line and not too far away. None if it
had to be one and cannot. -/
def liveKey (s : Lexing) : Option (Option KeyCandidate) :=
  match s.keys.head?.join with
  | none => some none
  | some k =>
    if k.place.line < s.place.line || k.place.index + 1024 < s.place.index then if k.required then none else some none
    else some (some k)

/-- The colon after a key. -/
def valueMark (s : Lexing) : Option Lexing := do
  match ← s.liveKey with
  | some k =>
    let s := { s with tokens := s.tokens.insertIdx k.token ⟨.key, k.place.line⟩ }
    let s := s.roll k.place.column k.place.line k.token .blockMapping
    return ({ s with keys := none :: s.keys.tail, keyAllowed := false }.emitSkip 1 .value)
  | none =>
    if s.inFlow then return (s.allowKey false).emitSkip 1 .value
    if !s.keyAllowed then none
    return ((s.rollHere .blockMapping).allowKey true).emitSkip 1 .value

/-- The mark before a key. -/
def keyMark (s : Lexing) : Option Lexing := do
  if !s.inFlow && !s.keyAllowed then none
  let s ← (s.rollHere .blockMapping).dropKey
  return (s.allowKey !s.inFlow).emitSkip 1 .key

/-- The mark before an item. -/
def entryMark (s : Lexing) : Option Lexing := do
  if !s.inFlow && !s.keyAllowed then none
  let s ← (s.rollHere .blockSequence).dropKey
  return (s.allowKey true).emitSkip 1 .blockEntry

/-- An opening bracket. -/
def openMark (s : Lexing) (k : TokenKind) : Option Lexing := do
  let s ← s.saveKey
  return { s.emitSkip 1 k with keys := none :: s.keys, keyAllowed := true }

/-- A closing bracket. -/
def closeMark (s : Lexing) (k : TokenKind) : Option Lexing := do
  let s ← s.dropKey
  return { s.emitSkip 1 k with keys := if s.inFlow then s.keys.tail else s.keys, keyAllowed := false }

/-- A comma between items. -/
def commaMark (s : Lexing) : Option Lexing := do
  let s ← s.dropKey
  return (s.allowKey true).emitSkip 1 .flowEntry

/-- A mark between documents. -/
def documentMark (s : Lexing) (k : TokenKind) : Option Lexing := do
  let s ← (s.unrollTo none).dropKey
  return (s.allowKey false).emitSkip 3 k

/-! ## Names and tags -/

/-- A byte of a name. -/
def isNameByte (b : UInt8) : Bool :=
  Text.isDigit b || (65 ≤ b && b ≤ 90) || (97 ≤ b && b ≤ 122) || b == 95 || b == 45

/-- The bytes that may follow a name besides a gap. -/
def afterName : List UInt8 := Text.ofString "?:,]\x7d%@`"

/-- An anchor or an alias. -/
def named (s : Lexing) (k : Text → TokenKind) : Option Lexing := do
  let s ← s.saveKey
  let name := s.place.rest.tail.takeWhile isNameByte
  let rest := s.place.rest.drop (1 + name.length)
  if name.isEmpty || !(Place.isGap rest || rest.head?.any afterName.contains) then none
  return (s.allowKey false).emitSkip (1 + name.length) (k name)

/-- The bytes of a tag besides those of names. -/
def tagMarks : List UInt8 := Text.ofString ";/?:@&=+$,.!~*'()[]%"

/-- A byte of a tag. -/
def isTagByte (b : UInt8) : Bool := isNameByte b || tagMarks.contains b

/-- A tag as written: its handle and what follows. -/
def tagParts (t : Text) : Text × Text :=
  match t with
  | 33 :: u =>
    let name := u.takeWhile isNameByte
    match u.drop name.length with
    | 33 :: v => (33 :: name ++ [33], v)
    | _ => if u.isEmpty then ([], t) else ([33], u)
  | _ => ([], t)

/-- A tag. -/
def tagged (s : Lexing) : Option Lexing := do
  let s ← s.saveKey
  let s := s.allowKey false
  match Text.dropPrefix? "!<" s.place.rest with
  | some t =>
    let uri := t.takeWhile isTagByte
    let rest := t.drop uri.length
    if uri.isEmpty || rest.head? != some 62 || !Place.isGap rest.tail then none
    return s.emitSkip (uri.length + 3) (.tag [] uri)
  | none =>
    let written := s.place.rest.takeWhile isTagByte
    let parts := tagParts written
    if !Place.isGap (s.place.rest.drop written.length) || (1 < parts.1.length && parts.2.isEmpty) then none
    return s.emitSkip written.length (.tag parts.1 parts.2)

/-- A directive: the version of the format, or what a handle of tags stands for. -/
def directive (s : Lexing) : Option Lexing := do
  let s ← (s.unrollTo none).dropKey
  let fin := s.place.toLineEnd s.place.rest.length
  let written := (s.place.rest.take (s.place.rest.length - fin.rest.length)).tail
  let words := ((Text.splitOn 32 (Text.replaceByte 9 [32] written)).filter fun w => !w.isEmpty).takeWhile
    fun w => w.head? != some 35
  let finish (k : TokenKind) : Option Lexing := some { (s.allowKey false).emit k with place := fin }
  match words with
  | [name, a] =>
    let (major, minor) := Text.cut 46 a
    if name = "YAML" && (Text.toNat? major).isSome && (minor.bind Text.toNat?).isSome then
      finish (.versionDirective major (minor.getD []))
    else none
  | [name, handle, start] => if name = "TAG" then finish (.tagDirective handle start) else none
  | _ => none

/-! ## Scalars -/

/-- A plain scalar. -/
def plain (s : Lexing) : Option Lexing := do
  let s ← s.saveKey
  let least := match s.indent with
    | some n => n + 1
    | none => 0
  let (f, p) ← plainFrom s.inFlow least (s.place.rest.length + 1) Folding.empty s.place
  return { (s.allowKey f.broken).emit (.scalar f.text true) with place := p }

/-- A quoted scalar. -/
def quoted (s : Lexing) (single : Bool) : Option Lexing := do
  let s ← s.saveKey
  let (text, p) ← quotedFrom single (s.place.rest.length + 1) Folding.empty s.place.skip
  return { (s.allowKey false).emit (.scalar text false) with place := p }

/-- A block. -/
def block (s : Lexing) (literal : Bool) : Option Lexing := do
  let s ← s.dropKey
  let (text, p) ← block? literal s.indent s.place.skip
  return { (s.allowKey true).emit (.scalar text false) with place := p }

/-! ## Tokens -/

/-- The bytes no plain scalar starts with. -/
def notPlain : List UInt8 := Text.ofString "-?:,[]\x7b\x7d#&*!|>'\"%@`"

/-- Whether a plain scalar starts with the byte `b` before `t`. -/
def startsPlain (s : Lexing) (b : UInt8) (t : Text) : Bool :=
  !(Place.isBlank b || notPlain.contains b) || (b == 45 && !t.head?.any Place.isBlank) ||
    (!s.inFlow && (b == 63 || b == 58) && !Place.isGap t)

/-- Reads the token at a place, which is not at the end. -/
def token (s : Lexing) (b : UInt8) (t : Text) : Option Lexing :=
  if s.place.column == 0 && b == 37 then s.directive
  else if s.place.atDocumentMark then s.documentMark (if b == 45 then .documentStart else .documentEnd)
  else if b == 91 then s.openMark .flowSequence
  else if b == 123 then s.openMark .flowMapping
  else if b == 93 then s.closeMark .flowSequenceEnd
  else if b == 125 then s.closeMark .flowMappingEnd
  else if b == 44 then s.commaMark
  else if b == 45 && Place.isGap t then s.entryMark
  else if b == 63 && (s.inFlow || Place.isGap t) then s.keyMark
  else if b == 58 && (s.inFlow || Place.isGap t) then s.valueMark
  else if b == 42 then s.named .alias_
  else if b == 38 then s.named .anchor
  else if b == 33 then s.tagged
  else if b == 124 && !s.inFlow then s.block true
  else if b == 62 && !s.inFlow then s.block false
  else if b == 39 then s.quoted true
  else if b == 34 then s.quoted false
  else if s.startsPlain b t then s.plain
  else none

/-- The tokens up to the end, or to where the text cannot be read on. -/
def run : (fuel : Nat) → Lexing → List Token
  | 0, s => (s.emit .unreadable).tokens
  | fuel + 1, s =>
    let s := s.toToken (s.place.rest.length + 1)
    let s := s.unrollTo (some s.place.column)
    match s.place.rest with
    | [] =>
      match (s.unrollTo none).dropKey with
      | some s => (s.emit .streamEnd).tokens
      | none => (s.emit .unreadable).tokens
    | b :: t =>
      match s.token b t with
      | some s => run fuel s
      | none => (s.emit .unreadable).tokens

end Lexing

/-- Whether a character may stand in a YAML text. -/
def isAllowed (n : Nat) : Bool :=
  n == 9 || n == 10 || n == 13 || (0x20 ≤ n && n ≤ 0x7E) || n == 0x85 || (0xA0 ≤ n && n ≤ 0xD7FF) ||
    (0xE000 ≤ n && n ≤ 0xFFFD) || (0x10000 ≤ n && n ≤ 0x10FFFF)

/-- The tokens of a text. -/
def tokens (t : Text) : List Token :=
  let t := Text.trimPrefix [0xEF, 0xBB, 0xBF] t
  if t.runes.all fun r => r.code.any isAllowed then (Lexing.start t).run (t.length + 1)
  else [⟨.unreadable, 0⟩]

end DocAtlas.Yaml
