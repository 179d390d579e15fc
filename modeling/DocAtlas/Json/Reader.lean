/-
Reading JSON. The whole text must be one value with white space around it. Numbers keep their
written form; strings are decoded, with U+FFFD for stray bytes and for surrogates without a
partner. Values may be nested to any depth: a reader that stops at ten thousand levels refuses
deeper texts that are read here.
-/
import DocAtlas.Json.Value
import DocAtlas.Text.Rune

namespace DocAtlas.Json

/-- The bytes between the parts of a document. -/
def isSpace (b : UInt8) : Bool := b == 32 || b == 9 || b == 10 || b == 13

def skipSpace (t : Text) : Text := t.dropWhile isSpace

/-- The value of a hexadecimal digit. -/
def hexDigit? (b : UInt8) : Option Nat :=
  if 48 ≤ b && b ≤ 57 then some (b.toNat - 48)
  else if 97 ≤ b && b ≤ 102 then some (b.toNat - 87)
  else if 65 ≤ b && b ≤ 70 then some (b.toNat - 55)
  else none

/-- The value of four hexadecimal digits. -/
def hex4? (a b c d : UInt8) : Option Nat := do
  return (((← hexDigit? a) * 16 + (← hexDigit? b)) * 16 + (← hexDigit? c)) * 16 + (← hexDigit? d)

/-- A unit of a JSON string: a byte as it stands, or an escaped 16-bit unit. -/
inductive Unit16 where
  | byte (b : UInt8)
  | unit (n : Nat)
deriving DecidableEq, Repr

/-- The byte a one-letter escape stands for. -/
def letterEscape? (b : UInt8) : Option UInt8 :=
  match b with
  | 34 => some 34
  | 92 => some 92
  | 47 => some 47
  | 98 => some 8
  | 102 => some 12
  | 110 => some 10
  | 114 => some 13
  | 116 => some 9
  | _ => none

/-- The units of a string up to its closing quote, and the text after it. -/
def readUnits : Text → Option (List Unit16 × Text)
  | [] => none
  | 34 :: t => some ([], t)
  | 92 :: 117 :: a :: b :: c :: d :: t => do
    let n ← hex4? a b c d
    let (us, rest) ← readUnits t
    return (.unit n :: us, rest)
  | 92 :: e :: t => do
    let b ← letterEscape? e
    let (us, rest) ← readUnits t
    return (.byte b :: us, rest)
  | b :: t =>
    if b < 32 || b == 92 then none
    else do
      let (us, rest) ← readUnits t
      return (.byte b :: us, rest)

/-- The bytes of a unit sequence. `high` is a first surrogate waiting for its partner. -/
def joinUnits : (high : Option Nat) → List Unit16 → Text
  | none, [] => []
  | some _, [] => Text.ofCode 0xFFFD
  | none, .byte b :: us => b :: joinUnits none us
  | some _, .byte b :: us => Text.ofCode 0xFFFD ++ b :: joinUnits none us
  | high, .unit n :: us =>
    let isLow := 0xDC00 ≤ n && n ≤ 0xDFFF
    let isHigh := 0xD800 ≤ n && n ≤ 0xDBFF
    match high with
    | some h =>
      if isLow then Text.ofCode (0x10000 + (h - 0xD800) * 1024 + (n - 0xDC00)) ++ joinUnits none us
      else
        Text.ofCode 0xFFFD ++
          (if isHigh then joinUnits (some n) us else Text.ofCode n ++ joinUnits none us)
    | none =>
      if isHigh then joinUnits (some n) us
      else if isLow then Text.ofCode 0xFFFD ++ joinUnits none us
      else Text.ofCode n ++ joinUnits none us

/-- The text of a string after its opening quote, and what follows it. -/
def readString (t : Text) : Option (Text × Text) := do
  let (us, rest) ← readUnits t
  return (Text.scrubbed (joinUnits none us), rest)

/-- A nonempty run of digits. -/
def readDigits (t : Text) : Option (Text × Text) :=
  let ds := t.takeWhile Text.isDigit
  if ds.isEmpty then none else some (ds, t.drop ds.length)

/-- The whole part of a number: no leading zero but zero itself. -/
def readWhole : Text → Option (Text × Text)
  | 48 :: t => some ([48], t)
  | t => readDigits t

/-- The fraction of a number, if there is one. -/
def readFraction : Text → Option (Text × Text)
  | 46 :: t => (readDigits t).map fun (ds, rest) => (46 :: ds, rest)
  | t => some ([], t)

/-- The exponent of a number, if there is one. -/
def readExponent : Text → Option (Text × Text)
  | e :: t =>
    if e == 101 || e == 69 then
      match t with
      | s :: u =>
        if s == 43 || s == 45 then (readDigits u).map fun (ds, rest) => (e :: s :: ds, rest)
        else (readDigits t).map fun (ds, rest) => (e :: ds, rest)
      | [] => none
    else some ([], e :: t)
  | [] => some ([], [])

/-- A number as written, and what follows it. -/
def readNumber (t : Text) : Option (Text × Text) := do
  let (sign, t) := match t with
    | 45 :: u => (([45] : Text), u)
    | _ => ([], t)
  let (whole, t) ← readWhole t
  let (fraction, t) ← readFraction t
  let (exponent, t) ← readExponent t
  return (sign ++ whole ++ fraction ++ exponent, t)

mutual

/-- A value at the start of a text without leading space, and what follows it. Every level spends
one unit of fuel. -/
def readValue : (fuel : Nat) → Text → Option (Json × Text)
  | 0, _ => none
  | fuel + 1, t =>
    match t with
    | [] => none
    | 34 :: u => (readString u).map fun (s, rest) => (str s, rest)
    | 91 :: u =>
      match skipSpace u with
      | 93 :: rest => some (arr [], rest)
      | v => (readItems fuel v).map fun (items, rest) => (arr items, rest)
    | 123 :: u =>
      match skipSpace u with
      | 125 :: rest => some (obj [], rest)
      | v => (readMembers fuel v).map fun (members, rest) => (obj members, rest)
    | _ =>
      match Text.dropPrefix? "true" t with
      | some rest => some (bool true, rest)
      | none =>
        match Text.dropPrefix? "false" t with
        | some rest => some (bool false, rest)
        | none =>
          match Text.dropPrefix? "null" t with
          | some rest => some (null, rest)
          | none => (readNumber t).map fun (lit, rest) => (num lit, rest)

/-- The items of an array up to its closing bracket. -/
def readItems : (fuel : Nat) → Text → Option (List Json × Text)
  | 0, _ => none
  | fuel + 1, t =>
    match readValue fuel t with
    | none => none
    | some (v, rest) =>
      match skipSpace rest with
      | 44 :: rest => (readItems fuel (skipSpace rest)).map fun (vs, rest) => (v :: vs, rest)
      | 93 :: rest => some ([v], rest)
      | _ => none

/-- The members of an object up to its closing brace. -/
def readMembers : (fuel : Nat) → Text → Option (List (Text × Json) × Text)
  | 0, _ => none
  | fuel + 1, t =>
    match t with
    | 34 :: u =>
      match readString u with
      | none => none
      | some (key, rest) =>
        match skipSpace rest with
        | 58 :: rest =>
          match readValue fuel (skipSpace rest) with
          | none => none
          | some (v, rest) =>
            match skipSpace rest with
            | 44 :: rest => (readMembers fuel (skipSpace rest)).map fun (ms, rest) => ((key, v) :: ms, rest)
            | 125 :: rest => some ([(key, v)], rest)
            | _ => none
        | _ => none
    | _ => none

end

/-- The value a text holds; none if the text is not one JSON value. -/
def parse? (t : Text) : Option Json :=
  match readValue (2 * t.length + 2) (skipSpace t) with
  | some (v, rest) => if (skipSpace rest).isEmpty then some v else none
  | none => none

end DocAtlas.Json
