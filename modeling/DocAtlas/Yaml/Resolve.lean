/-
What a plain scalar stands for: nothing, a truth value, a number, a day or instant, or else a text.
Each kind has a tag, and a scalar may be written with the tag it has to have; other tags say nothing.
-/
import DocAtlas.Json.Float
import DocAtlas.Time.Instant

namespace DocAtlas.Yaml

/-- What a scalar stands for. Numbers and instants are kept as written. -/
inductive Meaning where
  | null | bool (b : Bool) | int | float | timestamp | text
deriving DecidableEq, Repr

namespace Meaning

def tag : Meaning → Text
  | null => "!!null"
  | bool _ => "!!bool"
  | int => "!!int"
  | float => "!!float"
  | timestamp => "!!timestamp"
  | text => "!!str"

/-- The words with a meaning of their own. -/
def words : List (Meaning × List Text) :=
  [(bool true, ["true", "True", "TRUE"]), (bool false, ["false", "False", "FALSE"]),
   (null, ["", "~", "null", "Null", "NULL"]),
   (float, [".nan", ".NaN", ".NAN", ".inf", ".Inf", ".INF", "+.inf", "+.Inf", "+.INF", "-.inf", "-.Inf", "-.INF"])]

def ofWord? (t : Text) : Option Meaning := (words.find? fun w => w.2.contains t).map Prod.fst

/-! ## Numbers -/

/-- A number without its sign. -/
def unsigned (t : Text) : Text := if t.head? == some 43 || t.head? == some 45 then t.tail else t

/-- The value of a digit, in any base up to 36. -/
def digitValue (b : UInt8) : Nat :=
  if Text.isDigit b then b.toNat - 48
  else
    let l := Text.lowerByte b
    if 97 ≤ l && l ≤ 122 then l.toNat - 87 else 36

/-- The number digits of a base stand for. -/
def inBase? (base : Nat) (ds : Text) : Option Nat :=
  if ds.isEmpty then none
  else ds.foldlM (fun n b => if digitValue b < base then some (n * base + digitValue b) else none) 0

/-- The base of a number and its digits. -/
def baseOf (t : Text) : Nat × Text :=
  match t with
  | 48 :: x :: ds =>
    let l := Text.lowerByte x
    if l == 120 then (16, ds) else if l == 111 then (8, ds) else if l == 98 then (2, ds) else (8, x :: ds)
  | ds => (10, ds)

/-- A whole number of at most 64 bits. -/
def isInt (t : Text) : Bool :=
  let (base, ds) := baseOf (unsigned t)
  match inBase? base ds with
  | none => false
  | some n =>
    if t.head? == some 45 then n ≤ Nat.pow 2 63
    else if t.head? == some 43 then n < Nat.pow 2 63
    else n < Nat.pow 2 64

/-- What is left of a number after its digits and its point: none if it has no digit. -/
def afterDigits? (t : Text) : Option Text :=
  let whole := t.takeWhile Text.isDigit
  let rest := t.drop whole.length
  match rest with
  | 46 :: u =>
    let fraction := u.takeWhile Text.isDigit
    if whole.isEmpty && fraction.isEmpty then none else some (u.drop fraction.length)
  | _ => if whole.isEmpty then none else some rest

/-- A number in decimal, with a point, an exponent or neither. -/
def isFloat (t : Text) : Bool :=
  match afterDigits? (unsigned t) with
  | none => false
  | some [] => true
  | some (e :: u) => Text.lowerByte e == 101 && !(unsigned u).isEmpty && (unsigned u).all Text.isDigit

/-- A number in decimal that is not too large. -/
def isFinite (t : Text) : Bool :=
  let bare := unsigned t
  let padded := if bare.head? == some 46 then 48 :: bare else bare
  isFloat t && (Json.float? padded).isSome

/-! ## Days and instants -/

/-- One or two digits at the start of a text. -/
def shortNumber (t : Text) : Option (Nat × Text) :=
  let ds := (t.take 2).takeWhile Text.isDigit
  (Text.toNat? ds).map fun n => (n, t.drop ds.length)

/-- What follows a byte. -/
def after? (b : UInt8) : Text → Option Text
  | c :: t => if b == c then some t else none
  | [] => none

/-- What follows a day. -/
def afterDay? (t : Text) : Option Text := do
  let y ← Text.toNat? (t.take 4)
  if t.length < 4 then none
  let (m, t) ← shortNumber (← after? 45 (t.drop 4))
  let (d, t) ← shortNumber (← after? 45 t)
  if m = 0 || 12 < m || d = 0 || Instant.daysIn y m < d then none
  return t

/-- What follows a time of day. -/
def afterTime? (t : Text) : Option Text := do
  let (h, t) ← shortNumber t
  let (m, t) ← shortNumber (← after? 58 t)
  let (s, t) ← shortNumber (← after? 58 t)
  if 24 ≤ h || 60 ≤ m || 60 ≤ s then none
  return Instant.afterFraction t

/-- Whether a text is a day, alone or with a time. -/
def isTimestamp (t : Text) : Bool :=
  match afterDay? t with
  | none => false
  | some [] => true
  | some (c :: u) =>
    match afterTime? u with
    | none => false
    | some rest =>
      if c == 32 then rest.isEmpty
      else if c == 84 || c == 116 then match Instant.afterOffset rest with
        | .ok fin => fin.isEmpty
        | .error _ => false
      else false

/-! ## Scalars -/

/-- What a plain scalar stands for. Instants count unless a tag other than theirs is asked for. -/
def ofPlain (asked t : Text) : Meaning :=
  match ofWord? t with
  | some m => m
  | none =>
    match t with
    | [] => null
    | b :: _ =>
      let dense := t.filter (· != 95)
      if b == 46 then if isFinite t then float else text
      else if !(Text.isDigit b || b == 43 || b == 45) then text
      else if (asked.isEmpty || asked == timestamp.tag) && isTimestamp t then timestamp
      else if isInt dense then int
      else if isFinite dense then float
      else text

/-- The tags of the meanings. -/
def tags : List Text := [tag null, tag (bool true), tag int, tag float, tag timestamp]

/-- What a scalar stands for that has a tag; none if it cannot be that. With a tag of none of the
kinds above it is a text. -/
def ofTagged? (tag t : Text) : Option Meaning :=
  if !tags.contains tag then some text
  else
    let m := ofPlain tag t
    if m.tag == tag then some m
    else if m == int && tag == float.tag then some float
    else none

end Meaning

end DocAtlas.Yaml
