/-
Instants as text: a date, a time of day with an optional fraction, and an offset. Reading goes part
by part and complains of the first that does not fit, showing the text from there on and a sample
of what was due.
-/
import DocAtlas.Text.Basic

namespace DocAtlas.Instant

/-- What an instant looks like. -/
def sample : Text := "2006-01-02T15:04:05Z07:00"

/-- A byte in a complaint. -/
def shownByte (b : UInt8) : Text :=
  if b < 32 || 128 ≤ b then "\\x" ++ Text.paddedDigits 16 2 b.toNat
  else if b == 34 || b == 92 then [92, b]
  else [b]

/-- A text between quotes in a complaint. -/
def shown (t : Text) : Text := 34 :: t.flatMap shownByte ++ [34]

/-- What is wrong with an instant. -/
inductive Complaint where
  /-- At `rest` something like `due` was expected. -/
  | unread (rest due : Text)
  | outOfRange (part : Text)
  | extra (rest : Text)
deriving Repr

/-- The complaint about a text in words. -/
def Complaint.message (t : Text) : Complaint → Text
  | unread rest due =>
    "parsing time " ++ shown t ++ " as " ++ shown sample ++ ": cannot parse " ++ shown rest ++ " as " ++ shown due
  | outOfRange part => "parsing time " ++ shown t ++ ": " ++ part ++ " out of range"
  | extra rest => "parsing time " ++ shown t ++ ": extra text: " ++ shown rest

/-- A number at the start of a text, and what follows it. -/
abbrev Reader := Text → Except Complaint (Nat × Text)

def digitValue (b : UInt8) : Nat := b.toNat - 48

/-- One byte. -/
def expect (due : Text) (t : Text) : Except Complaint Text :=
  match Text.dropPrefix? due t with
  | some rest => .ok rest
  | none => .error (.unread t due)

/-- Four digits. -/
def year : Reader := fun t =>
  match Text.toNat? (t.take 4) with
  | some n => if t.length < 4 then .error (.unread t "2006") else .ok (n, t.drop 4)
  | none => .error (.unread t "2006")

/-- Two digits, or one where that is allowed. -/
def pair (due : Text) (single : Bool) : Reader := fun t =>
  match t with
  | a :: b :: rest =>
    if !Text.isDigit a then .error (.unread t due)
    else if Text.isDigit b then .ok (digitValue a * 10 + digitValue b, rest)
    else if single then .ok (digitValue a, b :: rest)
    else .error (.unread t due)
  | [a] => if Text.isDigit a && single then .ok (digitValue a, []) else .error (.unread t due)
  | [] => .error (.unread t due)

/-- A number that must be below a bound. -/
def below (part : Text) (bound : Nat) (r : Nat × Text) : Except Complaint (Nat × Text) :=
  if r.1 < bound then .ok r else .error (.outOfRange part)

/-- What follows a fraction of a second, if there is one. -/
def afterFraction (t : Text) : Text :=
  match t with
  | p :: d :: rest =>
    if (p == 46 || p == 44) && Text.isDigit d then rest.dropWhile Text.isDigit else t
  | _ => t

/-- What follows an offset. -/
def afterOffset (t : Text) : Except Complaint Text :=
  match t with
  | 90 :: rest => .ok rest
  | s :: h1 :: h2 :: 58 :: m1 :: m2 :: rest =>
    if !([h1, h2, m1, m2].all Text.isDigit) then .error (.unread t "Z07:00")
    else if 24 < digitValue h1 * 10 + digitValue h2 then .error (.outOfRange "time zone offset hour")
    else if 60 < digitValue m1 * 10 + digitValue m2 then .error (.outOfRange "time zone offset minute")
    else if s == 43 || s == 45 then .ok rest
    else .error (.unread t "Z07:00")
  | _ => .error (.unread t "Z07:00")

/-- The number of days of a month. -/
def daysIn (y m : Nat) : Nat :=
  if m = 2 then if y % 4 = 0 ∧ (y % 100 ≠ 0 ∨ y % 400 = 0) then 29 else 28
  else if m = 4 ∨ m = 6 ∨ m = 9 ∨ m = 11 then 30
  else 31

/-- Reads an instant for what is wrong with it. -/
def check (t : Text) : Except Complaint Unit := do
  let (y, t) ← year t
  let (m, t) ← pair "01" false (← expect "-" t)
  if m = 0 ∨ 12 < m then throw (.outOfRange "month")
  let (d, t) ← pair "02" false (← expect "-" t)
  let (_, t) ← below "hour" 24 (← pair "15" true (← expect "T" t))
  let (_, t) ← below "minute" 60 (← pair "04" false (← expect ":" t))
  let (_, t) ← below "second" 60 (← pair "05" false (← expect ":" t))
  let t ← afterOffset (afterFraction t)
  if !t.isEmpty then throw (.extra t)
  if d = 0 ∨ daysIn y m < d then throw (.outOfRange "day")

end DocAtlas.Instant
