/-
The calendar: an instant, counted in milliseconds since the first of January 1970, as a date and a
time of day in the zone zero. Years go on before and after those of four digits.
-/
import DocAtlas.Text.Basic

namespace DocAtlas.Calendar

/-- A day of the calendar. -/
structure Date where
  year : Int
  month : Nat
  day : Nat
deriving DecidableEq, Repr

/-- The number of days from the first of March of the year zero to the first of January 1970. -/
def epochDay : Int := 719468

/-- The number of days in four hundred years. -/
def eraDays : Int := 146097

/-- The date that many days after the first of January 1970. Years are counted from March, so that
a leap day is the last of its year. -/
def dateOf (days : Int) : Date :=
  let z := days + epochDay
  let era := z / eraDays
  let dayOfEra := (z - era * eraDays).toNat
  let yearOfEra := (dayOfEra - dayOfEra / 1460 + dayOfEra / 36524 - dayOfEra / 146096) / 365
  let dayOfYear := dayOfEra - (365 * yearOfEra + yearOfEra / 4 - yearOfEra / 100)
  let m := (5 * dayOfYear + 2) / 153
  let month := if m < 10 then m + 3 else m - 9
  { year := yearOfEra + era * 400 + (if month ≤ 2 then 1 else 0)
    month
    day := dayOfYear - (153 * m + 2) / 5 + 1 }

/-- A year with at least four digits. -/
def yearText (y : Int) : Text :=
  let digits := Text.paddedDigits 10 4 y.natAbs
  if y < 0 then 45 :: digits else digits

/-- Two digits. -/
def pairText (n : Nat) : Text := Text.paddedDigits 10 2 n

/-- The date and the time of day of an instant, to the second. -/
def dayTime (ms : Int) : Text :=
  let seconds := ms / 1000
  let date := dateOf (seconds / 86400)
  let time := (seconds % 86400).toNat
  yearText date.year ++ "-" ++ pairText date.month ++ "-" ++ pairText date.day ++ "T" ++
    pairText (time / 3600) ++ ":" ++ pairText (time / 60 % 60) ++ ":" ++ pairText (time % 60)

/-- An instant to the second. -/
def secondText (ms : Int) : Text := dayTime ms ++ "Z"

/-- The digits after the point that an instant needs, with the point; nothing for a whole second. -/
def fraction (ms : Int) : Text :=
  match ((Text.paddedDigits 10 3 (ms % 1000).toNat).reverse.dropWhile (· == 48)).reverse with
  | [] => []
  | digits => 46 :: digits

/-- An instant to the millisecond, without needless zeros. -/
def instantText (ms : Int) : Text := dayTime ms ++ fraction ms ++ "Z"

end DocAtlas.Calendar
