/-
What tells one run from others: an identifier made of sixteen random bytes, and the instant it
happened at.
-/
import DocAtlas.Time.Calendar

namespace DocAtlas

/-- What tells a run from others. -/
structure RunStamp where
  runId : Text
  generatedAt : Text

namespace RunStamp

/-- A byte as two hexadecimal digits. -/
def hexPair (b : UInt8) : Text := Text.paddedDigits 16 2 b.toNat

/-- The identifier of random bytes: five groups of hexadecimal digits. Six bits are fixed and tell
that the others are random. -/
def identifier (random : List UInt8) : Text :=
  let byte (i : Nat) : UInt8 := random.getD i 0
  let group (start count : Nat) : Text := (List.range count).flatMap fun i => hexPair (byte (start + i))
  let version := hexPair ((byte 6 &&& 0x0F) ||| 0x40) ++ group 7 1
  let variant := hexPair ((byte 8 &&& 0x3F) ||| 0x80) ++ group 9 1
  Text.joinWith "-" [group 0 4, group 4 2, version, variant, group 10 6]

/-- The stamp of a run with random bytes, at an instant in milliseconds since 1970. -/
def ofClock (random : List UInt8) (ms : Int) : RunStamp := ⟨identifier random, Calendar.instantText ms⟩

end RunStamp

end DocAtlas
