/-
Base64: three bytes as four letters. The last group may be short and is filled up with equal signs.
-/
import DocAtlas.Text.Basic

namespace DocAtlas.Base64

/-- The letter of a number below 64. -/
def letter (n : Nat) : UInt8 :=
  if n < 26 then (65 + n).toUInt8
  else if n < 52 then (71 + n).toUInt8
  else if n < 62 then (n - 4).toUInt8
  else if n == 62 then 43
  else 47

/-- The number of a letter. -/
def value? (b : UInt8) : Option Nat :=
  if 65 ≤ b && b ≤ 90 then some (b.toNat - 65)
  else if 97 ≤ b && b ≤ 122 then some (b.toNat - 71)
  else if Text.isDigit b then some (b.toNat + 4)
  else if b == 43 then some 62
  else if b == 47 then some 63
  else none

def encode : Text → Text
  | a :: b :: c :: t =>
    let n := (a.toNat * 256 + b.toNat) * 256 + c.toNat
    letter (n / 262144) :: letter (n / 4096 % 64) :: letter (n / 64 % 64) :: letter (n % 64) :: encode t
  | [a, b] =>
    let n := (a.toNat * 256 + b.toNat) * 256
    [letter (n / 262144), letter (n / 4096 % 64), letter (n / 64 % 64), 61]
  | [a] =>
    let n := a.toNat * 65536
    [letter (n / 262144), letter (n / 4096 % 64), 61, 61]
  | [] => []

/-- The bytes of numbers below 64, four at a time. -/
def bytes : List Nat → Text
  | a :: b :: c :: d :: t =>
    let n := ((a * 64 + b) * 64 + c) * 64 + d
    (n / 65536).toUInt8 :: (n / 256).toUInt8 :: n.toUInt8 :: bytes t
  | [a, b, c] =>
    let n := ((a * 64 + b) * 64 + c) * 64
    [(n / 65536).toUInt8, (n / 256).toUInt8]
  | [a, b] => [((a * 64 + b) / 16).toUInt8]
  | _ => []

/-- The bytes a text stands for; none if it is not made of full groups of letters. Line ends do not
count. -/
def decode? (t : Text) : Option Text :=
  let t := t.filter fun b => b != 10 && b != 13
  let body := t.reverse.dropWhile (· == 61) |>.reverse
  if t.length % 4 != 0 || body.length + 2 < t.length || body.length % 4 == 1 then none
  else (body.mapM value?).map bytes

end DocAtlas.Base64
