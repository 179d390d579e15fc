/-
Floating-point numbers with 53 bits of precision, by exact arithmetic. A finite number is a sign
and a magnitude `mant · 2 ^ exp`; rounding is to the nearest such number, a tie to the even
mantissa.
-/
import DocAtlas.Text.Basic

namespace DocAtlas

/-- A finite number `mant · 2 ^ exp`. -/
structure Binary64 where
  neg : Bool
  mant : Nat
  exp : Int
deriving DecidableEq, Repr

namespace Binary64

/-- The smallest exponent. -/
def minExp : Int := -1074

/-- The largest exponent. -/
def maxExp : Int := 971

/-- The form every number is kept in: full precision unless the exponent is smallest. -/
structure WF (x : Binary64) : Prop where
  mant_lt : x.mant < Nat.pow 2 53
  exp_ge : minExp ≤ x.exp
  exp_le : x.exp ≤ maxExp
  normal : Nat.pow 2 52 ≤ x.mant ∨ x.exp = minExp

def zero : Binary64 := ⟨false, 0, minExp⟩

def isZero (x : Binary64) : Bool := x.mant == 0

/-- `num · 2 ^ (-e) / den` as a fraction of natural numbers. -/
def scaled (num den : Nat) (e : Int) : Nat × Nat := (num * Nat.pow 2 (-e).toNat, den * Nat.pow 2 e.toNat)

/-- The nearest natural number to a fraction, a tie to the even one. -/
def roundHalfEven (num den : Nat) : Nat :=
  let q := num / den
  let r := num % den
  if 2 * r < den then q
  else if den < 2 * r then q + 1
  else if q % 2 = 0 then q
  else q + 1

/-- The exponent at which `num / den` has full precision, or the smallest one. -/
def expFor (num den : Nat) : Int :=
  let guess : Int := (Nat.log2 num : Int) - Nat.log2 den - 52
  let (n, d) := scaled num den guess
  let e := if n / d < Nat.pow 2 52 then guess - 1 else if Nat.pow 2 53 ≤ n / d then guess + 1 else guess
  max e minExp

/-- The number nearest to `num / den`; none beyond the largest. -/
def ofRatio? (neg : Bool) (num den : Nat) : Option Binary64 :=
  if num = 0 then some { zero with neg }
  else
    let e := expFor num den
    let (n, d) := scaled num den e
    let m := roundHalfEven n d
    let (m, e) := if m = Nat.pow 2 53 then (Nat.pow 2 52, e + 1) else (m, e)
    if maxExp < e then none else some ⟨neg, m, e⟩

/-- The number nearest to `digits · 10 ^ exp10`; none beyond the largest. Exponents far outside
the range are settled without computing the power. -/
def ofDecimal? (neg : Bool) (digits : Nat) (exp10 : Int) : Option Binary64 :=
  let size : Int := (Nat.toDigits 10 digits).length
  if digits = 0 then some { zero with neg }
  else if 400 < size + exp10 then none
  else if size + exp10 < -400 then some { zero with neg }
  else ofRatio? neg (digits * Nat.pow 10 exp10.toNat) (Nat.pow 10 (-exp10).toNat)

/-- The number nearest to a natural number. -/
def ofNat (n : Nat) : Binary64 := (ofRatio? false n 1).getD zero

/-- The magnitude as a fraction. -/
def ratio (x : Binary64) : Nat × Nat := (x.mant * Nat.pow 2 x.exp.toNat, Nat.pow 2 (-x.exp).toNat)

/-- The sum of two magnitudes, rounded. -/
def addMagnitude (x y : Binary64) : Binary64 :=
  let (a, b) := x.ratio
  let (c, d) := y.ratio
  (ofRatio? false (a * d + c * b) (b * d)).getD zero

end Binary64

end DocAtlas
