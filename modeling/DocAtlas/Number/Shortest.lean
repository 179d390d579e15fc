/-
The shortest decimal of a floating-point number: the fewest digits that read back as the number,
and of those the decimal nearest to it. The digits are found by exact comparison on the decimal
grids of one, two, … seventeen digits.

Two layouts are used. Documents write numbers positionally between 10^-6 and 10^21; reports write
them positionally only between 10^-4 and 10^6.
-/
import DocAtlas.Number.Binary64

namespace DocAtlas

/-- The decimal `0.d₁d₂… · 10 ^ point`, its digits as one number of `size` digits. -/
structure ShortDecimal where
  digits : Nat
  size : Nat
  point : Int
deriving DecidableEq, Repr

namespace Binary64

/-- Whether `c · 10 ^ p` rounds to `x`: it lies between the midpoints to the neighbours, the ends
included if the mantissa is even. The lower neighbour is closer below a power of two. -/
def readsBack (x : Binary64) (c : Nat) (p : Int) : Bool :=
  let below := if x.mant = Nat.pow 2 52 ∧ minExp < x.exp then 1 else 2
  -- in units of `2 ^ (exp - 2)`
  let lo := 4 * x.mant - below
  let hi := 4 * x.mant + 2
  let e := x.exp - 2
  let v := c * Nat.pow 10 p.toNat * Nat.pow 2 (-e).toNat
  let unit := Nat.pow 10 (-p).toNat * Nat.pow 2 e.toNat
  if x.mant % 2 = 0 then lo * unit ≤ v && v ≤ hi * unit else lo * unit < v && v < hi * unit

/-- The least `p` with `num / den < 10 ^ p`, searched from a guess that is at most two too low. -/
def pointFor (num den : Nat) : Int :=
  let guess : Int := (Nat.toDigits 10 num).length - (Nat.toDigits 10 den).length - 1
  let lt (p : Int) : Bool := num * Nat.pow 10 (-p).toNat < den * Nat.pow 10 p.toNat
  if lt guess then guess else if lt (guess + 1) then guess + 1 else guess + 2

/-- The decimal of `n` digits that reads back as `x`, if there is one: the nearer of the two
neighbours of `x` on the grid, a tie going to the even one. -/
def pick? (x : Binary64) (num den : Nat) (point : Int) (n : Nat) : Option (Nat × Int) :=
  let p := point - n
  let a := num * Nat.pow 10 (-p).toNat
  let b := den * Nat.pow 10 p.toNat
  let lo := a / b
  let r := a % b
  let loOk := readsBack x lo p
  let hiOk := readsBack x (lo + 1) p
  if loOk && hiOk then
    if 2 * r < b then some (lo, p) else if b < 2 * r then some (lo + 1, p)
    else if lo % 2 = 0 then some (lo, p) else some (lo + 1, p)
  else if loOk then some (lo, p)
  else if hiOk then some (lo + 1, p)
  else none

/-- The digits without zeros at the end. -/
def dropZeros : (fuel : Nat) → Nat → Int → Nat × Int
  | 0, c, p => (c, p)
  | fuel + 1, c, p => if c % 10 = 0 ∧ c ≠ 0 then dropZeros fuel (c / 10) (p + 1) else (c, p)

/-- The shortest decimal of a number. -/
def shortest (x : Binary64) : ShortDecimal :=
  if x.isZero then ⟨0, 1, 1⟩
  else
    let (num, den) := x.ratio
    let point := pointFor num den
    let (c, p) := (((List.range 17).findSome? fun i => pick? x num den point (i + 1)).getD (0, 0))
    let (c, p) := dropZeros 20 c p
    let size := (Nat.toDigits 10 c).length
    ⟨c, size, p + size⟩

end Binary64

namespace ShortDecimal

/-- Digits and point, without an exponent. -/
def positional (d : ShortDecimal) : Text :=
  let ds := Text.ofNat d.digits
  if d.point ≤ 0 then Text.ofString "0." ++ List.replicate (-d.point).toNat 48 ++ ds
  else if d.point.toNat < d.size then ds.take d.point.toNat ++ "." ++ ds.drop d.point.toNat
  else ds ++ List.replicate (d.point.toNat - d.size) 48

/-- One digit before the point and an exponent of at least `width` digits. -/
def scientific (width : Nat) (d : ShortDecimal) : Text :=
  let ds := Text.ofNat d.digits
  let e := d.point - 1
  ds.take 1 ++ (if 1 < d.size then 46 :: ds.drop 1 else []) ++ "e" ++ (if e < 0 then "-" else "+") ++
    Text.paddedDigits 10 width e.natAbs

end ShortDecimal

namespace Binary64

/-- The number as documents write it. -/
def documentText (x : Binary64) : Text :=
  let d := x.shortest
  let sign : Text := if x.neg then "-" else []
  if x.isZero || (-6 < d.point && d.point ≤ 21) then sign ++ d.positional
  else sign ++ d.scientific (if d.point - 1 < 0 then 1 else 2)

/-- The number as reports write it. -/
def reportText (x : Binary64) : Text :=
  let d := x.shortest
  let sign : Text := if x.neg then "-" else []
  if x.isZero || (-4 < d.point && d.point ≤ 6) then sign ++ d.positional
  else sign ++ d.scientific 2

end Binary64

end DocAtlas
