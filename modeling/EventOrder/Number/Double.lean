import EventOrder.Number.Power

/-!
# Double-precision numbers

The doubles that are not negative, as a mantissa of at most 53 bits times a power of two. A ratio
is rounded to the nearest double, a tie to the even mantissa; multiplication and division round
the exact result once.
-/

namespace EventOrder

/-- The number `mantissa * 2 ^ exponent`. -/
structure Double where
  /-- The mantissa, below `2 ^ 53`. -/
  mantissa : Nat
  /-- The power of two, at least `-1074`. -/
  exponent : Int
deriving DecidableEq, Repr, Inhabited

namespace Double

/-- The least power of two that a double can have. -/
def leastExponent : Int := -1074

/-- The number zero. -/
def zero : Double := ⟨0, leastExponent⟩

/-- The ratio divided by a power of two, as a ratio. -/
def shifted (numerator denominator : Nat) (exponent : Int) : Nat × Nat :=
  (numerator * 2 ^ (-exponent).toNat, denominator * 2 ^ exponent.toNat)

/-- The integer nearest to a ratio, the even one when two are equally near. -/
def nearest (numerator denominator : Nat) : Nat :=
  let quotient := numerator / denominator
  let twice := 2 * (numerator % denominator)
  if denominator < twice || (twice = denominator && quotient % 2 = 1) then quotient + 1
  else quotient

/-- The double nearest to a ratio. A result beyond the largest double keeps its exponent. -/
def ofRatio (numerator denominator : Nat) : Double :=
  if numerator = 0 then zero
  else
    let guess := max leastExponent ((numerator.log2 : Int) - denominator.log2 - 53)
    let (a, b) := shifted numerator denominator guess
    let exponent := if a / b < 2 ^ 53 then guess else guess + 1
    let (a, b) := shifted numerator denominator exponent
    let mantissa := nearest a b
    if mantissa = 2 ^ 53 then ⟨2 ^ 52, exponent + 1⟩ else ⟨mantissa, exponent⟩

/-- The double nearest to a natural number. -/
def ofNat (n : Nat) : Double := ofRatio n 1

/-- The number as a ratio. -/
def toRatio (x : Double) : Nat × Nat :=
  (x.mantissa * 2 ^ x.exponent.toNat, 2 ^ (-x.exponent).toNat)

/-- The product, rounded. -/
def mul (x y : Double) : Double :=
  ofRatio (x.toRatio.1 * y.toRatio.1) (x.toRatio.2 * y.toRatio.2)

/-- The quotient by a number that is not zero, rounded. -/
def div (x y : Double) : Double :=
  ofRatio (x.toRatio.1 * y.toRatio.2) (x.toRatio.2 * y.toRatio.1)

/-- Whether the number lies beyond the largest double. -/
def isTooLarge (x : Double) : Bool := 971 < x.exponent

/-- The largest power of ten that is a double. -/
def mostTens : Nat := 308

/-- The double nearest to a power of ten. -/
def tens (power : Nat) : Double := ofNat (10 ^ power)

/-- A whole number times a power of ten, reached in rounded steps by powers of ten that are doubles;
nothing when that is beyond the largest double. -/
def scale? (significand : Nat) (power : Int) : Option Double :=
  let x := ofNat significand
  if 0 ≤ power then
    if power ≤ mostTens then
      let scaled := x.mul (tens power.toNat)
      if scaled.isTooLarge then none else some scaled
    else if significand = 0 then some zero
    else none
  else
    let down := (-power).toNat
    if down ≤ mostTens then some (x.div (tens down))
    else if down ≤ 2 * mostTens then some ((x.div (tens mostTens)).div (tens (down - mostTens)))
    else some zero

end Double

end EventOrder
