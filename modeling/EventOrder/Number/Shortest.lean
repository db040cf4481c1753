import EventOrder.Number.Double

/-!
# Shortest decimals

The decimal with the fewest digits that rounds to a given double, and of those the nearest one.
For each number of digits the two neighbours of the double on that decimal grid are tested
exactly; the first grid with a neighbour inside the double's rounding interval gives the answer.
-/

namespace EventOrder

/-- The number `digits * 10 ^ power`. -/
structure Decimal where
  /-- The significant digits. -/
  digits : Nat
  /-- The power of ten. -/
  power : Int
deriving DecidableEq, Repr, Inhabited

namespace Decimal

/-- Whether the decimal is below, at or above the number `mantissa * 2 ^ exponent`. -/
def compareTo (decimal : Decimal) (mantissa : Nat) (exponent : Int) : Ordering :=
  compare (decimal.digits * 10 ^ decimal.power.toNat * 2 ^ (-exponent).toNat)
    (mantissa * 2 ^ exponent.toNat * 10 ^ (-decimal.power).toNat)

/-- Whether the decimal rounds to the double. The double reaches halfway to its neighbours, the ends
included when its mantissa is even; below a power of two the neighbour is half as far away. -/
def roundsTo (decimal : Decimal) (x : Double) : Bool :=
  let narrow := x.mantissa = 2 ^ 52 && Double.leastExponent < x.exponent
  let low := decimal.compareTo (4 * x.mantissa - if narrow then 1 else 2) (x.exponent - 2)
  let high := decimal.compareTo (4 * x.mantissa + 2) (x.exponent - 2)
  (low = .gt && high = .lt) || (x.mantissa % 2 = 0 && (low = .eq || high = .eq))

/-- The power of ten of the first digit of a positive ratio. -/
def leadingPower (numerator denominator : Nat) : Int :=
  let length (n : Nat) : Nat := (Nat.toDigits 10 n).length
  if denominator ≤ numerator then (length (numerator / denominator) : Int) - 1
  else -(length ((denominator - 1) / numerator) : Int)

/-- The neighbour of the double on a decimal grid that rounds to it; of two the nearer, of two
equally near the even one. -/
def onGrid? (x : Double) (power : Int) : Option Decimal :=
  let (numerator, denominator) := x.toRatio
  let numerator := numerator * 10 ^ (-power).toNat
  let denominator := denominator * 10 ^ power.toNat
  let below : Decimal := ⟨numerator / denominator, power⟩
  let above : Decimal := ⟨numerator / denominator + 1, power⟩
  match below.roundsTo x, above.roundsTo x with
  | true, true => some ⟨Double.nearest numerator denominator, power⟩
  | true, false => some below
  | false, true => some above
  | false, false => none

/-- The shortest decimal of a positive double; seventeen digits always suffice. -/
def shortest (x : Double) : Decimal :=
  let (numerator, denominator) := x.toRatio
  let leading := leadingPower numerator denominator
  ((List.range 17).findSome? fun (more : Nat) => onGrid? x (leading - more)).getD ⟨0, 0⟩

/-- Which decimals are written with their digits in place, by the power of ten of the first digit.
-/
structure Layout where
  /-- The least such power. -/
  leastInPlace : Int
  /-- The greatest such power. -/
  mostInPlace : Int
deriving DecidableEq, Repr, Inhabited

/-- Writes a positive decimal: in place with a point and at least one digit on either side of it,
or else as its digits with a point after the first and a signed power of ten. -/
def Layout.text (layout : Layout) (decimal : Decimal) : String :=
  let written := Nat.toDigits 10 decimal.digits
  let digits := (written.reverse.dropWhile (· == '0')).reverse
  let leading := decimal.power + (written.length : Int) - 1
  let zeros (count : Int) : List Char := List.replicate count.toNat '0'
  if layout.leastInPlace ≤ leading && leading ≤ layout.mostInPlace then
    if leading < 0 then String.ofList (['0', '.'] ++ zeros (-leading - 1) ++ digits)
    else
      let whole := digits.take (leading.toNat + 1)
      let fraction := digits.drop (leading.toNat + 1)
      String.ofList (whole ++ zeros (leading + 1 - whole.length) ++ ['.'] ++
        (if fraction.isEmpty then ['0'] else fraction))
  else
    let fraction := digits.drop 1
    String.ofList (digits.take 1 ++ (if fraction.isEmpty then [] else '.' :: fraction)) ++
      (if leading < 0 then "e-" else "e+") ++ toString leading.natAbs

end Decimal

end EventOrder
