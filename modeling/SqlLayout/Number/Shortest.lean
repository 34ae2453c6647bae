import SqlLayout.Number.Double
import SqlLayout.Number.Integer

/-! # The shortest decimal of a double

A double is written with the fewest digits that no other double is nearest to. Among the decimals
with that many digits the nearest is taken. All comparisons are made in whole numbers.
-/

namespace SqlLayout

/-- A quotient of two whole numbers. -/
structure Ratio where
  num : Nat
  den : Nat

namespace Ratio

/-- The number of digits before the point; for a ratio below one, the number of zeros right after
    the point with a minus sign. The search covers all doubles. -/
def pointPosition (r : Ratio) : Int :=
  if r.den ≤ r.num then ((Nat.toDigits 10 (r.num / r.den)).length : Int)
  else
    match (List.range 400).find? fun (zeros : Nat) => r.den ≤ r.num * Nat.pow 10 (zeros + 1) with
    | some zeros => -(zeros : Int)
    | none => 0

end Ratio

/-- The numbers that are nearer to a double than to its neighbours, around the double itself. -/
structure RoundingRange where
  /-- The double. -/
  value : Nat
  /-- Where the range begins. -/
  low : Nat
  /-- Where the range ends. -/
  high : Nat
  /-- What all three are to be divided by. -/
  den : Nat
  /-- Whether the two ends belong to the range. -/
  closed : Bool

namespace RoundingRange

/-- The range of a double: half way to the neighbour on each side. Below a power of two the
    neighbour is half as far. Ties go to the even mantissa, so its range is closed. -/
def ofDouble (mantissa : Nat) (exponent : Int) : RoundingRange :=
  let below := if mantissa = Double.leastNormal ∧ Double.minExponent < exponent then 1 else 2
  let up := Nat.pow 2 (exponent - 2).toNat
  { value := 4 * mantissa * up
    low := (4 * mantissa - below) * up
    high := (4 * mantissa + 2) * up
    den := Nat.pow 2 (2 - exponent).toNat
    closed := mantissa % 2 == 0 }

/-- The range times a power of ten. -/
def scale (r : RoundingRange) (power : Int) : RoundingRange :=
  let up := Nat.pow 10 power.toNat
  { value := r.value * up
    low := r.low * up
    high := r.high * up
    den := r.den * Nat.pow 10 (-power).toNat
    closed := r.closed }

/-- Whether a whole number lies in the range. -/
def holds (r : RoundingRange) (n : Nat) : Bool :=
  if r.closed then r.low ≤ n * r.den && n * r.den ≤ r.high
  else r.low < n * r.den && n * r.den < r.high

/-- The whole number in the range that is nearest to the double, the even one of two. -/
def nearest? (r : RoundingRange) : Option Nat :=
  let down := r.value / r.den
  let toDown := r.value - down * r.den
  let toUp := (down + 1) * r.den - r.value
  let preferDown := toDown < toUp || (toDown == toUp && down % 2 == 0)
  if r.holds down && (preferDown || !r.holds (down + 1)) then some down
  else if r.holds (down + 1) then some (down + 1)
  else none

end RoundingRange

/-- A decimal `0.digits * 10 ^ point`. -/
structure Decimal where
  /-- The digits as a number. -/
  digits : Nat
  /-- Where the point stands, counted from the first digit. -/
  point : Int

/-- The shortest decimal of a positive double: the first number of digits, from one to seventeen,
    with which a decimal lies in the double's range. -/
def shortestDecimal (mantissa : Nat) (exponent : Int) : Decimal :=
  let range := RoundingRange.ofDouble mantissa exponent
  let point := Ratio.pointPosition ⟨range.value, range.den⟩
  let found := (List.range 17).findSome? fun (k : Nat) =>
    (range.scale ((k : Int) + 1 - point)).nearest?.map fun (n : Nat) =>
      let overflow := (Nat.toDigits 10 n).length - (k + 1)
      (⟨n, point + (overflow : Nat)⟩ : Decimal)
  found.getD ⟨0, 0⟩

/-- The digits of a decimal around its point. -/
def Decimal.positional (digits : Text) (point : Int) : Text :=
  if point ≤ 0 then "0.".toList ++ List.replicate (-point).toNat '0' ++ digits
  else if digits.length ≤ point.toNat then
    digits ++ List.replicate (point.toNat - digits.length) '0' ++ ".0".toList
  else digits.take point.toNat ++ '.' :: digits.drop point.toNat

/-- One digit, the others after a point, and the power of ten with a sign and two digits or
    more. -/
def Decimal.scientific (digits : Text) (point : Int) : Text :=
  let power := point - 1
  let fraction := if digits.length ≤ 1 then [] else '.' :: digits.drop 1
  digits.take 1 ++ fraction ++ 'e' :: (if power < 0 then '-' else '+')
    :: Text.padLeft 2 '0' (Nat.toDigits 10 power.natAbs)

/-- The text of a decimal: positional from one ten thousandth up to sixteen digits before the
    point. -/
def Decimal.write (d : Decimal) : Text :=
  let digits := ((Nat.toDigits 10 d.digits).reverse.dropWhile (· == '0')).reverse
  if -4 < d.point ∧ d.point ≤ 16 then Decimal.positional digits d.point
  else Decimal.scientific digits d.point

def Double.write : Double → Text
  | .nan => "nan".toList
  | .infinity negative => (if negative then "-inf" else "inf").toList
  | .finite negative m q =>
    (if negative then ['-'] else [])
      ++ if m = 0 then "0.0".toList else (shortestDecimal m q).write

end SqlLayout
