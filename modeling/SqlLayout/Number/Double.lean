import SqlLayout.Text.Basic

/-! # Binary floating point numbers

A double is a sign, a whole number of at most 53 bits and a power of two, or an infinity, or no
number. All questions about it are answered in exact arithmetic.
-/

namespace SqlLayout

inductive Double where
  | nan
  | infinity (negative : Bool)
  /-- The number `mantissa * 2 ^ exponent`, with its sign. -/
  | finite (negative : Bool) (mantissa : Nat) (exponent : Int)
  deriving DecidableEq

namespace Double

/-- The least exponent. -/
def minExponent : Int := -1074

/-- The least mantissa of a number that is not subnormal. -/
def leastNormal : Nat := Nat.pow 2 52

/-- The double with a given bit pattern: a sign bit, eleven bits of exponent, 52 of mantissa. -/
def ofBits (bits : UInt64) : Double :=
  let n : Nat := bits.toNat
  let negative := n / Nat.pow 2 63 == 1
  let exponent : Nat := n / Nat.pow 2 52 % Nat.pow 2 11
  let mantissa : Nat := n % Nat.pow 2 52
  if exponent = 2047 then
    if mantissa = 0 then .infinity negative else .nan
  else if exponent = 0 then .finite negative mantissa minExponent
  else .finite negative (leastNormal + mantissa) (minExponent + (exponent : Int) - 1)

/-- Zero of either sign. -/
def isZero : Double → Bool
  | finite _ m _ => m == 0
  | _ => false

/-- The whole part of a number, cut toward zero. -/
def truncated (negative : Bool) (mantissa : Nat) (exponent : Int) : Int :=
  let size : Nat :=
    if 0 ≤ exponent then mantissa * Nat.pow 2 exponent.toNat else mantissa / Nat.pow 2 (-exponent).toNat
  if negative then -(size : Int) else size

end Double

end SqlLayout
