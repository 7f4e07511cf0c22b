import Pagewright.Text.Basic

/-! # Exact values of floating-point numbers

A finite double is a sign and a dyadic fraction `mantissa * 2 ^ exponent`.  Texts of numbers,
comparisons with integers and rounding to given places all go through this exact value.

Main definitions: `Binary` and `decode`, `roundDiv` (a quotient rounded to the nearest integer,
ties to even), `ofRatio` (the double nearest to a fraction), `compareInt`. -/

namespace Pagewright.Number

/-- What a double stands for. -/
inductive Binary where
  /-- `mantissa * 2 ^ exponent`, with the sign kept for zero too. -/
  | finite (negative : Bool) (mantissa : Nat) (exponent : Int)
  | infinite (negative : Bool)
  | notANumber
  deriving DecidableEq, Repr

/-- The exact value of a double, read off its bits. -/
def decode (x : Float) : Binary :=
  let bits := x.toBits.toNat
  let negative := decide (0x8000000000000000 ≤ bits)
  let biased : Nat := bits / 0x10000000000000 % 2048
  let fraction : Nat := bits % 0x10000000000000
  if biased = 2047 then if fraction = 0 then .infinite negative else .notANumber
  else if biased = 0 then .finite negative fraction (-1074)
  else .finite negative (fraction + 0x10000000000000) ((biased : Int) - 1075)

/-- Whether the sign of a double is minus. -/
def isNegative (x : Float) : Bool := decide (0x8000000000000000 ≤ x.toBits.toNat)

/-- A dyadic fraction as a numerator and a denominator. -/
def dyadic (mantissa : Nat) (exponent : Int) : Nat × Nat :=
  if 0 ≤ exponent then (mantissa * Nat.pow 2 exponent.toNat, 1)
  else (mantissa, Nat.pow 2 (-exponent).toNat)

/-- The quotient of two natural numbers rounded to the nearest one, a tie to the even one. -/
def roundDiv (num den : Nat) : Nat :=
  let q := num / den
  let r := num % den
  if 2 * r < den then q else if den < 2 * r then q + 1 else if q % 2 = 0 then q else q + 1

/-- The double nearest to a natural number. -/
def ofNat (n : Nat) : Float := Float.ofScientific n false 0

/-- The double nearest to the quotient of two natural numbers, the divisor not zero.  The quotient
is taken with at least 65 binary digits and a last digit that records whether anything was cut
off, so that rounding it once more gives the nearest double. -/
def ofRatio (num den : Nat) : Float :=
  if num = 0 then 0.0
  else
    let shift : Int := 66 - ((num.log2 : Int) - (den.log2 : Int))
    let (n, d) :=
      if 0 ≤ shift then (num * Nat.pow 2 shift.toNat, den)
      else (num, den * Nat.pow 2 (-shift).toNat)
    let q := n / d * 2 + (if n % d = 0 then 0 else 1)
    -- Below the normal range the digits to be kept are cut before rounding.
    let low : Int := -1074 - (-(shift + 1))
    if (q.log2 : Int) - (shift + 1) < -1022 ∧ 0 < low then
      Float.scaleB (ofNat (roundDiv q (Nat.pow 2 low.toNat))) (-1074)
    else Float.scaleB (ofNat q) (-(shift + 1))

/-- Whether a double is an integer. -/
def isIntegral (x : Float) : Bool :=
  match decode x with
  | .finite _ m e => let (n, d) := dyadic m e; n % d = 0
  | _ => false

/-- The integer part of a finite double, toward zero. -/
def truncate? (x : Float) : Option Int :=
  match decode x with
  | .finite negative m e =>
    let (n, d) := dyadic m e
    let q : Int := ((n / d : Nat) : Int)
    some (if negative then -q else q)
  | _ => none

/-- The greatest integer that is at most a finite double. -/
def floor? (x : Float) : Option Int :=
  match decode x with
  | .finite negative m e =>
    let (n, d) := dyadic m e
    some ((if negative then -(n : Int) else (n : Int)).fdiv (d : Int))
  | _ => none

/-- The order of a double and an integer; none if the double is not a number. -/
def compareInt (x : Float) (n : Int) : Option Ordering :=
  match decode x with
  | .notANumber => none
  | .infinite negative => some (if negative then .lt else .gt)
  | .finite negative m e =>
    let (num, den) := dyadic m e
    let signed : Int := if negative then -(num : Int) else (num : Int)
    some (compare signed (n * (den : Int)))

/-- The double nearest to an integer; none if the integer is beyond the largest double. -/
def ofInt? (n : Int) : Option Float :=
  let x := ofNat n.natAbs
  if x.isInf then none else some (if n < 0 then -x else x)

end Pagewright.Number
