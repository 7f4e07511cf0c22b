import Pagewright.Number.Binary

/-! # Shortest decimal text of a double

A double is shown by the fewest decimal digits that read back as the same double; of several such
digit strings, by the one nearest to its exact value.  A decimal reads back when it lies between
the midpoints to the neighbouring doubles, the midpoints themselves included when the mantissa is
even.

For every number of digits the two neighbours of the value on that decimal grid are tried, so the
first grid with a hit gives the fewest digits.

Main definitions: `digits` (digits and exponent of the shortest decimal), `FloatFormat` (the
conventions of a notation), `text` (a double in a notation), `shown` (in the notation of this
library). -/

namespace Pagewright.Number

/-- The midpoints between a positive double and its neighbours, and its own value, over a common
denominator: lower midpoint, value, upper midpoint, denominator. -/
def midpoints (mantissa : Nat) (exponent : Int) : Nat × Nat × Nat × Nat :=
  -- Below a power of two the lower neighbour is half as far away.
  let below := if mantissa = 0x10000000000000 ∧ -1074 < exponent then 1 else 2
  let (low, den) := dyadic (4 * mantissa - below) (exponent - 2)
  let (value, _) := dyadic (4 * mantissa) (exponent - 2)
  let (high, _) := dyadic (4 * mantissa + 2) (exponent - 2)
  (low, value, high, den)

/-- The number of decimal digits in front of the point of `num / den`, negative if zeros follow
the point first: the least `p` with `num / den < 10 ^ p`. -/
def magnitude (num den : Nat) : Int :=
  if den ≤ num then ((Nat.toDigits 10 (num / den)).length : Int)
  else
    -- `num / den < 1`: count the zeros behind the point.
    let zeros := (Nat.toDigits 10 (den / num)).length
    if num * Nat.pow 10 zeros < den then -(zeros : Int)
    else if num * Nat.pow 10 (zeros - 1) < den then 1 - (zeros : Int)
    else 2 - (zeros : Int)

/-- The neighbour of `num / den` on the grid of multiples of `10 ^ k` that lies in the interval,
the nearer one if both do. -/
def gridHit? (even : Bool) (low num high den : Nat) (k : Int) : Option Nat :=
  let (up, down) := if 0 ≤ k then (1, Nat.pow 10 k.toNat) else (Nat.pow 10 (-k).toNat, 1)
  let unit := den * down
  let inside := fun q : Nat =>
    let x := q * unit
    let l := low * up
    let h := high * up
    if even then decide (l ≤ x ∧ x ≤ h) else decide (l < x ∧ x < h)
  let q := num * up / unit
  let r := num * up % unit
  match inside q, inside (q + 1) with
  | true, true =>
    some (if 2 * r < unit then q else if unit < 2 * r then q + 1 else if q % 2 = 0 then q else q + 1)
  | true, false => some q
  | false, true => some (q + 1)
  | false, false => none

/-- The first hit on the grids for `n`, `n + 1`, … digits, with the exponent of its grid. -/
def firstGridHit (even : Bool) (low num high den : Nat) (p : Int) : Nat → Nat → Nat × Int
  | 0, n => (num * Nat.pow 10 17 / den, p - n)
  | fuel + 1, n =>
    match gridHit? even low num high den (p - n) with
    | some q => (q, p - n)
    | none => firstGridHit even low num high den p fuel (n + 1)

/-- The digits of the shortest decimal for a positive double, and the exponent of their first
digit's place plus one: `0.d₁d₂… * 10 ^ point`. -/
def digits (mantissa : Nat) (exponent : Int) : Text × Int :=
  let (low, value, high, den) := midpoints mantissa exponent
  let p := magnitude value den
  let (q, k) := firstGridHit (mantissa % 2 = 0) low value high den p 17 1
  let ds := Nat.toDigits 10 q
  let point := (ds.length : Int) + k
  ((ds.reverse.dropWhile (· == '0')).reverse, point)

/-- The conventions of a notation for doubles. -/
structure FloatFormat where
  /-- The smallest and the largest place of the point that are written without exponent. -/
  least : Int
  most : Int
  /-- The least number of digits of an exponent. -/
  exponentDigits : Nat
  /-- The texts for values that are not finite. -/
  infinity : Text
  notANumber : Text

/-- Digits with a decimal point after the first `point` of them, in positional notation. -/
def positional (ds : Text) (point : Int) : Text :=
  if point ≤ 0 then "0." ++ List.replicate (-point).toNat '0' ++ ds
  else
    let n := point.toNat
    if ds.length ≤ n then ds ++ List.replicate (n - ds.length) '0' ++ ".0"
    else ds.take n ++ "." ++ ds.drop n

/-- An exponent with its sign and at least `width` digits. -/
def exponentText (width : Nat) (e : Int) : Text :=
  let ds := Nat.toDigits 10 e.natAbs
  (if e < 0 then '-' else '+') :: (List.replicate (width - ds.length) '0' ++ ds)

/-- A double in a notation. -/
def text (f : FloatFormat) (x : Float) : Text :=
  match decode x with
  | .notANumber => f.notANumber
  | .infinite negative => (if negative then ['-'] else []) ++ f.infinity
  | .finite negative m e =>
    let body : Text :=
      if m = 0 then "0.0"
      else
        let (ds, point) := digits m e
        if f.least ≤ point ∧ point ≤ f.most then positional ds point
        else
          ds.take 1 ++ (if ds.length ≤ 1 then [] else '.' :: ds.drop 1) ++ "e" ++
            exponentText f.exponentDigits (point - 1)
    if negative then '-' :: body else body

/-- Doubles are written positionally from a ten-thousandth up to below ten to the sixteenth. -/
def standard : FloatFormat := ⟨-3, 16, 2, "inf", "nan"⟩

/-- JSON writes doubles the same way, with long names for values that are not finite. -/
def jsonFormat : FloatFormat := { standard with infinity := "Infinity", notANumber := "NaN" }

/-- A double as it is shown. -/
def shown (x : Float) : Text := text standard x

end Pagewright.Number
