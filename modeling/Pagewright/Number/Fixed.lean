import Pagewright.Number.Shortest

/-! # Decimal texts with a given precision

A double is rounded on its exact value to a number of places or of digits, a tie going to the
even neighbour.

Main definitions: `fixedOf` (a number of places), `scientificOf` (one digit before the point and
an exponent), `generalOf` (a number of significant digits, the shorter of the two notations),
`roundTo` (the double nearest to the rounded value). -/

namespace Pagewright.Number

/-- The digits of a number, with zeros in front up to a width. -/
def padded (width n : Nat) : Text :=
  let ds := Nat.toDigits 10 n
  List.replicate (width - ds.length) '0' ++ ds

/-- The fraction `num / den` times `10 ^ places`, rounded to the nearest integer. -/
def scaled (num den : Nat) (places : Int) : Nat :=
  if 0 ≤ places then roundDiv (num * Nat.pow 10 places.toNat) den
  else roundDiv num (den * Nat.pow 10 (-places).toNat)

/-- A fraction with a number of decimal places. -/
def fixedOf (num den places : Nat) : Text :=
  let ds := padded (places + 1) (scaled num den places)
  if places = 0 then ds
  else ds.take (ds.length - places) ++ '.' :: ds.drop (ds.length - places)

/-- The first `count` digits of a positive fraction, rounded, and the decimal exponent of the
first one. -/
def significant (num den count : Nat) : Text × Int :=
  let point := magnitude num den
  let q := scaled num den (count - point)
  -- Rounding up can add a digit.
  if Nat.pow 10 count ≤ q then (Nat.toDigits 10 (q / 10), point) else (Nat.toDigits 10 q, point - 1)

/-- Digits with a point after the first one. -/
def pointed (ds : Text) : Text := ds.take 1 ++ (if ds.length ≤ 1 then [] else '.' :: ds.drop 1)

/-- Digits of a fraction without trailing zeros, and without a point that ends them. -/
def trimmed (t : Text) : Text :=
  if t.contains '.' then
    let r := t.reverse.dropWhile (· == '0')
    (if r.head? = some '.' then r.drop 1 else r).reverse
  else t

/-- A fraction with one digit before the point, `places` after it, and an exponent. -/
def scientificOf (num den places : Nat) : Text :=
  let (ds, e) := if num = 0 then (List.replicate (places + 1) '0', 0)
    else significant num den (places + 1)
  pointed ds ++ 'e' :: exponentText 2 e

/-- A fraction with a number of significant digits, positional unless the exponent is below -4 or
not below the precision; trailing zeros are dropped unless `alternate`. -/
def generalOf (alternate : Bool) (num den precision : Nat) : Text :=
  let p := if precision = 0 then 1 else precision
  let (ds, e) := if num = 0 then (List.replicate p '0', 0) else significant num den p
  let trim := fun t : Text => if alternate then t else trimmed t
  if -4 ≤ e ∧ e < (p : Int) then
    let body : Text :=
      if e < 0 then "0." ++ List.replicate (-e - 1).toNat '0' ++ ds
      else
        let n := e.toNat + 1
        if ds.length ≤ n then ds else ds.take n ++ '.' :: ds.drop n
    trim body
  else trim (pointed ds) ++ 'e' :: exponentText 2 e

/-- A double in a notation for non-negative fractions, without its sign. -/
def unsigned (written : Nat → Nat → Text) (x : Float) : Text :=
  match decode x with
  | .notANumber => "nan"
  | .infinite _ => "inf"
  | .finite _ m e =>
    let (n, d) := dyadic m e
    written n d

/-- A double rounded to a number of decimal places, which may be negative. -/
def roundTo (x : Float) (places : Int) : Float :=
  match decode x with
  | .finite negative m e =>
    let (n, d) := dyadic m e
    let q := scaled n d places
    let r :=
      if 0 ≤ places then ofRatio q (Nat.pow 10 places.toNat)
      else ofNat (q * Nat.pow 10 (-places).toNat)
    if negative then -r else r
  | _ => x

/-- An integer rounded to a number of decimal places, which may be negative. -/
def roundIntTo (n : Int) (places : Int) : Int :=
  if 0 ≤ places then n
  else
    let unit := Nat.pow 10 (-places).toNat
    let q : Nat := roundDiv n.natAbs unit * unit
    if n < 0 then -(q : Int) else q

end Pagewright.Number
