import Pagewright.Number.Binary

/-! # Quotients and remainders of doubles

Division of doubles to the floor: the remainder has the sign of the divisor.  Remainders are
taken on exact values, so they are never rounded before the last step.

Main definitions: `truncatedRemainder` (with the sign of the dividend), `floorDivMod`. -/

namespace Pagewright.Number

/-- A double with the sign of another one. -/
def withSignOf (x sign : Float) : Float := if isNegative x == isNegative sign then x else -x

/-- The remainder of two doubles after truncation of the quotient, for a divisor that is not
zero. -/
def truncatedRemainder (x y : Float) : Float :=
  match decode x, decode y with
  | .finite negative m e, .finite _ m' e' =>
    let (n, d) := dyadic m e
    let (n', d') := dyadic m' e'
    if n' = 0 then 0.0 / 0.0
    else
      let r := ofRatio (n * d' % (n' * d)) (d * d')
      if negative then -r else r
  | .finite .., .infinite _ => x
  | _, _ => 0.0 / 0.0

/-- The floor of the quotient of two doubles, and the remainder, for a divisor that is not
zero. -/
def floorDivMod (x y : Float) : Float × Float :=
  let r := truncatedRemainder x y
  let quotient := (x - r) / y
  let (quotient, r) :=
    if r == 0.0 then (quotient, withSignOf 0.0 y)
    else if (y < 0.0) != (r < 0.0) then (quotient - 1.0, r + y)
    else (quotient, r)
  if quotient == 0.0 then (withSignOf 0.0 (x / y), r)
  else
    let floor := quotient.floor
    (if quotient - floor > 0.5 then floor + 1.0 else floor, r)

end Pagewright.Number
