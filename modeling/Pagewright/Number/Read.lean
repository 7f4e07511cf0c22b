import Pagewright.Number.Binary

/-! # Reading numbers

Integers and decimals as people write them: white space around, a sign, digits of any script, and
single underscores between digits.

Main definitions: `readInt?` (in a base from 2 to 36), `readFloat?`, `floatOfDecimal` (the double
nearest to a decimal). -/

namespace Pagewright.Number

open Text

/-- The value of a digit or letter as a digit, letters counting from ten. -/
def digitOf? (c : Char) : Option Nat :=
  match digitValue? c with
  | some d => some d
  | none =>
    if 'a' ≤ c ∧ c ≤ 'z' then some (c.toNat - 87)
    else if 'A' ≤ c ∧ c ≤ 'Z' then some (c.toNat - 55)
    else none

/-- The number written by digits of a base with single underscores between them; `fresh` says
that a digit has to follow. -/
def digitsIn? (base : Nat) (acc : Nat) (fresh : Bool) : Text → Option Nat
  | [] => if fresh then none else some acc
  | '_' :: r => if fresh then none else digitsIn? base acc true r
  | c :: r =>
    match digitOf? c with
    | some d => if d < base then digitsIn? base (acc * base + d) false r else none
    | none => none

/-- A text without its sign, and whether the sign is minus. -/
def signed : Text → Bool × Text
  | '-' :: r => (true, r)
  | '+' :: r => (false, r)
  | t => (false, t)

/-- Digits without the mark of a base in front, and whether there was one. -/
def dropBaseMark (lower upper : Char) : Text → Option Text
  | '0' :: c :: r =>
    if c = lower ∨ c = upper then
      match r with
      | '_' :: r' => some r'
      | _ => some r
    else none
  | _ => none

/-- The integer that a text writes in a base; the marks `0b`, `0o` and `0x` may stand in front of
digits of the base that they announce. -/
def readInt? (t : Text) (base : Nat := 10) : Option Int :=
  let (negative, body) := signed (strip t)
  let body :=
    (if base = 2 then dropBaseMark 'b' 'B' body
      else if base = 8 then dropBaseMark 'o' 'O' body
      else if base = 16 then dropBaseMark 'x' 'X' body
      else none).getD body
  (digitsIn? base 0 true body).map fun n => if negative then -(n : Int) else n

/-- The double nearest to `mantissa * 10 ^ exponent`. -/
def floatOfDecimal (mantissa : Nat) (exponent : Int) : Float :=
  if mantissa = 0 then 0.0
  else if 400 < exponent then Float.scaleB 1.0 2000
  else if exponent < -(400 + (Nat.toDigits 10 mantissa).length : Int) then 0.0
  else if 0 ≤ exponent then ofRatio (mantissa * Nat.pow 10 exponent.toNat) 1
  else ofRatio mantissa (Nat.pow 10 (-exponent).toNat)

/-- Decimal digits with single underscores between them at the beginning of a text: their value,
their number, and the rest. -/
def digitRun : Text → Nat × Nat × Text
  | [] => (0, 0, [])
  | t@(c :: _) =>
    let rec go (acc count : Nat) : Text → Nat × Nat × Text
      | [] => (acc, count, [])
      | '_' :: d :: r =>
        match digitValue? d with
        | some n => if count = 0 then (acc, count, '_' :: d :: r) else go (acc * 10 + n) (count + 1) r
        | none => (acc, count, '_' :: d :: r)
      | d :: r =>
        match digitValue? d with
        | some n => go (acc * 10 + n) (count + 1) r
        | none => (acc, count, d :: r)
    if c = '_' then (0, 0, t) else go 0 0 t

/-- The exponent part of a decimal: the letter e, a sign and digits. -/
def exponent? (t : Text) : Option (Int × Text) :=
  match t with
  | c :: r =>
    if c = 'e' ∨ c = 'E' then
      let (negative, r) := signed r
      let (n, count, rest) := digitRun r
      if count = 0 then none else some (if negative then -(n : Int) else n, rest)
    else none
  | [] => none

/-- The double that a text writes: a decimal with optional point and exponent, or the name of a
value that is not finite. -/
def readFloat? (t : Text) : Option Float :=
  let (negative, body) := signed (strip t)
  let sign := fun x : Float => if negative then -x else x
  let name := lower body
  if name = "inf" ∨ name = "infinity" then some (sign (1.0 / 0.0))
  else if name = "nan" then some (sign (0.0 / 0.0))
  else
    let (whole, wholeDigits, r) := digitRun body
    let (fraction, places, r) :=
      match r with
      | '.' :: r' => digitRun r'
      | _ => (0, 0, r)
    if wholeDigits + places = 0 then none
    else
      let mantissa := whole * Nat.pow 10 places + fraction
      match exponent? r with
      | some (e, []) => some (sign (floatOfDecimal mantissa (e - places)))
      | some _ => none
      | none => if r.isEmpty then some (sign (floatOfDecimal mantissa (-(places : Int)))) else none

end Pagewright.Number
