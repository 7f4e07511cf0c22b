import Pagewright.Html.Escape
import Pagewright.Number.Modulo
import Pagewright.Text.Quoted
import Pagewright.Value.Compare
import Pagewright.Value.Print

/-! # Arithmetic on values

Numbers of all kinds mix; sequences of one kind are joined by a sum and repeated by a product;
sets are subtracted.  A missing name is refused by every operator before anything else is looked
at.

Main definitions: `add`, `sub`, `mul`, `div`, `floorDiv`, `mod` (of numbers), `pow`, `negate`,
`confirm` (a leading plus), `isIn` (membership). -/

namespace Pagewright.Value

open Text

/-! ### Missing names -/

/-- What is said when a missing name is used. -/
def missingWording (name : Value) (owner note : Option Text) : Text :=
  match note, owner, name with
  | some n, _, _ => n
  | _, Option.none, name => shown name ++ " is undefined"
  | _, some o, .str n => quoted o ++ " has no attribute " ++ quoted n
  | _, some o, name => o ++ " has no element " ++ shown name

/-- Refuses a missing name. -/
def present : Value → Except Fault Unit
  | .undefined name owner note => .error (.missing (missingWording name owner note))
  | _ => .ok ()

/-- Refuses two operands of which one is a missing name. -/
def bothPresent (v w : Value) : Except Fault Unit := do
  present v
  present w

/-! ### Numbers -/

/-- Two operands brought to one kind of number. -/
inductive Operands where
  | ints (m n : Int)
  | floats (x y : Float)
  | others

/-- An integer as a double. -/
def floatOfInt (n : Int) : Except Fault Float :=
  match Number.ofInt? n with
  | some x => .ok x
  | Option.none => .error (.misuse "int too large to convert to float")

/-- Two operands brought to one kind of number: doubles if one of them is a double. -/
def operands : Value → Value → Except Fault Operands
  | .float x, .float y => .ok (.floats x y)
  | .float x, w => match w.int? with
    | some n => do return .floats x (← floatOfInt n)
    | Option.none => .ok .others
  | v, .float y => match v.int? with
    | some n => do return .floats (← floatOfInt n) y
    | Option.none => .ok .others
  | v, w => match v.int?, w.int? with
    | some m, some n => .ok (.ints m n)
    | _, _ => .ok .others

/-- The refusal of an operator for two operands. -/
def unsupported {α : Type} (op : Text) (v w : Value) : Except Fault α :=
  .error (.unsupported op v.typeName w.typeName)

/-! ### Sums and differences -/

/-- The refusal to join a value to a sequence of a kind. -/
def unjoinable {α : Type} (kind : Text) (w : Value) : Except Fault α :=
  .error (.misuse ("can only concatenate " ++ kind ++ " (not \"" ++ w.typeName ++ "\") to " ++ kind))

/-- The sum of two values; a text next to markup is escaped. -/
def add (v w : Value) : Except Fault Value := do
  bothPresent v w
  match v, w with
  | .str s, .str t => return .str (s ++ t)
  | .markup s, .str t => return .markup (s ++ Html.escapeNumeric t)
  | .str s, .markup t => return .markup (Html.escapeNumeric s ++ t)
  | .markup s, .markup t => return .markup (s ++ t)
  | .list xs, .list ys => return .list (xs ++ ys)
  | .tuple xs, .tuple ys => return .tuple (xs ++ ys)
  | .str _, w | .markup _, w => unjoinable "str" w
  | .list _, w => unjoinable "list" w
  | .tuple _, w => unjoinable "tuple" w
  | v, w => match ← operands v w with
    | .ints m n => return .int (m + n)
    | .floats x y => return .float (x + y)
    | .others => unsupported "+" v w

/-- The difference of two numbers or sets. -/
def sub (v w : Value) : Except Fault Value := do
  bothPresent v w
  match v, w with
  | .set xs, .set ys => return .set (xs.filter fun x => !ys.any (eqv x))
  | v, w => match ← operands v w with
    | .ints m n => return .int (m - n)
    | .floats x y => return .float (x - y)
    | .others => unsupported "-" v w

/-! ### Products -/

/-- A sequence repeated, if the value is a sequence. -/
def repeated? : Value → Option (Nat × (Nat → Value))
  | .str t => some (t.length, fun n => .str (List.replicate n t).flatten)
  | .markup t => some (t.length, fun n => .markup (List.replicate n t).flatten)
  | .list xs => some (xs.length, fun n => .list (List.replicate n xs).flatten)
  | .tuple xs => some (xs.length, fun n => .tuple (List.replicate n xs).flatten)
  | _ => Option.none

/-- The largest number of repetitions that can be asked for. -/
def mostRepetitions : Int := 0x7fffffffffffffff

/-- The length that no text and no list can reach. -/
def memoryBound : Nat := 0x10000000000

/-- Refuses a length beyond all memory. -/
def inMemory (length : Nat) : Except Fault Unit :=
  if memoryBound ≤ length then .error .beyondMemory else .ok ()

/-- A sequence repeated by a number; less than none is none. -/
def repeatBy (length : Nat) (make : Nat → Value) (w : Value) : Except Fault Value :=
  match w.int? with
  | some n =>
    if mostRepetitions < n ∨ n < -mostRepetitions - 1 then
      .error (.misuse "cannot fit 'int' into an index-sized integer")
    else do
      inMemory (length * n.toNat)
      return make (if length = 0 then 0 else n.toNat)
  | Option.none =>
    .error (.misuse ("can't multiply sequence by non-int of type '" ++ w.typeName ++ "'"))

/-- The product of two values. -/
def mul (v w : Value) : Except Fault Value := do
  bothPresent v w
  match repeated? v, repeated? w with
  | some (length, make), _ => repeatBy length make w
  | Option.none, some (length, make) => repeatBy length make v
  | Option.none, Option.none => match ← operands v w with
    | .ints m n => return .int (m * n)
    | .floats x y => return .float (x * y)
    | .others => unsupported "*" v w

/-! ### Quotients -/

/-- The double nearest to the quotient of two integers. -/
def quotient (m n : Int) : Except Fault Value :=
  if n = 0 then .error (.zeroDivision "division by zero")
  else
    let x := Number.ofRatio m.natAbs n.natAbs
    if x.isInf then .error (.misuse "integer division result too large for a float")
    else .ok (.float (if (m < 0) != (n < 0) then -x else x))

/-- The quotient of two numbers. -/
def div (v w : Value) : Except Fault Value := do
  bothPresent v w
  match ← operands v w with
  | .ints m n => quotient m n
  | .floats x y =>
    if y == 0.0 then throw (.zeroDivision "float division by zero") else return .float (x / y)
  | .others => unsupported "/" v w

/-- The floor of the quotient of two numbers. -/
def floorDiv (v w : Value) : Except Fault Value := do
  bothPresent v w
  match ← operands v w with
  | .ints m n =>
    if n = 0 then throw (.zeroDivision "integer division or modulo by zero")
    else return .int (m.fdiv n)
  | .floats x y =>
    if y == 0.0 then throw (.zeroDivision "float floor division by zero")
    else return .float (Number.floorDivMod x y).1
  | .others => unsupported "//" v w

/-- The remainder of two numbers, with the sign of the divisor. -/
def mod (v w : Value) : Except Fault Value := do
  bothPresent v w
  match ← operands v w with
  | .ints m n =>
    if n = 0 then throw (.zeroDivision "integer modulo by zero") else return .int (m.fmod n)
  | .floats x y =>
    if y == 0.0 then throw (.zeroDivision "float modulo")
    else return .float (Number.floorDivMod x y).2
  | .others => unsupported "%" v w

/-! ### Powers -/

/-- A power of doubles. -/
def powFloat (x y : Float) : Except Fault Value :=
  if x == 0.0 ∧ y < 0.0 then
    .error (.zeroDivision "0.0 cannot be raised to a negative power")
  else
    let p := Float.pow x y
    if p.isInf ∧ !x.isInf ∧ !y.isInf then
      .error (.misuse "(34, 'Numerical result out of range')")
    else .ok (.float p)

/-- A power of two numbers: an integer for integers with an exponent that is not negative. -/
def pow (v w : Value) : Except Fault Value := do
  bothPresent v w
  match ← operands v w with
  | .ints m n =>
    if 0 ≤ n then return .int (Int.pow m n.toNat)
    else powFloat (← floatOfInt m) (← floatOfInt n)
  | .floats x y => powFloat x y
  | .others => unsupported "** or pow()" v w

/-! ### Signs -/

/-- The refusal of a sign in front of a value. -/
def unsignable {α : Type} (sign : Text) (v : Value) : Except Fault α :=
  .error (.misuse ("bad operand type for unary " ++ sign ++ ": '" ++ v.typeName ++ "'"))

/-- A number with its sign changed. -/
def negate (v : Value) : Except Fault Value := do
  present v
  match v, v.int? with
  | .float x, _ => return .float (-x)
  | _, some n => return .int (-n)
  | v, Option.none => unsignable "-" v

/-- A number under a plus sign. -/
def confirm (v : Value) : Except Fault Value := do
  present v
  match v, v.int? with
  | .float x, _ => return .float x
  | _, some n => return .int n
  | v, Option.none => unsignable "+" v

/-! ### Membership -/

/-- Whether a value is in a container: an item of a sequence, a key of a mapping, a part of a
text; nothing is in a missing name. -/
def isIn (x : Value) : Value → Except Fault Bool
  | .str t | .markup t => match x.text? with
    | some s => .ok (occursIn s t)
    | Option.none =>
      .error (.misuse ("'in <string>' requires string as left operand, not " ++ x.typeName))
  | .list xs | .tuple xs => .ok (xs.any (eqv x))
  | .set xs => match unhashable? x with
    | some kind => .error (.unhashable kind)
    | Option.none => .ok (xs.any (eqv x))
  | .dict es | .view .keys (.dict es) => match unhashable? x with
    | some kind => .error (.unhashable kind)
    | Option.none => .ok (es.any fun (k, _) => eqv x k)
  | .view .values (.dict es) => .ok (es.any fun (_, v) => eqv x v)
  | .view .items (.dict es) => match x with
    | .tuple [k, v] => .ok (es.any fun (k', v') => eqv k k' && eqv v v')
    | _ => .ok false
  | .range a b s => .ok ((rangeItems a b s).any (eqv x))
  | .undefined .. => .ok false
  | v => .error (.misuse ("argument of type '" ++ v.typeName ++ "' is not iterable"))

end Pagewright.Value
