import Pagewright.Template.Operation

/-! # Tests

A test asks a question of a value.

Main definitions: `testNames`, `askTest`. -/

namespace Pagewright.Template

open Text
open Value (Passed Arity)

/-- The names of the tests. -/
def testNames : List Text :=
  List.map String.toList ["!=", "<", "<=", "==", ">", ">=", "boolean", "callable", "defined",
    "divisibleby", "eq", "equalto", "escaped", "even", "false", "filter", "float", "ge", "greaterthan",
    "gt", "in", "integer", "iterable", "le", "lessthan", "lower", "lt", "mapping", "ne", "none",
    "number", "odd", "sameas", "sequence", "string", "test", "true", "undefined", "upper"]

/-- Whether a value can be called. -/
def isCallable (v : Value) : Run Bool := do
  match ← cell? v with
  | some (_, .definition _) | some (_, .joiner ..) | some (_, .loop _) => return true
  | some _ => return false
  | none => match v with
    | .function _ | .method .. | .type _ | .block .. | .undefined .. => return true
    | _ => return false

/-- Whether a value has a length and items at places or under keys. -/
def isSequence (v : Value) : Run Bool := do
  match ← seen v with
  | .list _ | .tuple _ | .str _ | .markup _ | .dict _ | .range .. | .undefined .. => return true
  | _ => return false

/-- Whether two values are one and the same. -/
def isSame (v w : Value) : Run Bool := do
  match v, w with
  | .cell a, .cell b => return a == b
  | .none, .none => return true
  | .bool a, .bool b => return a == b
  | .int m, .int n => return m == n
  | .str s, .str t => return s == t
  | _, _ => return false

/-- The order of two values, or a refusal of missing names. -/
def order (op : Text) (v w : Value) : Run (Option Ordering) := do
  present v
  present w
  pureRun (Value.compare op (← whole v) (← whole w))

/-- Whether two values are equal. -/
def equal (v w : Value) : Run Bool := do return Value.eqv (← whole v) (← whole w)

/-- Whether a value is in a container. -/
def contains (x v : Value) : Run Bool := do
  match ← drain v with
  | some (items, none) => pureRun (Value.isIn (← whole x) (.list (← items.mapM whole)))
  | some (_, some fault) => throw fault
  | none => match ← whole v with
    | .cell _ => throw (.misuse ("argument of type '" ++ (← kindOf v) ++ "' is not iterable"))
    | w => pureRun (Value.isIn (← whole x) w)

/-- Whether an order is the one that a comparison asks for. -/
def fits (op : Text) (o : Option Ordering) : Bool :=
  match String.ofList op, o with
  | "<", some .lt | "<=", some .lt | "<=", some .eq => true
  | ">", some .gt | ">=", some .gt | ">=", some .eq => true
  | _, _ => false

/-- The answer of a test of one value. -/
def askOne? (filters : List Text) (name : Text) (v : Value) : Option (Run Bool) :=
  let remainder := fun (n : Int) => some do
    let r ← pureRun (Value.modOrFormat (← seen v) (.int 2))
    equal r (.int n)
  match String.ofList name with
  | "defined" => some (return !v.isUndefined)
  | "undefined" => some (return v.isUndefined)
  | "none" => some (return match v with | .none => true | _ => false)
  | "boolean" => some (return match v with | .bool _ => true | _ => false)
  | "true" => some (return match v with | .bool true => true | _ => false)
  | "false" => some (return match v with | .bool false => true | _ => false)
  | "integer" => some (return match v with | .int _ => true | _ => false)
  | "float" => some (return match v with | .float _ => true | _ => false)
  | "number" => some (return match v with
      | .int _ | .float _ | .bool _ => true
      | _ => false)
  | "string" => some (return v.text?.isSome)
  | "mapping" => some do return match ← seen v with
      | .dict _ => true
      | _ => false
  | "sequence" => some (isSequence v)
  | "iterable" => some do
      match ← cell? v with
      | some (_, .iterator ..) => return true
      | _ => return match ← attempt (itemsOf v) with
        | .ok _ => true
        | .error _ => false
  | "callable" => some (isCallable v)
  | "escaped" => some (return match v with | .markup _ | .undefined .. => true | _ => false)
  | "odd" => remainder 1
  | "even" => remainder 0
  | "lower" => some do
      pureRun ((Value.textMethod false (← printed v) "islower" {}).map Value.isTrue)
  | "upper" => some do
      pureRun ((Value.textMethod false (← printed v) "isupper" {}).map Value.isTrue)
  | "filter" => some (return match v.text? with
      | some t => filters.contains t
      | none => false)
  | "test" => some (return match v.text? with
      | some t => testNames.contains t
      | none => false)
  | _ => none

/-- The answer of a test of two values. -/
def askTwo? (name : Text) (v w : Value) : Option (Run Bool) :=
  let ordered := fun (op : Text) => some do return fits op (← order op v w)
  match String.ofList name with
  | "eq" | "==" | "equalto" => some (equal v w)
  | "ne" | "!=" => some do return !(← equal v w)
  | "lt" | "<" | "lessthan" => ordered "<"
  | "le" | "<=" => ordered "<="
  | "gt" | ">" | "greaterthan" => ordered ">"
  | "ge" | ">=" => ordered ">="
  | "in" => some (contains v w)
  | "sameas" => some (isSame v w)
  | "divisibleby" => some do
    let r ← pureRun (Value.modOrFormat (← seen v) (← seen w))
    equal r (.int 0)
  | _ => none

/-- The answer of a test. -/
def askTest (filters : List Text) (name : Text) (v : Value) (p : Passed) : Run Bool := do
  match p.positional, p.named with
  | [], [] => match askOne? filters name v with
    | some run => run
    | none => throw (.misuse (name ++ " expected 2 arguments, got 1"))
  | [w], [] => match askTwo? name v w with
    | some run => run
    | none =>
      throw (.misuse ("test_" ++ name ++ "() takes 1 positional argument but 2 were given"))
  | ps, _ =>
    throw (.misuse ("test_" ++ name ++ "() takes 1 positional argument but " ++
      ofNat (ps.length + 1) ++ " were given"))

end Pagewright.Template
