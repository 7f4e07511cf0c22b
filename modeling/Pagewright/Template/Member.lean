import Pagewright.Template.Store
import Pagewright.Value.TextMethod

/-! # Members of values

A part of a value is asked for by a name behind a dot, or by a key in brackets.  Behind a dot the
fields and operations of the value come first and its entries second; in brackets it is the other
way round.  What is not there is a missing name that knows where it was looked for.  Where names
are guarded, those that start with an underscore are out of reach.

Main definitions: `field?` (a field or operation), `memberOf` (behind a dot),
`itemOf` (in brackets), `sliceOf`. -/

namespace Pagewright.Template

open Text

/-! ### Fields and operations -/

/-- The names of the operations of lists. -/
def listMethods : List Text :=
  List.map String.toList ["append", "clear", "copy", "count", "extend", "index", "insert", "pop",
    "remove", "reverse", "sort"]

/-- The names of the operations of mappings. -/
def dictMethods : List Text :=
  List.map String.toList ["clear", "copy", "get", "items", "keys", "pop", "popitem", "setdefault",
    "update", "values"]

/-- The names of the operations of sets. -/
def setMethods : List Text :=
  List.map String.toList ["add", "clear", "copy", "difference", "discard", "intersection",
    "isdisjoint", "issubset", "issuperset", "pop", "remove", "symmetric_difference", "union",
    "update"]

/-- Names that every value has, out of reach where names are guarded. -/
def guardedNames : List Text :=
  List.map String.toList ["__class__", "__delattr__", "__dir__", "__doc__", "__eq__", "__format__",
    "__ge__", "__getattribute__", "__getstate__", "__gt__", "__hash__", "__init__",
    "__init_subclass__", "__le__", "__lt__", "__ne__", "__new__", "__reduce__", "__reduce_ex__",
    "__repr__", "__setattr__", "__sizeof__", "__str__", "__subclasshook__"]

/-- The fields of a loop's state. -/
def loopField? (l : LoopState) (name : Text) : Option Value :=
  let n := l.items.length
  let place := fun (hint : Text) (v : Option Value) =>
    v.getD (.undefined .none none (some hint))
  match String.ofList name with
  | "index" => some (.int (l.index + 1))
  | "index0" => some (.int l.index)
  | "length" => some (.int n)
  | "revindex" => some (.int (n - l.index))
  | "revindex0" => some (.int ((n : Int) - l.index - 1))
  | "first" => some (.bool (l.index == 0))
  | "last" => some (.bool (l.index + 1 == n))
  | "depth" => some (.int (l.depth + 1))
  | "depth0" => some (.int l.depth)
  | "previtem" => some (place "there is no previous item"
      (if l.index = 0 then none else l.items[l.index - 1]?))
  | "nextitem" => some (place "there is no next item" l.items[l.index + 1]?)
  | _ => none

/-- The fields of a definition. -/
def definitionField? (d : Definition) (name : Text) : Option Value :=
  match String.ofList name with
  | "name" => some ((d.name.map Value.str).getD .none)
  | "arguments" => some (.tuple (d.signature.params.map fun (n, _) => .str n))
  | "catch_kwargs" => some (.bool d.takesNamed)
  | "catch_varargs" => some (.bool d.takesRest)
  | "caller" => some (.bool d.takesCaller)
  | _ => none

/-- The fields of a number. -/
def numberField? (v : Value) (name : Text) : Option Value :=
  match v, v.int? with
  | .float x, _ => match String.ofList name with
    | "real" => some (.float x)
    | "imag" => some (.float 0.0)
    | "is_integer" | "as_integer_ratio" | "hex" | "conjugate" => some (.method v name)
    | _ => none
  | v, some n => match String.ofList name with
    | "real" | "numerator" => some (.int n)
    | "imag" => some (.int 0)
    | "denominator" => some (.int 1)
    | "bit_length" | "bit_count" | "conjugate" | "as_integer_ratio" | "to_bytes" =>
      some (.method v name)
    | _ => none
  | _, none => none

/-- The entry of a list of named values. -/
def named? (name : Text) (es : List (Text × Value)) : Option Value :=
  (es.find? fun (n, _) => n == name).map Prod.snd

/-- An operation of a value, if its kind has it. -/
def method? (names : List Text) (v : Value) (name : Text) : Option Value :=
  if names.contains name then some (.method v name) else none

/-- A field or operation that is not guarded. -/
def openField? (blocks : List Text) (v : Value) (name : Text) : Run (Option Value) := do
  match ← cell? v with
  | some (_, .list _) => return method? listMethods v name
  | some (_, .dict _) => return method? dictMethods v name
  | some (_, .set _) => return method? setMethods v name
  | some (_, .fields es) => return Value.lookup? (.str name) es
  | some (_, .cycler items next) =>
    match String.ofList name with
    | "current" => return some (items[next]?.getD .none)
    | "pos" => return some (.int next)
    | "items" => return some (.tuple items)
    | _ => return method? ["next", "reset"] v name
  | some (_, .joiner separator used) =>
    match String.ofList name with
    | "sep" => return some separator
    | "used" => return some (.bool used)
    | _ => return none
  | some (_, .group key items) =>
    return named? name [("grouper", key), ("list", items)] <|>
      method? ["count", "index"] v name
  | some (_, .definition d) => return definitionField? d name
  | some (_, .loop l) =>
    return loopField? l name <|> method? ["cycle", "changed"] v name
  | some (_, .iterator ..) => return none
  | none =>
    match v with
    | .str _ | .markup _ =>
      return method? Value.textMethods v name
    | .list _ => return method? listMethods v name
    | .tuple _ => return method? ["count", "index"] v name
    | .dict _ => return method? dictMethods v name
    | .set _ => return method? setMethods v name
    | .position i c d p =>
      return named? name (Value.positionFields i c d p) <|> method? ["at"] v name
    | .row x p => return named? name [("value", x), ("meta", p)]
    | .range a b s =>
      return named? name [("start", .int a), ("stop", .int b), ("step", .int s)] <|>
        method? ["count", "index"] v name
    | .self => return if blocks.contains name then some (.block name 0) else none
    | v => return numberField? v name

/-- A field or operation that is guarded. -/
def guardedField? (v : Value) (name : Text) : Run (Option Value) := do
  match v with
  | .type kind =>
    if name == "__name__".toList then return some (.str kind)
    else return if guardedNames.contains name then some (.method v name) else none
  | _ =>
    if name == "__class__".toList then return some (.type (← kindOf v))
    else return if guardedNames.contains name then some (.method v name) else none

/-- Whether a name has two underscores at either end. -/
def isReserved (name : Text) : Bool :=
  ("__".toList).isPrefixOf name && ("__".toList).isSuffixOf name

/-- A field or operation of a value. -/
def field? (blocks : List Text) (v : Value) (name : Text) : Run (Option Value) := do
  match v with
  | .undefined .. => if isReserved name then guardedField? v name else return some v
  | _ => match ← openField? blocks v name with
    | some w => return some w
    | none => guardedField? v name

/-! ### Entries -/

/-- The item at a place of a sequence, counted from the end if it is negative. -/
def atPlace? {α : Type} (xs : List α) (n : Int) : Option α :=
  if 0 ≤ n then xs[n.toNat]? else if (xs.length : Int) + n < 0 then none
    else xs[((xs.length : Int) + n).toNat]?

/-- The entry of a value under a key. -/
def entry? (v key : Value) : Run (Option Value) := do
  match v with
  | .undefined .. => return some v
  | _ => match ← seen v with
    | .dict es =>
      let key ← whole key
      return if (Value.unhashable? key).isSome then none else Value.lookup? key es
    | .list xs | .tuple xs => return key.int?.bind (atPlace? xs)
    | .str t => return key.int?.bind fun n => (atPlace? t n).map fun c => .str [c]
    | .markup t => return key.int?.bind fun n => (atPlace? t n).map fun c => .markup [c]
    | .range a b s => return key.int?.bind (atPlace? (Value.rangeItems a b s))
    | _ => return none

/-- The missing name that stands for a guarded one. -/
def outOfReach (v : Value) (name : Text) : Run Value := do
  return .undefined (.str name) none
    (some ("access to attribute " ++ quoted name ++ " of " ++ quoted (← kindOf v) ++
      " object is unsafe."))

/-- A field that was found, unless it is guarded. -/
def reach (guarded : Bool) (v : Value) (name : Text) (found : Value) : Run Value :=
  if guarded && name.head? == some '_' then outOfReach v name else return found

/-- The part of a value behind a dot. -/
def memberOf (guarded : Bool) (blocks : List Text) (v : Value) (name : Text) : Run Value := do
  match ← field? blocks v name with
  | some found => reach guarded v name found
  | none => match v with
    | .self => missingPart v (.str name)
    | _ => match ← entry? v (.str name) with
      | some found => return found
      | none => missingPart v (.str name)

/-- The part of a value in brackets. -/
def itemOf (guarded : Bool) (blocks : List Text) (v key : Value) : Run Value := do
  match ← entry? v key with
  | some found => return found
  | none => match key.text? with
    | some name => match ← field? blocks v name with
      | some found => reach guarded v name found
      | none => missingPart v key
    | none => missingPart v key

/-! ### Slices -/

/-- A bound of a slice. -/
def sliceBound (v : Option Value) : Run (Option Int) := do
  match v with
  | none | some .none => return none
  | some v => match v.int? with
    | some n => return some n
    | none =>
      throw (.misuse "slice indices must be integers or None or have an __index__ method")

/-- The first place of a slice of a sequence of a length, and the place that ends it. -/
def sliceEnds (length : Nat) (start stop : Option Int) (step : Int) : Int × Int :=
  let n : Int := length
  let clamp := fun (low high : Int) (v : Int) =>
    let v := if v < 0 then v + n else v
    if v < low then low else if high < v then high else v
  if 0 < step then ((start.map (clamp 0 n)).getD 0, (stop.map (clamp 0 n)).getD n)
  else ((start.map (clamp (-1) (n - 1))).getD (n - 1), (stop.map (clamp (-1) (n - 1))).getD (-1))

/-- The places of a slice from one place up to another one. -/
def slicePlaces (a b step : Int) : List Nat :=
  (List.range (Value.rangeLength a b step)).map fun i : Nat => (a + step * i).toNat

/-- The items at some places. -/
def pick {α : Type} (xs : List α) (places : List Nat) : List α :=
  let all := xs.toArray
  places.filterMap fun i => all[i]?

/-- A slice of a value. -/
def sliceOf (v : Value) (start stop step : Option Value) : Run Value := do
  let bounds := fun (length : Nat) => do
    let step := (← sliceBound step).getD 1
    if step = 0 then throw (.misuse "slice step cannot be zero")
    let start ← sliceBound start
    let stop ← sliceBound stop
    let (a, b) := sliceEnds length start stop step
    return (a, b, step)
  let part := fun (length : Nat) => do
    let (a, b, step) ← bounds length
    return slicePlaces a b step
  match ← seen v with
  | .list xs => return .list (pick xs (← part xs.length))
  | .tuple xs => return .tuple (pick xs (← part xs.length))
  | .str t => return .str (pick t (← part t.length))
  | .markup t => return .markup (pick t (← part t.length))
  | .range a b s =>
    let (first, last, step) ← bounds (Value.rangeLength a b s)
    return .range (a + s * first) (a + s * last) (s * step)
  | .undefined .. => return v
  | .dict _ => throw (.unhashable "slice")
  | _ => throw (.misuse ("'" ++ (← kindOf v) ++ "' object is not subscriptable"))

end Pagewright.Template
