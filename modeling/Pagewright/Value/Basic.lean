import Pagewright.Number.Shortest

/-! # Values

The values of data files, contexts and expressions.  A mapping keeps its entries in the order in
which they were added.  A missing name is a value too: it prints as nothing and remembers what
was missing.  A loop gives every item a position that knows the positions of the loops around it.

The last constructors stand for things that exist only while a template runs: containers that can
be changed, which live at an address of a store, and things that can be called.

Main definitions: `Value`, `Value.typeName`, `Value.isTrue`, `Value.position?` (a field of a
position). -/

namespace Pagewright

/-- A way to look at the entries of a mapping. -/
inductive EntryView where
  | keys
  | values
  | items
  deriving DecidableEq, Repr

/-- A value. -/
inductive Value where
  | none
  | bool (b : Bool)
  | int (n : Int)
  | float (x : Float)
  | str (t : Text)
  /-- A text that is safe to print as markup. -/
  | markup (t : Text)
  | list (xs : List Value)
  | tuple (xs : List Value)
  | set (xs : List Value)
  | dict (entries : List (Value × Value))
  /-- A name without a value: the name, the shape of the value it was looked up in, and a note
  that takes the place of the usual wording. -/
  | undefined (name : Value) (owner note : Option Text)
  /-- The position at `index` among `count` items, at a nesting depth, below another position. -/
  | position (index count : Int) (depth parent : Value)
  /-- An item with its position. -/
  | row (item position : Value)
  /-- The integers from `start` before `stop` in steps of `step`. -/
  | range (start stop step : Int)
  /-- A container, iterator or other changeable thing of a running template. -/
  | cell (address : Nat)
  /-- A view of the entries of a mapping. -/
  | view (kind : EntryView) (of : Value)
  /-- A function that every template can call. -/
  | function (name : Text)
  /-- An operation of a value, ready to be called. -/
  | method (of : Value) (name : Text)
  /-- The kind of a value, by name. -/
  | type (name : Text)
  /-- The definition of a block of a template at a level of overriding. -/
  | block (name : Text) (level : Nat)
  /-- The running template itself. -/
  | self

namespace Value

instance : Inhabited Value := ⟨.none⟩

/-- A missing name. -/
def missing (name : Text) : Value := .undefined (.str name) Option.none Option.none

/-- Whether a value stands for a missing name. -/
def isUndefined : Value → Bool
  | .undefined .. => true
  | _ => false

/-- The name of the kind of a value. -/
def typeName : Value → Text
  | .none => "NoneType"
  | .bool _ => "bool"
  | .int _ => "int"
  | .float _ => "float"
  | .str _ => "str"
  | .markup _ => "Markup"
  | .list _ => "list"
  | .tuple _ => "tuple"
  | .set _ => "set"
  | .dict _ => "dict"
  | .undefined .. => "ChainableUndefined"
  | .position .. => "LoopMetadata"
  | .row .. => "LoopRow"
  | .range .. => "range"
  | .cell _ => "object"
  | .view .keys _ => "dict_keys"
  | .view .values _ => "dict_values"
  | .view .items _ => "dict_items"
  | .function _ => "function"
  | .method .. => "builtin_function_or_method"
  | .type _ => "type"
  | .block .. => "BlockReference"
  | .self => "TemplateReference"

/-- The number of integers in a range. -/
def rangeLength (start stop step : Int) : Nat :=
  if 0 < step then ((stop - start + step - 1).fdiv step).toNat
  else if step < 0 then ((start - stop - step - 1).fdiv (-step)).toNat
  else 0

/-- The integers of a range. -/
def rangeItems (start stop step : Int) : List Value :=
  (List.range (rangeLength start stop step)).map fun i : Nat => .int (start + step * (i : Int))

/-- Whether a value counts as true: empty containers and texts, zero, nothing and missing names
do not. -/
def isTrue : Value → Bool
  | .none => false
  | .bool b => b
  | .int n => n != 0
  | .float x => x != 0.0
  | .str t => !t.isEmpty
  | .markup t => !t.isEmpty
  | .list xs => !xs.isEmpty
  | .tuple xs => !xs.isEmpty
  | .set xs => !xs.isEmpty
  | .dict es => !es.isEmpty
  | .undefined .. => false
  | .range a b s => rangeLength a b s != 0
  | .view _ (.dict es) => !es.isEmpty
  | _ => true

/-- The characters of a text value. -/
def text? : Value → Option Text
  | .str t => some t
  | .markup t => some t
  | _ => Option.none

/-- The integer that a value is, a truth value counting as zero or one. -/
def int? : Value → Option Int
  | .int n => some n
  | .bool b => some (if b then 1 else 0)
  | _ => Option.none

/-! ### Positions -/

/-- The fields of a position, in order. -/
def positionFields (index count : Int) (depth parent : Value) : List (Text × Value) :=
  let iteration := index + 1
  [("index".toList, .int index), ("iteration".toList, .int iteration), ("count".toList, .int count),
    ("remaining".toList, .int (count - iteration)), ("first".toList, .bool (index == 0)),
    ("last".toList, .bool (iteration == count)), ("even".toList, .bool (iteration.emod 2 == 0)),
    ("odd".toList, .bool (iteration.emod 2 == 1)), ("depth".toList, depth),
    ("parent".toList, parent)]

/-- The items of a collection with their positions at a depth below a parent. -/
def rows (items : List Value) (depth parent : Value) : List Value :=
  items.zipIdx.map fun (item, i) => .row item (.position i items.length depth parent)

end Value

end Pagewright

/-! ## Faults

What goes wrong when an operation is applied to values that do not support it.

Main definitions: `Fault` (the causes), `Fault.message` (their wording). -/

namespace Pagewright

/-- Why an operation on values failed. -/
inductive Fault where
  /-- Division by zero, in the wording of the operation. -/
  | zeroDivision (wording : Text)
  /-- A missing name or a forbidden place was used in an operation. -/
  | missing (wording : Text)
  /-- An operator does not apply to the kinds of its operands. -/
  | unsupported (operator left right : Text)
  /-- Values of two kinds have no order. -/
  | unordered (operator left right : Text)
  | notIterable (kind : Text)
  | notCallable (kind : Text)
  | noLength (kind : Text)
  | unhashable (kind : Text)
  /-- A sequence does not have as many items as there are names. -/
  | tooFewItems (expected got : Nat)
  | tooManyItems (expected : Nat)
  | notUnpackable (kind : Text)
  /-- A key of a mapping that cannot be written. -/
  | unwritableKey (kind : Text)
  | circular
  /-- A mapping used as named arguments holds a key that is not a text. -/
  | namesNotText
  /-- Evaluation is nested too deeply. -/
  | tooDeep
  /-- A text or a list would be larger than any memory. -/
  | beyondMemory
  /-- An integer does not fit into the kind of machine integer that an operation takes. -/
  | unfitting (kind : Text)
  /-- Operands or arguments that an operation does not take, in its own wording. -/
  | misuse (wording : Text)
  deriving DecidableEq, Repr

/-- The wording of a fault. -/
def Fault.message : Fault → Text
  | .zeroDivision wording => wording
  | .missing wording => wording
  | .unsupported op l r =>
    "unsupported operand type(s) for " ++ op ++ ": '" ++ l ++ "' and '" ++ r ++ "'"
  | .unordered op l r =>
    "'" ++ op ++ "' not supported between instances of '" ++ l ++ "' and '" ++ r ++ "'"
  | .notIterable kind => "'" ++ kind ++ "' object is not iterable"
  | .notCallable kind => "'" ++ kind ++ "' object is not callable"
  | .noLength kind => "object of type '" ++ kind ++ "' has no len()"
  | .unhashable kind => "unhashable type: '" ++ kind ++ "'"
  | .tooFewItems expected got =>
    "not enough values to unpack (expected " ++ Text.ofNat expected ++ ", got " ++
      Text.ofNat got ++ ")"
  | .tooManyItems expected =>
    "too many values to unpack (expected " ++ Text.ofNat expected ++ ")"
  | .notUnpackable kind => "cannot unpack non-iterable " ++ kind ++ " object"
  | .unwritableKey kind => "keys must be str, int, float, bool or None, not " ++ kind
  | .circular => "Circular reference detected"
  | .namesNotText => "keywords must be strings"
  | .tooDeep => "maximum recursion depth exceeded"
  | .beyondMemory => []
  | .unfitting kind => "Python int too large to convert to C " ++ kind
  | .misuse wording => wording

end Pagewright
