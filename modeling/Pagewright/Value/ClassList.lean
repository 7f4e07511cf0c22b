import Pagewright.Value.Compare
import Pagewright.Value.Print

/-! # Collections and class lists

What a loop runs through, and the class attribute that is put together from names and
conditions.

Main definitions: `Value.items?` (what a value consists of when it is iterated), `Value.loopItems`
(what a loop directive runs through), `Value.classList`. -/

namespace Pagewright.Value

open Text

/-- The items of a value that can be iterated: a mapping gives its keys, a text its
characters, and a missing name nothing. -/
def items? : Value → Except Fault (List Value)
  | .list xs => .ok xs
  | .tuple xs => .ok xs
  | .set xs => .ok xs
  | .dict es => .ok (es.map Prod.fst)
  | .str t => .ok (t.map fun c => .str [c])
  | .markup t => .ok (t.map fun c => .str [c])
  | .undefined .. => .ok []
  | .range a b s => .ok (rangeItems a b s)
  | .view .keys (.dict es) => .ok (es.map Prod.fst)
  | .view .values (.dict es) => .ok (es.map Prod.snd)
  | .view .items (.dict es) => .ok (es.map fun (k, v) => .tuple [k, v])
  | v => .error (.notIterable v.typeName)

/-- What a loop runs through: nothing for nothing, the values of a mapping, the items of other
collections.  With `pairs` every item comes with its key or number. -/
def loopItems (pairs : Bool) : Value → Except Fault (List Value)
  | .none => .ok []
  | .undefined .. => .ok []
  | .dict es => .ok (if pairs then es.map fun (k, v) => .tuple [k, v] else es.map Prod.snd)
  | v => do
    let xs ← v.items?
    return if pairs then xs.zipIdx.map fun (x, i) => .tuple [.int i, x] else xs

/-- The rows of a loop over a collection at a depth below a parent. -/
def iterate (collection parent depth : Value) (pairs : Bool) : Except Fault (List Value) := do
  let parent := if parent.isUndefined then .none else parent
  return rows (← loopItems pairs collection) depth parent

/-- The names whose conditions hold in a mapping. -/
def enabledNames (es : List (Value × Value)) : List Text :=
  es.filterMap fun (name, enabled) => if enabled.isTrue then some name.text else Option.none

/-- The names that one item of a class list contributes: a pair gives its name when its condition
holds, a mapping all names whose condition holds, and any other item itself unless it counts as
false. -/
def classNames : Value → List Text
  | .tuple [name, enabled] => if enabled.isTrue then [name.text] else []
  | .list [name, enabled] => if enabled.isTrue then [name.text] else []
  | .dict es => enabledNames es
  | v => if v.isTrue then [v.text] else []

/-- A class list: a text as it is, the enabled names of a mapping, or what the items of a
collection contribute. -/
def classList : Value → Except Fault Text
  | .none => .ok []
  | .undefined .. => .ok []
  | .str t => .ok (strip t)
  | .markup t => .ok (strip t)
  | .dict es => .ok (join " " (enabledNames es))
  | v => do return join " " ((← v.items?).flatMap classNames)

end Pagewright.Value
