import Pagewright.Template.Operation

/-! # What filters are made of

A filter is a function of a value and further arguments.  Some filters apply other filters or
tests, by name, to the items of a sequence; some give their results one by one, so that what goes
wrong with an item shows only when the item is taken.

Main definitions: `Services` (what a filter can use), `bind` (its arguments), `soft` (a value as a
text that stays markup), `lazily`, `partOf` (a part of an item along a path). -/

namespace Pagewright.Template

open Text
open Value (Passed Parameters)

/-- What a filter can use. -/
structure Services where
  /-- Whether names that start with an underscore are out of reach. -/
  guarded : Bool
  /-- The names of the template's blocks. -/
  blocks : List Text
  autoescape : Bool
  /-- Applies another filter. -/
  filter : Text → Value → Passed → Run Value
  /-- Asks a test. -/
  test : Text → Value → Passed → Run Bool

/-- The arguments of a filter: the value first, then its parameters.  `implicit` counts what the
system passes in front. -/
def bind (function : Text) (implicit : Nat) (params : List (Text × Option Value)) (v : Value)
    (p : Passed) (first : Text := "value") : Run (List Value) := do
  let filled ← pureRun (Parameters.fill { function, implicit, params := (first, none) :: params }
    { p with positional := v :: p.positional })
  return filled.values

/-- A parameter that must be given. -/
def needed (n : Text) : Text × Option Value := (n, none)

/-- A parameter with a value for when it is not given. -/
def optional (n : Text) (v : Value) : Text × Option Value := (n, some v)

/-- The argument at a place. -/
def nthOf (args : List Value) (i : Nat) : Value := args[i]?.getD .none

/-- A value as a text, and whether it is markup. -/
def soft (v : Value) : Run (Bool × Text) := do
  match v with
  | .markup t => return (true, t)
  | v => return (false, ← printed v)

/-- A text that is markup or not. -/
def textValue (markup : Bool) (t : Text) : Value := if markup then .markup t else .str t

/-- A value as a text, changed by an operation of texts. -/
def viaMethod (v : Value) (name : Text) (args : List Value) : Run Value := do
  let (markup, t) ← soft v
  pureRun (Value.textMethod markup t name { positional := args })

/-- The results of a function on some items up to the first that fails, and the failure. -/
def resultsOf (f : Value → Run (Option Value)) :
    List Value → Run (List Value × Option Fault)
  | [] => return ([], none)
  | x :: xs => do
    match ← attempt (f x) with
    | .error e => return ([], some e)
    | .ok y =>
      let (ys, fault) ← resultsOf f xs
      return (match y with
        | some y => y :: ys
        | none => ys, fault)

/-- An iterator over the results of a function on the items of a value. -/
def lazily (v : Value) (f : Value → Run (Option Value)) : Run Value := do
  let (items, behind) ← match ← drain v with
    | some (items, fault) => pure (items, fault)
    | none => do
      match ← attempt (itemsOf v) with
      | .ok items => pure (items, none)
      | .error e => pure ([], some e)
  let (ys, fault) ← resultsOf f items
  iterator ys (fault <|> behind)

/-! ### Parts of items -/

/-- One step of a path: a name, or a place. -/
def pathStep (t : Text) : Value :=
  if !t.isEmpty && t.all Text.isDigit then .int ((natOfDigits? t).getD 0) else .str t

/-- The steps of a path to a part of an item. -/
def pathSteps : Value → List Value
  | .none => []
  | .str t | .markup t => (splitOn "." t).map pathStep
  | v => [v]

/-- The part of a value along a path; a missing part is replaced by a default. -/
def partOf (s : Services) (default : Option Value) (path : List Value) (v : Value) : Run Value :=
  path.foldlM (fun v step => do
    let part ← itemOf s.guarded s.blocks v step
    return match default with
      | some d => if part.isUndefined then d else part
      | none => part) v

/-- A key for comparison: texts in lower case unless case matters. -/
def caseKey (caseMatters : Bool) (v : Value) : Value :=
  if caseMatters then v
  else match v with
    | .str t => .str (lower t)
    | .markup t => .markup (lower t)
    | v => v

/-- The key of an item: a part of it, all the way, texts in lower case unless case matters. -/
def keyAlong (s : Services) (caseMatters : Bool) (path : List Value) (v : Value) : Run Value := do
  return caseKey caseMatters (← whole (← partOf s none path v))

end Pagewright.Template
