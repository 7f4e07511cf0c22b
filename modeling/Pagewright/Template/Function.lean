import Pagewright.Json.Write
import Pagewright.Template.Operation

/-! # Functions of every template

Main definitions: `functionNames`, `callFunction`. -/

namespace Pagewright.Template

open Text
open Value (Passed Arity Parameters)

/-- The names of the functions that every template can call. -/
def functionNames : List Text :=
  List.map String.toList ["range", "dict", "lipsum", "cycler", "joiner", "namespace", "_hk_iterate",
    "_hk_json", "_hk_class"]

/-- The most integers that a range may hold where names are guarded. -/
def mostInRange : Nat := 100000

/-- A range of integers. -/
def rangeFunction (guarded : Bool) (p : Passed) : Run Value := do
  if !p.named.isEmpty then throw (.misuse "range() takes no keyword arguments")
  let n := p.positional.length
  if n = 0 then throw (.misuse "range expected at least 1 argument, got 0")
  if 3 < n then throw (.misuse ("range expected at most 3 arguments, got " ++ ofNat n))
  let bounds ← p.positional.mapM fun v => pureRun (Value.intArgument v)
  let (start, stop, step) := match bounds with
    | [b] => (0, b, 1)
    | [a, b] => (a, b, 1)
    | a :: b :: c :: _ => (a, b, c)
    | [] => (0, 0, 1)
  if step = 0 then throw (.misuse "range() arg 3 must not be zero")
  if guarded && mostInRange < Value.rangeLength start stop step then
    throw (.misuse ("Range too big. The sandbox blocks ranges larger than MAX_RANGE (" ++
      ofNat mostInRange ++ ")."))
  return .range start stop step

/-- The entries of a mapping made from another one, from pairs, and from named values. -/
def entriesFrom (p : Passed) : Run (List (Value × Value)) := do addEntries [] (← updates p)

/-- Calls a function by name. -/
def callFunction (guarded : Bool) (name : Text) (p : Passed) : Run Value := do
  match String.ofList name with
  | "range" => rangeFunction guarded p
  | "dict" => return .dict (← entriesFrom p)
  | "namespace" => allocate (.fields (← entriesFrom p))
  | "cycler" =>
    if p.positional.isEmpty then throw (.misuse "at least one item has to be provided")
    allocate (.cycler (← p.positional.mapM keep) 0)
  | "joiner" =>
    let filled ← pureRun (Parameters.fill
      { function := "Joiner.__init__", implicit := 1, params := [("sep", some (.str ", "))] } p)
    allocate (.joiner (firstOf filled.values) false)
  | "lipsum" => return .str []
  | "_hk_iterate" =>
    let filled ← pureRun (Parameters.fill
      { function := "iterate"
        params := [("collection", none), ("parent", some .none), ("depth", some (.int 1)),
          ("pairs", some (.bool false))] } p)
    match filled.values with
    | [collection, parent, depth, pairs] =>
      let settled ← match ← drain collection with
        | some (items, none) => pure (.list items)
        | some (_, some fault) => throw fault
        | none => seen collection
      match settled.iterate parent depth (← truthOf pairs) with
      | .ok rows => iterator rows
      | .error e => iterator [] (some e)
    | _ => return .none
  | "_hk_json" =>
    let filled ← pureRun (Parameters.fill
      { function := "to_json", params := [("value", none), ("pretty", some (.bool false))] } p)
    match filled.values with
    | [v, pretty] => return .str (← pureRun (Json.write (← truthOf pretty) (← whole v)))
    | _ => return .none
  | "_hk_class" =>
    let filled ← pureRun (Parameters.fill { function := "class_list", params := [("spec", none)] } p)
    let v := firstOf filled.values
    let settled ← match ← drain v with
      | some (items, none) => pure (Value.list (← items.mapM whole))
      | some (_, some fault) => throw fault
      | none => whole v
    return .str (← pureRun settled.classList)
  | _ => throw (.notCallable name)

end Pagewright.Template
