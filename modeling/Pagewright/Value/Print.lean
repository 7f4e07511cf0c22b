import Pagewright.Text.Quoted
import Pagewright.Value.Basic

/-! # How values are shown

Inside a container a text is shown between quotes; on its own it is printed as it is, and a
missing name as nothing.

Main definitions: `Value.shown` (a value inside a container), `Value.text` (a value on its
own). -/

namespace Pagewright.Value

open Text

/-- A truth value as it is shown. -/
def shownBool (b : Bool) : Text := if b then "True" else "False"

mutual

/-- A value as it is shown inside a container. -/
def shown : Value → Text
  | .none => "None"
  | .bool b => shownBool b
  | .int n => ofInt n
  | .float x => Number.shown x
  | .str t => quoted t
  | .markup t => "Markup(" ++ quoted t ++ ")"
  | .list xs => "[" ++ join ", " (shownAll xs) ++ "]"
  | .tuple [x] => "(" ++ shown x ++ ",)"
  | .tuple xs => "(" ++ join ", " (shownAll xs) ++ ")"
  | .set [] => "set()"
  | .set xs => "\x7b" ++ join ", " (shownAll xs) ++ "\x7d"
  | .dict es => "\x7b" ++ join ", " (shownEntries es) ++ "\x7d"
  | .undefined .. => "Undefined"
  | .position index count depth parent =>
    let iteration := index + 1
    "LoopMetadata(index=" ++ ofInt index ++ ", iteration=" ++ ofInt iteration ++
      ", count=" ++ ofInt count ++ ", remaining=" ++ ofInt (count - iteration) ++
      ", first=" ++ shownBool (index == 0) ++ ", last=" ++ shownBool (iteration == count) ++
      ", even=" ++ shownBool (iteration.emod 2 == 0) ++
      ", odd=" ++ shownBool (iteration.emod 2 == 1) ++ ", depth=" ++ shown depth ++
      ", parent=" ++ shown parent ++ ")"
  | .row item place => "LoopRow(value=" ++ shown item ++ ", meta=" ++ shown place ++ ")"
  | .range start stop step =>
    "range(" ++ ofInt start ++ ", " ++ ofInt stop ++
      (if step = 1 then ([] : Text) else ", " ++ ofInt step) ++ ")"
  | .cell _ => "<object>"
  | .view .keys (.dict es) => "dict_keys([" ++ join ", " (shownKeys es) ++ "])"
  | .view .values (.dict es) => "dict_values([" ++ join ", " (shownValues es) ++ "])"
  | .view .items (.dict es) => "dict_items([" ++ join ", " (shownPairs es) ++ "])"
  | .view _ _ => "<view>"
  | .function name => "<function " ++ name ++ ">"
  | .method _ name => "<built-in method " ++ name ++ ">"
  | .type name => "<class '" ++ name ++ "'>"
  | .block name _ => "<BlockReference " ++ quoted name ++ ">"
  | .self => "<TemplateReference None>"

/-- Values as they are shown inside a container. -/
def shownAll : List Value → List Text
  | [] => []
  | x :: xs => shown x :: shownAll xs

/-- The entries of a mapping as they are shown. -/
def shownEntries : List (Value × Value) → List Text
  | [] => []
  | (k, v) :: es => (shown k ++ ": " ++ shown v) :: shownEntries es

/-- The keys of a mapping as they are shown. -/
def shownKeys : List (Value × Value) → List Text
  | [] => []
  | (k, _) :: es => shown k :: shownKeys es

/-- The values of a mapping as they are shown. -/
def shownValues : List (Value × Value) → List Text
  | [] => []
  | (_, v) :: es => shown v :: shownValues es

/-- The entries of a mapping as they are shown in a list of pairs. -/
def shownPairs : List (Value × Value) → List Text
  | [] => []
  | (k, v) :: es => ("(" ++ shown k ++ ", " ++ shown v ++ ")") :: shownPairs es

end

/-- A value on its own. -/
def text : Value → Text
  | .str t => t
  | .markup t => t
  | .undefined .. => []
  | v => shown v

end Pagewright.Value
