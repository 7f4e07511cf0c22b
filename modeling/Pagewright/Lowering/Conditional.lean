import Pagewright.Directive.Occurrence
import Pagewright.Lowering.Guard

/-! # Conditionals and switches

Conditional directives become the engine's conditional tags one by one.  A switch captures its
subject in a numbered variable and opens a conditional that is never taken; every case is then a
further branch that compares with the subject of the innermost open switch.

Main definitions: `rewriteConditionals`, `rewriteSwitches`. -/

namespace Pagewright.Lowering

open Text Directive

/-- The directives of conditionals. -/
def conditionalNames : List Text :=
  ["if", "elseif", "else", "endif", "unless", "endunless", "isset", "endisset", "empty",
    "endempty"]

/-- The directives that end a conditional. -/
def conditionalEnds : List Text := ["endif", "endunless", "endisset", "endempty"]

/-- The engine tag for a directive of a conditional.  A directive without a condition is left
alone, since a bare `empty` belongs to a loop. -/
def conditionalTag? (d : Directive) : Option Text :=
  if d.name = "else" then some (tag "else")
  else if conditionalEnds.contains d.name then some (tag "endif")
  else
    match d.args.map strip with
    | none | some [] => none
    | some e =>
      if d.name = "if" then some (tag ("if " ++ e))
      else if d.name = "elseif" then some (tag ("elif " ++ e))
      else if d.name = "isset" then
        some (tag ("if (" ++ e ++ ") is defined and (" ++ e ++ ") is not none"))
      else some (tag ("if not (" ++ e ++ ")"))

/-- A text with its conditional directives turned into engine tags. -/
def rewriteConditionals (t : Text) : Text := replace conditionalNames conditionalTag? t

/-! ### Switches -/

/-- The directives of switches. -/
def switchNames : List Text := ["switch", "case", "break", "default", "endswitch"]

/-- How many switches have been opened, and the numbers of those still open, innermost first. -/
structure Switches where
  opened : Nat := 0
  subjects : List Nat := []

/-- The variable that holds the subject of a switch. -/
def switchSubject (n : Nat) : Text := "_hk_switch_" ++ ofNat n

/-- The engine tags for a directive of a switch. -/
def switchTag? (s : Switches) (d : Directive) : Option Text × Switches :=
  if d.name = "switch" then
    match d.args with
    | none => (none, s)
    | some e =>
      let n := s.opened + 1
      (some (tag ("set " ++ switchSubject n ++ " = (" ++ strip e ++ ")") ++ tag "if false"),
        ⟨n, n :: s.subjects⟩)
  else
    match s.subjects with
    | [] => (none, s)
    | n :: outer =>
      if d.name = "case" then
        match d.args with
        | none => (none, s)
        | some e => (some (tag ("elif " ++ switchSubject n ++ " == (" ++ strip e ++ ")")), s)
      else if d.name = "break" then (some [], s)
      else if d.name = "default" then (some (tag "else"), s)
      else (some (tag "endif"), { s with subjects := outer })

/-- A text with its switch directives turned into engine tags. -/
def rewriteSwitches (t : Text) : Text := (replaceWith switchNames switchTag? {} t).1

end Pagewright.Lowering
