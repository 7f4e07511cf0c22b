import Pagewright.Directive.Occurrence
import Pagewright.Lowering.Guard
import Pagewright.Text.Quoted

/-! # Literals and helper calls

Authors may write mappings as `['k' => v]` or with bare keys; both become the engine's dictionary
syntax, and so do mappings among their values, at every depth.  What stands in a list is left as it is.
The helper directives print a value as JSON and a conditional class attribute.

Main definitions: `mappingExpression`, `classExpression`, `rewriteHelpers`. -/

namespace Pagewright.Lowering

open Text Directive

/-- The parts of a list of items if every item is a pair around `=>`, and there is an item. -/
def arrowPairs? (items : List Text) : Option (List (Text × Text)) :=
  if items.isEmpty then none
  else items.mapM fun item =>
    match splitTop "=>" item with
    | [key, value] => some (key, value)
    | _ => none

/-- Whether a text is a name and nothing else. -/
def isName (t : Text) : Bool := name? t = some t

/-- An expression with mapping literals in dictionary syntax, down to `fuel` literals inside each
other. -/
def mappingTo : Nat → Text → Text
  | 0, e => strip e
  | fuel + 1, e =>
    let e := strip e
    match between? '[' ']' e, between? '{' '}' e with
    | some inner, _ =>
      match arrowPairs? (arguments inner) with
      | some pairs =>
        let shown := pairs.map fun p : Text × Text => (p.1 ++ ": " ++ mappingTo fuel p.2 : Text)
        "\x7b" ++ join ", " shown ++ "\x7d"
      | none => e
    | none, some inner =>
      let shown := (arguments inner).map fun item : Text =>
        match splitTop ":" item with
        | key :: first :: more =>
          ((if isName key then quoted key else key) ++ ": " ++
            mappingTo fuel (join ":" (first :: more)) : Text)
        | _ => item
      "\x7b" ++ join ", " shown ++ "\x7d"
    | none, none => e

/-- An expression with mapping literals in dictionary syntax.  An inner literal is shorter than
the outer one by its brackets, so the length of the text bounds the nesting. -/
def mappingExpression (e : Text) : Text := mappingTo e.length e

/-- The argument of a class directive as a literal for the class helper: a list of names and of
pairs of a name and a condition. -/
def classExpression (e : Text) : Text :=
  match between? '[' ']' (strip e) with
  | none => mappingExpression (strip e)
  | some inner =>
    let entries := (arguments inner).map fun item : Text =>
      match splitTop "=>" item with
      | [name, condition] => ("(" ++ name ++ ", (" ++ condition ++ "))" : Text)
      | _ => "(" ++ item ++ ", true)"
    "[" ++ join ", " entries ++ "]"

/-- The directives of helpers. -/
def helperNames : List Text := ["json", "class"]

/-- The output tag between the delimiters `start` and `stop` for a helper directive. -/
def helperTag? (start stop : Text) (d : Directive) : Option Text :=
  match d.argumentList with
  | [] => none
  | value :: more =>
    if d.name = "json" then
      let pretty := more.head?.getD "false"
      some (start ++ " _hk_json((" ++ value ++ "), " ++ pretty ++ ") " ++ stop)
    else
      some ("class=\"" ++ start ++ " _hk_class(" ++ classExpression (d.args.getD []) ++ ") " ++
        stop ++ "\"")

/-- A text with its helper directives turned into output tags. -/
def rewriteHelpers (t : Text) (start : Text := "\x7b\x7b") (stop : Text := "\x7d\x7d") : Text :=
  replace helperNames (helperTag? start stop) t

end Pagewright.Lowering
