import Pagewright.Html.Escape
import Pagewright.Lowering.Mapping

/-! # Include directives

The include directives become self-closing include tags.  What the directive says beyond the
source goes into attributes with a reserved beginning, whose values are escaped.

Main definitions: `Attribute`, `setAttribute`, `includeTag`, `rewriteIncludes`. -/

namespace Pagewright

/-- A named attribute of a tag. -/
structure Attribute where
  name : Text
  value : Text
  deriving DecidableEq, Repr

namespace Lowering

open Text Directive

/-- Attributes with one value set; a name that is there already keeps its place. -/
def setAttribute (a : Attribute) : List Attribute → List Attribute
  | [] => [a]
  | b :: rest => if b.name = a.name then a :: rest else b :: setAttribute a rest

/-- An attribute as it is written in a tag. -/
def shownAttribute (a : Attribute) : Text := a.name ++ "=\"" ++ Html.escape a.value ++ "\""

/-- A self-closing include tag. -/
def includeTag (src : Text) (attributes : List Attribute) : Text :=
  "<include " ++ join " " ((⟨"src", src⟩ :: attributes).map shownAttribute) ++ " />"

/-- The include directives. -/
def includeNames : List Text :=
  ["include", "includeIf", "includeWhen", "includeUnless", "includeFirst"]

/-- What an include directive says: the source, reserved attributes, and the arguments that
follow. -/
structure IncludeRequest where
  src : Text
  attributes : List Attribute
  rest : List Text

/-- The request of an include directive.  The first argument of `includeFirst` lists candidates:
the first is the source and the others become an attribute. -/
def includeRequest? (d : Directive) : Option IncludeRequest :=
  match d.argumentList with
  | [] => none
  | first :: rest =>
    if d.name = "include" then (literal? first).map fun src => ⟨src, [], rest⟩
    else if d.name = "includeIf" then
      (literal? first).map fun src => ⟨src, [⟨"hk:optional", "true"⟩], rest⟩
    else if d.name = "includeFirst" then
      match literals? first with
      | none | some [] => none
      | some [src] => some ⟨src, [⟨"hk:optional", "true"⟩], rest⟩
      | some (src :: others) =>
        some ⟨src, [⟨"hk:first", join "|" others⟩, ⟨"hk:optional", "true"⟩], rest⟩
    else
      match rest with
      | [] => none
      | second :: rest =>
        let name : Text := if d.name = "includeWhen" then "hk:when" else "hk:unless"
        (literal? second).map fun src => ⟨src, [⟨name, first⟩], rest⟩

/-- The include tag for a directive; data for the partial goes into the last attribute. -/
def includeTag? (d : Directive) : Option Text :=
  (includeRequest? d).map fun r =>
    match r.rest with
    | [] => includeTag r.src r.attributes
    | data :: _ => includeTag r.src (r.attributes ++ [⟨"hk:with", mappingExpression data⟩])

/-- A text with its include directives turned into include tags. -/
def rewriteIncludes (t : Text) : Text := replace includeNames includeTag? t

end Lowering

end Pagewright
