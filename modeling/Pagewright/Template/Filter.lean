import Pagewright.Template.Check
import Pagewright.Template.Condition
import Pagewright.Template.Filter.Sequence
import Pagewright.Template.Filter.Text

/-! # Filters

Main definitions: `filterNames`, `applyFilter` (a filter by name), `vocabulary` (the filters and
tests that exist). -/

namespace Pagewright.Template

open Text
open Value (Passed)

/-- The names of the filters. -/
def filterNames : List Text :=
  List.map String.toList ["abs", "attr", "batch", "capitalize", "center", "class_list", "count", "d",
    "default", "dictsort", "e", "escape", "filesizeformat", "first", "float", "forceescape", "format",
    "groupby", "indent", "int", "items", "join", "json", "last", "length", "list", "lower", "map", "max",
    "min", "pprint", "random", "reject", "rejectattr", "replace", "reverse", "round", "safe", "select",
    "selectattr", "slice", "sort", "string", "striptags", "sum", "title", "tojson", "trim", "truncate",
    "unique", "upper", "urlencode", "urlize", "wordcount", "wordwrap", "xmlattr"]

/-- The filters and tests that exist. -/
def vocabulary : Vocabulary := ⟨filterNames, testNames⟩

/-- What a filter is applied with, apart from other filters. -/
structure FilterSetting where
  guarded : Bool
  blocks : List Text
  autoescape : Bool

/-- A filter applied to a value; filters that apply filters may be nested as deeply as the bound
says. -/
def applyFilter (setting : FilterSetting) : Nat → Text → Value → Passed → Run Value
  | 0, _, _, _ => throw .tooDeep
  | fuel + 1, name, v, p => do
    let s : Services :=
      { guarded := setting.guarded
        blocks := setting.blocks
        autoescape := setting.autoescape
        filter := applyFilter setting fuel
        test := fun name v p =>
          if testNames.contains name then askTest filterNames name v p
          else throw (.misuse ("No test named " ++ quoted name ++ ".")) }
    match itemFilter? s name v p <|> textFilter? s name v p <|> numberFilter? name v p <|>
        markupFilter? s name v p <|> shapeFilter? s name v p <|> eachFilter? s name v p with
    | some run => run
    | none =>
      if name == "urlize".toList then return .str (← printed v)
      else throw (.misuse ("No filter named " ++ quoted name ++ "."))

end Pagewright.Template
