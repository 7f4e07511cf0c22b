import Pagewright.Text.Basic

/-! # Escaping for HTML

The characters that have a meaning in markup are written as character references.

Main definitions: `escape` (quotes by name and number, for attribute values that this library
writes) and `escapeNumeric` (both quotes by number, for values that a template prints). -/

namespace Pagewright.Html

/-- A character as it stands in an attribute value. -/
def escapeChar : Char → Text
  | '&' => "&amp;"
  | '<' => "&lt;"
  | '>' => "&gt;"
  | '"' => "&quot;"
  | '\'' => "&#x27;"
  | c => [c]

/-- A text as it stands in an attribute value. -/
def escape (t : Text) : Text := t.flatMap escapeChar

/-- A character as a template prints it. -/
def escapeNumericChar : Char → Text
  | '&' => "&amp;"
  | '<' => "&lt;"
  | '>' => "&gt;"
  | '"' => "&#34;"
  | '\'' => "&#39;"
  | c => [c]

/-- A text as a template prints it. -/
def escapeNumeric (t : Text) : Text := t.flatMap escapeNumericChar

end Pagewright.Html
