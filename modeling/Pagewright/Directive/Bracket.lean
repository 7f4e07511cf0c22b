import Pagewright.Text.Basic

/-! # Brackets and quotes

Argument lists are read by their nesting: round, square and curly brackets close in the order in
which they open, and a bracket, comma or other separator inside a string literal does not count.
A string literal starts at a quote and ends at the next quote of that kind; a backslash in it
takes the next character along.

Main definitions: `closing?` (the offset of the bracket that closes the first one), `splitTop`
(the pieces of a text between the separators outside brackets and literals), `arguments`
(splitting at commas), `literal?` (the value of a string literal) and `literals?` (the values of
a list of them). -/

namespace Pagewright.Directive

open Text

/-- Whether a character delimits string literals. -/
def isQuote (c : Char) : Bool := c == '\'' || c == '"'

/-- The bracket that closes an opening bracket. -/
def closerOf? : Char → Option Char
  | '(' => some ')'
  | '[' => some ']'
  | '{' => some '}'
  | _ => none

/-- Whether a character closes a bracket. -/
def isCloser (c : Char) : Bool := c == ')' || c == ']' || c == '}'

/-! ### Matching brackets -/

/-- The offset of the bracket at which the last of the expected closers is met.  `expected` holds
the closers still due, innermost first, and `quote` the quote of the literal being read. -/
def closingFrom : List Char → Option Char → Text → Option Nat
  | _, _, [] => none
  | expected, some q, '\\' :: _ :: r => (closingFrom expected (some q) r).map (· + 2)
  | expected, some q, c :: r =>
    (closingFrom expected (if c = q then none else some q) r).map (· + 1)
  | expected, none, c :: r =>
    if isQuote c then (closingFrom expected (some c) r).map (· + 1)
    else match closerOf? c with
      | some d => (closingFrom (d :: expected) none r).map (· + 1)
      | none =>
        if isCloser c then
          match expected with
          | [] => none
          | d :: ds =>
            if d = c then
              if ds.isEmpty then some 0 else (closingFrom ds none r).map (· + 1)
            else none
        else (closingFrom expected none r).map (· + 1)

/-- The offset of the bracket that closes the first bracket of a text. -/
def closing? (t : Text) : Option Nat := closingFrom [] none t

/-! ### Splitting -/

/-- The pieces of a text between top-level separators.  `depth` counts the open brackets, `quote`
is the quote of the literal being read and `skip` the number of characters of a separator still
to be passed over. -/
def splitTopFrom (sep : Text) (depth : Nat) (quote : Option Char) :
    Nat → Text → Text × List Text
  | _, [] => ([], [])
  | k + 1, _ :: r => splitTopFrom sep depth quote k r
  | 0, c :: r =>
    let keep := fun (p : Text × List Text) => (c :: p.1, p.2)
    match quote with
    | some q =>
      if c = '\\' then
        match r with
        | [] => ([c], [])
        | d :: r' =>
          let (piece, rest) := splitTopFrom sep depth quote 0 r'
          (c :: d :: piece, rest)
      else keep (splitTopFrom sep depth (if c = q then none else some q) 0 r)
    | none =>
      if isQuote c then keep (splitTopFrom sep depth (some c) 0 r)
      else if (closerOf? c).isSome then keep (splitTopFrom sep (depth + 1) none 0 r)
      else if isCloser c then keep (splitTopFrom sep (depth - 1) none 0 r)
      else if depth = 0 ∧ sep.isPrefixOf (c :: r) then
        let (piece, rest) := splitTopFrom sep depth none (sep.length - 1) r
        ([], piece :: rest)
      else keep (splitTopFrom sep depth none 0 r)

/-- The pieces of a text between the occurrences of a non-empty separator outside brackets and
literals, each without white space at its ends. -/
def splitTop (sep t : Text) : List Text :=
  let (piece, rest) := splitTopFrom sep 0 none 0 t
  (piece :: rest).map strip

/-- The arguments of an argument list: the pieces between its top-level commas, none if the list
is blank. -/
def arguments (t : Text) : List Text := if isBlank t then [] else splitTop "," t

/-! ### String literals -/

/-- The value of the inside of a literal with quote `q`: a backslash stands for the character
after it, except at the very end, and the quote itself may not stand alone. -/
def unescape? (q : Char) : Text → Option Text
  | [] => some []
  | '\\' :: c :: r => (unescape? q r).map (c :: ·)
  | c :: r => if c = q then none else (unescape? q r).map (c :: ·)

/-- The value of a text that is one string literal, up to white space around it. -/
def literal? (t : Text) : Option Text :=
  match strip t with
  | q :: inner =>
    if isQuote q then
      match inner.getLast? with
      | some last => if last = q then unescape? q inner.dropLast else none
      | none => none
    else none
  | [] => none

/-- The inside of a text that starts with `opener` and ends with `closer`. -/
def between? (opener closer : Char) : Text → Option Text
  | c :: inner =>
    if c = opener ∧ inner.getLast? = some closer then some inner.dropLast else none
  | [] => none

/-- The values of a list of string literals in square brackets, or of a single literal. -/
def literals? (t : Text) : Option (List Text) :=
  match between? '[' ']' (strip t) with
  | some inner => (arguments inner).mapM literal?
  | none => (literal? t).map fun value => [value]

end Pagewright.Directive
