import Pagewright.Problem
import Pagewright.Text.Scan
import Pagewright.Text.Search

/-! # Tables

Tables for the console: the problems of a run, and the syntax of directives.  Cells hold markup.

Main definitions: `Table`, `problemTable`, `directiveTable`, `Table.drawn`. -/

/-! ## Console markup

Text for the console may hold style tags in square brackets.  A backslash in front of a bracket
makes it plain.  Where styles cannot be shown the tags are dropped, but they still have to match.

Main definitions: `escapeMarkup`, `plainMarkup?`. -/

namespace Pagewright.Console

open Text

/-- A tag: the number of backslashes in front of it, its text between the brackets, and its length
with the backslashes. -/
def styleTag? : Recogniser (Nat × Text) := fun t => do
  let slashes := runLength (· == '\\') t
  match t.drop slashes with
  | '[' :: c :: r =>
    if !(('a' ≤ c && c ≤ 'z') || c == '#' || c == '/' || c == '@') then none
    let (body, _) ← cutAt? "]" r
    if body.contains '[' then none
    return ((slashes, c :: body), slashes + body.length + 3)
  | _ => none

/-- A text that shows as itself: every tag in it gets a backslash, and so does a backslash at its
end. -/
def escapeMarkup (t : Text) : Text :=
  let t := replaceHits styleTag? (fun (n, body) =>
    List.replicate (2 * n + 1) '\\' ++ '[' :: body ++ [']']) t
  match t.reverse with
  | '\\' :: '\\' :: _ => t
  | '\\' :: _ => t ++ ['\\']
  | _ => t

/-- Short names of styles. -/
def shortStyles : List (Text × Text) :=
  List.map (fun (a, b) => (String.toList a, String.toList b))
    [("b", "bold"), ("d", "dim"), ("i", "italic"), ("u", "underline"), ("uu", "underline2"),
      ("r", "reverse"), ("s", "strike"), ("c", "conceal"), ("o", "overline")]

/-- The name of a style in its usual form. -/
def styleName (t : Text) : Text :=
  let name := lower (strip t)
  (shortStyles.lookup name).getD name

/-- Open styles without the innermost one of a name. -/
def closeStyle? (name : Text) : List Text → Option (List Text)
  | [] => none
  | s :: ss => if s = name then some ss else (closeStyle? name ss).map (s :: ·)

/-- The fault of a tag that closes nothing; tags are counted by characters from the beginning. -/
def unmatched (body : Text) (position : Nat) : Text :=
  if (strip (body.drop 1)).isEmpty then
    "closing tag '[/]' at position " ++ ofNat position ++ " has nothing to close"
  else "closing tag '[" ++ body ++ "]' at position " ++ ofNat position ++
    " doesn't match any open tag"

/-- The text of scanned pieces without their tags, or the wording of a fault; `opened` are the
styles that are open, the innermost first. -/
def plainPieces (opened : List Text) : List (Piece (Nat × Text)) → Except Text Text
  | [] => .ok []
  -- A bracket that starts no tag may have a backslash too.
  | .char '\\' :: .char '[' :: ps => (plainPieces opened ps).map ('[' :: ·)
  | .char c :: ps => (plainPieces opened ps).map (c :: ·)
  | .hit (slashes, body) start _ :: ps =>
    let lead : Text := List.replicate (slashes / 2) '\\'
    if slashes % 2 = 1 then
      (plainPieces opened ps).map fun t => lead ++ '[' :: body ++ ']' :: t
    else
      let name := body.takeWhile (· ≠ '=')
      match name with
      | '/' :: closing =>
        let closing := styleName closing
        let rest? := if closing.isEmpty then opened.tail? else closeStyle? closing opened
        match rest? with
        | some rest => (plainPieces rest ps).map (lead ++ ·)
        | none => .error (unmatched body (start + slashes))
      | _ => (plainPieces (styleName name :: opened) ps).map (lead ++ ·)

/-- A text as it shows where there are no styles, or the wording of the fault in its markup. -/
def plainMarkup? (t : Text) : Except Text Text := plainPieces [] (pieces styleTag? t)

end Pagewright.Console

namespace Pagewright.Console

open Text

/-- A table with a title, headings, and rows of cells. -/
structure Table where
  title : Text
  headers : List Text
  rows : List (List Text)
  deriving DecidableEq, Repr

/-- The colour and the word for a severity. -/
def severityStyle : Severity → Text × Text
  | .warning => ("yellow".toList, "warning".toList)
  | .error => ("red".toList, "error".toList)

/-- The row for a problem; hints stand below the message. -/
def problemRow (p : Problem) : List Text :=
  let (style, word) := severityStyle p.severity
  let hints : Text :=
    if p.hints.isEmpty then [] else "\n[dim]" ++ escapeMarkup (join "; " p.hints) ++ "[/dim]"
  let page : Text := match p.path with
    | none | some [] => "-"
    | some path => path
  [p.code, "[" ++ style ++ "]" ++ word ++ "[/" ++ style ++ "]", escapeMarkup page,
    escapeMarkup p.message ++ hints]

/-- The table of some problems. -/
def problemTable (ps : List Problem) (title : Text := "Diagnostics") : Table where
  title := title
  headers := List.map String.toList ["Code", "Severity", "Path", "Message"]
  rows := ps.map problemRow

/-- Directives and what they are for. -/
def directiveReference : List (Text × Text) :=
  List.map (fun (a, b) => (String.toList a, String.toList b))
    [("@if(expr) / @elseif(expr) / @else / @endif", "Conditional blocks"),
      ("@unless(expr) / @endunless", "Negated conditional"),
      ("@isset(expr) / @endisset", "Defined and not none"),
      ("@empty(expr) / @endempty", "Falsy or missing"),
      ("@switch(expr) / @case(v) / @break / @default / @endswitch", "Value switch"),
      ("@foreach(items as item) / @endforeach", "Loop with loop metadata"),
      ("@forelse(items as item) / @empty / @endforelse", "Loop with empty branch"),
      ("@json(expr[, pretty])", "JSON output"),
      ("@class([...])", "Conditional class attribute"),
      ("@extends('layout') / @section / @yield", "Layout inheritance"),
      ("@include('partial'[, data])", "Partial include"),
      ("@includeIf / @includeWhen / @includeUnless / @includeFirst", "Conditional includes"),
      ("<include src=\"...\"> @slot('name') ... @endslot </include>", "Includes with slots"),
      ("@push / @prepend / @stack('name')", "Content stacks"),
      ("@once ... @endonce", "Emit once per render"),
      ("@verbatim ... @endverbatim", "Literal region"),
      ("\x7b\x7b-- comment --\x7d\x7d / @@", "Comment and escaped @")]

/-- The table of the supported directives. -/
def directiveTable : Table where
  title := "Supported Directives"
  headers := List.map String.toList ["Syntax", "Purpose"]
  rows := directiveReference.map fun (syntaxForm, purpose) => [escapeMarkup syntaxForm, purpose]

/-! ### Drawing -/

/-- The lines of a cell without markup. -/
def cellLines (cell : Text) : List Text :=
  splitOn "\n" (match plainMarkup? cell with
    | .ok t => t
    | .error _ => cell)

/-- The widths of the columns. -/
def Table.widths (t : Table) : List Nat :=
  let rows := (t.headers :: t.rows).map fun row =>
    row.map fun cell => ((cellLines cell).map List.length).foldl max 0
  rows.foldl (fun acc row => (acc.zip row).map fun (a, b) => max a b) (t.headers.map fun _ => 0)

/-- A horizontal line of a table. -/
def ruleLine (widths : List Nat) (left middle right line : Char) : Text :=
  left :: join [middle] (widths.map fun w => List.replicate (w + 2) line) ++ [right]

/-- The lines of a row, with a bar between the cells. -/
def rowLines (widths : List Nat) (bar : Char) (row : List Text) : List Text :=
  let cells := row.map cellLines
  let height := (cells.map List.length).foldl max 1
  (List.range height).map fun i =>
    let parts := (cells.zip widths).map fun (ls, w) =>
      ' ' :: padRight ' ' w ((ls[i]?).getD []) ++ [' ']
    bar :: join [bar] parts ++ [bar]

/-- The lines of a drawn table. -/
def Table.drawn (t : Table) : List Text :=
  let ws := t.widths
  let width := (ws.map (· + 3)).foldl (· + ·) 1
  [center ' ' width t.title, ruleLine ws '┏' '┳' '┓' '━'] ++ rowLines ws '┃' t.headers ++
    [ruleLine ws '┡' '╇' '┩' '━'] ++ t.rows.flatMap (rowLines ws '│') ++
    [ruleLine ws '└' '┴' '┘' '─']

end Pagewright.Console
