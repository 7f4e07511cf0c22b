import Pagewright.Html.Reference
import Pagewright.Text.Scan

/-! # Reading character references

A reference starts with an ampersand; it names a character or gives its number, in decimal or
hexadecimal digits.  The semicolon at its end may be missing.  Of a name that is not known the
longest beginning that is understood without a semicolon is taken.

Main definitions: `reference?` (the reference at the beginning of a text), `unescape`. -/

namespace Pagewright.Html

open Text

/-- The number that digits of a base write. -/
def numberIn (base : Nat) (ds : Text) : Nat :=
  ds.foldl (fun n c =>
    n * base + (if isAsciiDigit c then c.toNat - 48 else c.toLower.toNat - 87)) 0

/-- A hexadecimal digit. -/
def isHexDigit (c : Char) : Bool := isAsciiDigit c || ('a' ≤ c.toLower && c.toLower ≤ 'f')

/-- A character that can stand in the name of a reference. -/
def isReferenceName (c : Char) : Bool := !"\t\n\x0c <&#;".toList.contains c

/-- The characters of a run with the semicolon behind it, if there is one. -/
def withSemicolon (run rest : Text) : Text :=
  match rest with
  | ';' :: _ => run ++ [';']
  | _ => run

/-- The characters for the longest beginning of a name that is understood, among those of at most
`n` characters and at least two. -/
def longestReference? (name : Text) : Nat → Option Text
  | 0 => none
  | 1 => none
  | n + 1 =>
    match namedReference? (name.take (n + 1)) with
    | some t => some (t ++ name.drop (n + 1))
    | none => longestReference? name n

/-- What a name with its semicolon, if it has one, stands for. -/
def nameText (name : Text) : Text :=
  match namedReference? name with
  | some t => t
  | none => (longestReference? name (name.length - 1)).getD ('&' :: name)

/-- The reference behind an ampersand: what it stands for, and the number of its characters. -/
def referenceBody? : Recogniser Text
  | '#' :: r =>
    let ds := r.takeWhile isAsciiDigit
    let hex := (r.drop 1).takeWhile isHexDigit
    if !ds.isEmpty then
      some (numericReference (numberIn 10 ds),
        1 + (withSemicolon ds (r.drop ds.length)).length)
    else if (r.head? == some 'x' || r.head? == some 'X') && !hex.isEmpty then
      some (numericReference (numberIn 16 hex),
        2 + (withSemicolon hex (r.drop (1 + hex.length))).length)
    else none
  | t =>
    let run := (t.takeWhile isReferenceName).take 32
    if run.isEmpty then none
    else
      let name := withSemicolon run (t.drop run.length)
      some (nameText name, name.length)

/-- The reference at the beginning of a text. -/
def reference? : Recogniser Text
  | '&' :: r => (referenceBody? r).map fun (t, n) => (t, n + 1)
  | _ => none

/-- A text with its character references replaced. -/
def unescape (t : Text) : Text := replaceHits reference? id t

end Pagewright.Html
