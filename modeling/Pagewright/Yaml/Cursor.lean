import Pagewright.Text.Basic

/-! # Places in a YAML document

A cursor stands in front of the rest of a document and counts characters, lines and columns.  The
end of the document is seen as the character zero, which no document holds.

Main definitions: `Fault`, `Cursor`, `Cursor.forward`, `Cursor.lineBreak`, `isClean`. -/

namespace Pagewright.Yaml

open Text

/-- Why a document cannot be read. -/
inductive Fault where
  /-- The document does not follow the grammar, or means nothing. -/
  | malformed
  /-- A text is not an integer in a base. -/
  | integer (base : Nat) (t : Text)
  /-- A text is not a decimal number. -/
  | decimal (t : Text)
  /-- A text is no truth value. -/
  | truth (t : Text)
  /-- There is no text where a number is asked for. -/
  | nothing
  deriving DecidableEq, Repr

/-- A place in a document. -/
structure Cursor where
  rest : Text
  index : Nat := 0
  line : Nat := 0
  column : Nat := 0

/-- Whether a character ends a line. -/
def isBreak (c : Char) : Bool :=
  c == '\n' || c == '\r' || c.toNat == 0x85 || c.toNat == 0x2028 || c.toNat == 0x2029

/-- Whether a character ends a line or the document. -/
def isLineEnd (c : Char) : Bool := c == '\x00' || isBreak c

/-- Whether a character is a blank or ends a line or the document. -/
def isGap (c : Char) : Bool := c == ' ' || isLineEnd c

/-- Whether a character is a blank or a tab or ends a line or the document. -/
def isWideGap (c : Char) : Bool := c == '\t' || isGap c

/-- Whether a character may occur in a document. -/
def isAllowed (c : Char) : Bool :=
  let n := c.toNat
  n == 9 || n == 10 || n == 13 || (32 ≤ n && n ≤ 126) || n == 0x85 || (0xA0 ≤ n && n ≤ 0xD7FF) ||
    (0xE000 ≤ n && n ≤ 0xFFFD) || 0x10000 ≤ n

/-- Whether all characters of a text may occur in a document. -/
def isClean (t : Text) : Bool := t.all isAllowed

namespace Cursor

/-- The character `n` places ahead. -/
def peek (c : Cursor) (n : Nat := 0) : Char := ((c.rest.drop n).head?).getD '\x00'

/-- The place behind the next character.  A carriage return in front of a line feed does not end the
line, and a byte order mark takes no column. -/
def next (c : Cursor) : Cursor :=
  match c.rest with
  | [] => c
  | x :: r =>
    if isBreak x && !(x == '\r' && r.head? == some '\n') then ⟨r, c.index + 1, c.line + 1, 0⟩
    else ⟨r, c.index + 1, c.line, if x.toNat == 0xFEFF then c.column else c.column + 1⟩

/-- The place `n` characters further on. -/
def forward : Nat → Cursor → Cursor
  | 0, c => c
  | n + 1, c => forward n c.next

/-- The characters of a class from a place on, and the place behind them. -/
def run (p : Char → Bool) (c : Cursor) : Text × Cursor :=
  let t := c.rest.takeWhile p
  (t, c.forward t.length)

/-- The place behind the characters of a class. -/
def skip (p : Char → Bool) (c : Cursor) : Cursor := (c.run p).2

/-- The place behind blanks. -/
def skipBlanks (c : Cursor) : Cursor := c.skip (· == ' ')

/-- The place behind a comment, if one starts here. -/
def skipComment (c : Cursor) : Cursor := if c.peek == '#' then c.skip (!isBreak ·) else c

/-- The line break at a place as it counts in texts, which is nothing if there is none, and the
place behind it. -/
def lineBreak (c : Cursor) : Text × Cursor :=
  let x := c.peek
  if x == '\r' && c.peek 1 == '\n' then (['\n'], c.forward 2)
  else if x == '\n' || x == '\r' || x.toNat == 0x85 then (['\n'], c.next)
  else if x.toNat == 0x2028 || x.toNat == 0x2029 then ([x], c.next)
  else ([], c)

/-- Whether one of the marks between documents stands at a place. -/
def atSeparator (c : Cursor) : Bool :=
  (c.rest.take 3 == ['-', '-', '-'] || c.rest.take 3 == ['.', '.', '.']) && isWideGap (c.peek 3)

/-- The place behind the rest of a line that holds nothing more than a comment. -/
def endLine (c : Cursor) : Except Fault Cursor :=
  let c := c.skipBlanks.skipComment
  if isLineEnd c.peek then .ok c.lineBreak.2 else .error .malformed

end Cursor

end Pagewright.Yaml
