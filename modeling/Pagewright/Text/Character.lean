import Pagewright.Text.Table

/-! # Characters

Classes and case forms of single characters.  Each function decides ASCII by a rule of its own
and everything above ASCII by `Table`, so that statements about ASCII text do not reach the
tables.

Main definitions: `isSpace`, `isWord`, `isNameStart`, `isNamePart`, `isPrintable` (classes),
`digitValue?` (the value of a decimal digit of any script), `upperForm`, `lowerForm`,
`titleForm`, `foldForm` (case forms, which may be several characters). -/

namespace Pagewright.Text

/-! ### Classes -/

/-- White space: the ASCII blanks and separators and the Unicode spaces. -/
def isSpace (c : Char) : Bool :=
  let n := c.toNat
  n == 32 || (9 ≤ n && n ≤ 13) || (28 ≤ n && n ≤ 31) || n == 0x85 || n == 0xA0 || n == 0x1680 ||
    (0x2000 ≤ n && n ≤ 0x200A) || n == 0x2028 || n == 0x2029 || n == 0x202F || n == 0x205F ||
    n == 0x3000

/-- An ASCII letter. -/
def isAsciiLetter (c : Char) : Bool :=
  ('a' ≤ c && c ≤ 'z') || ('A' ≤ c && c ≤ 'Z')

/-- An ASCII digit. -/
def isAsciiDigit (c : Char) : Bool := '0' ≤ c && c ≤ '9'

/-- A letter of any script. -/
def isAlpha (c : Char) : Bool :=
  if c.toNat < 128 then isAsciiLetter c else Table.member Table.alphabetic c.toNat

/-- A decimal digit of any script. -/
def isDecimal (c : Char) : Bool :=
  if c.toNat < 128 then isAsciiDigit c else Table.member Table.decimal c.toNat

/-- A character with a digit value, such as a superscript two. -/
def isDigit (c : Char) : Bool :=
  if c.toNat < 128 then isAsciiDigit c else Table.member Table.digit c.toNat

/-- A character with a numeric value, such as a vulgar fraction. -/
def isNumeric (c : Char) : Bool :=
  if c.toNat < 128 then isAsciiDigit c else Table.member Table.numeric c.toNat

/-- A letter or a character with a numeric value. -/
def isAlnum (c : Char) : Bool := isAlpha c || isDecimal c || isDigit c || isNumeric c

/-- A character of a word: alphanumeric or an underscore. -/
def isWord (c : Char) : Bool := c == '_' || isAlnum c

/-- A character that may start a name. -/
def isNameStart (c : Char) : Bool :=
  if c.toNat < 128 then c == '_' || isAsciiLetter c
  else isAlpha c != Table.member Table.nameStartChange c.toNat

/-- A character that may continue a name. -/
def isNamePart (c : Char) : Bool :=
  if c.toNat < 128 then c == '_' || isAsciiLetter c || isAsciiDigit c
  else (isAlpha c || isDecimal c) != Table.member Table.namePartChange c.toNat

/-- A character that is shown as itself between quotes. -/
def isPrintable (c : Char) : Bool :=
  if c.toNat < 128 then 32 ≤ c.toNat && c.toNat < 127
  else Table.member Table.printable c.toNat

/-- The value of a decimal digit: its distance from the zero of its script. -/
def digitValue? (c : Char) : Option Nat :=
  if c.toNat < 128 then
    if isAsciiDigit c then some (c.toNat - 48) else none
  else
    -- Runs of digits hold whole decades, so the distance from the run's start is enough.
    if Table.member Table.decimal c.toNat then
      match (Table.decimal.filter (· ≤ c.toNat)).getLast? with
      | some start => some ((c.toNat - start) % 10)
      | none => none
    else none

/-! ### Case forms -/

/-- The upper case form of a character. -/
def upperForm (c : Char) : List Char :=
  let n := c.toNat
  if n < 128 then [if 'a' ≤ c && c ≤ 'z' then Char.ofNat (n - 32) else c]
  else match Table.shifted Table.upperRows n with
    | some m => [Char.ofNat m]
    | none => ((Table.upperLong.lookup n).map (·.map Char.ofNat)).getD [c]

/-- The lower case form of a character, without regard to its place in a word. -/
def lowerForm (c : Char) : List Char :=
  let n := c.toNat
  if n < 128 then [if 'A' ≤ c && c ≤ 'Z' then Char.ofNat (n + 32) else c]
  else match Table.shifted Table.lowerRows n with
    | some m => [Char.ofNat m]
    | none => ((Table.lowerLong.lookup n).map (·.map Char.ofNat)).getD [c]

/-- The title case form of a character. -/
def titleForm (c : Char) : List Char :=
  if c.toNat < 128 then upperForm c
  else ((Table.titleChange.lookup c.toNat).map (·.map Char.ofNat)).getD (upperForm c)

/-- The form of a character for comparison without regard to case. -/
def foldForm (c : Char) : List Char :=
  if c.toNat < 128 then lowerForm c
  else ((Table.foldChange.lookup c.toNat).map (·.map Char.ofNat)).getD (lowerForm c)

/-- An upper case character. -/
def isUpper (c : Char) : Bool :=
  if c.toNat < 128 then 'A' ≤ c && c ≤ 'Z'
  else (lowerForm c != [c]) != Table.member Table.upperChange c.toNat

/-- A lower case character. -/
def isLower (c : Char) : Bool :=
  if c.toNat < 128 then 'a' ≤ c && c ≤ 'z'
  else (upperForm c != [c]) != Table.member Table.lowerChange c.toNat

/-- A title case character: a capital that stands for an upper and a lower case letter. -/
def isTitle (c : Char) : Bool :=
  let n := c.toNat
  n == 0x1C5 || n == 0x1C8 || n == 0x1CB || n == 0x1F2 || (0x1F88 ≤ n && n ≤ 0x1F8F) ||
    (0x1F98 ≤ n && n ≤ 0x1F9F) || (0x1FA8 ≤ n && n ≤ 0x1FAF) || n == 0x1FBC || n == 0x1FCC ||
    n == 0x1FFC

/-- A character with a case. -/
def isCased (c : Char) : Bool := isUpper c || isLower c || isTitle c

end Pagewright.Text
