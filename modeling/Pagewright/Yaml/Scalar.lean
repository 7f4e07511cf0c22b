import Pagewright.Number.Read
import Pagewright.Yaml.Cursor

/-! # Scalars as they are written

A scalar is written plain, in quotes, or as a block of lines.  Line breaks in plain and quoted
scalars are folded to blanks; in blocks they are kept or folded as the block says.

Main definitions: `plain`, `quoted`, `block`. -/

namespace Pagewright.Yaml

open Text

/-- Line breaks folded: the first one counts as a blank unless others follow it. -/
def folded (first breaks : Text) : Text :=
  if first ≠ ['\n'] then first ++ breaks else if breaks.isEmpty then [' '] else breaks

/-! ### Plain scalars -/

/-- The length of a stretch of a plain scalar without blanks. -/
def plainLength (inFlow : Bool) : Text → Nat
  | [] => 0
  | c :: r =>
    let stops := isWideGap c ||
      (c == ':' && (match r with
        | [] => true
        | d :: _ => isWideGap d || (inFlow && ",[]\x7b\x7d".toList.contains d))) ||
      (inFlow && ",?[]\x7b\x7d".toList.contains c)
    if stops then 0 else plainLength inFlow r + 1

/-- The line breaks and blanks behind a line of a plain scalar, or nothing where another document
starts. -/
def plainBreaks : Nat → Cursor → Option Text × Cursor
  | 0, c => (some [], c)
  | fuel + 1, c =>
    let c := c.skipBlanks
    if isBreak c.peek then
      let (b, c) := c.lineBreak
      if c.atSeparator then (none, c)
      else
        let (more, c) := plainBreaks fuel c
        (more.map (b ++ ·), c)
    else (some [], c)

/-- What stands between two stretches of a plain scalar, which is nothing where the scalar ends,
whether it holds a line break, and the place behind it. -/
def plainGap (c : Cursor) : Text × Bool × Cursor :=
  let (blanks, c) := c.run (· == ' ')
  if isBreak c.peek then
    let (first, c) := c.lineBreak
    if c.atSeparator then ([], true, c)
    else
      match plainBreaks c.rest.length c with
      | (some breaks, c) => (folded first breaks, true, c)
      | (none, c) => ([], true, c)
  else (blanks, false, c)

/-- A plain scalar after the gap `gap`, whether a line break stands behind it, and the place where
reading goes on. -/
def plainFrom (inFlow : Bool) (indent : Int) : Nat → Text → Bool → Cursor → Text × Bool × Cursor
  | 0, _, broken, c => ([], broken, c)
  | fuel + 1, gap, broken, c =>
    if c.peek == '#' then ([], broken, c)
    else
      let n := plainLength inFlow c.rest
      if n = 0 then ([], broken, c)
      else
        let here := gap ++ c.rest.take n
        let (gap, broken, c) := plainGap (c.forward n)
        if gap.isEmpty || c.peek == '#' || (!inFlow && decide ((c.column : Int) < indent)) then
          (here, broken, c)
        else
          let (more, broken, c) := plainFrom inFlow indent fuel gap broken c
          (here ++ more, broken, c)

/-- A plain scalar, whether a line break stands behind it, and the place where reading goes on.
Outside of flow collections its lines have to be indented. -/
def plain (inFlow : Bool) (indent : Int) (c : Cursor) : Text × Bool × Cursor :=
  plainFrom inFlow indent (c.rest.length + 1) [] false c

/-! ### Quoted scalars -/

/-- The characters that a backslash and one letter stand for. -/
def escapes : List (Char × Nat) :=
  [('0', 0), ('a', 7), ('b', 8), ('t', 9), ('\t', 9), ('n', 10), ('v', 11), ('f', 12), ('r', 13),
    ('e', 27), (' ', 32), ('"', 34), ('\\', 92), ('/', 47), ('N', 0x85), ('_', 0xA0), ('L', 0x2028),
    ('P', 0x2029)]

/-- The letters that announce a number of hexadecimal digits. -/
def codeLengths : List (Char × Nat) := [('x', 2), ('u', 4), ('U', 8)]

/-- The number written by hexadecimal digits alone. -/
def hexNumber? (t : Text) : Option Nat := do
  let ds ← t.mapM fun c => do
    let d ← Number.digitOf? c
    if d < 16 ∧ c.toNat < 128 then some d else none
  return ds.foldl (fun acc d => acc * 16 + d) 0

/-- The line breaks in a quoted scalar, with the blanks around them passed over.  No other document
may start there. -/
def quotedBreaks : Nat → Cursor → Except Fault (Text × Cursor)
  | 0, c => .ok ([], c)
  | fuel + 1, c => do
    if c.atSeparator then .error .malformed
    let c := c.skip fun x => x == ' ' || x == '\t'
    if isBreak c.peek then
      let (b, c) := c.lineBreak
      let (more, c) ← quotedBreaks fuel c
      return (b ++ more, c)
    else return ([], c)

/-- What a backslash and the characters behind it stand for. -/
def escape (c : Cursor) : Except Fault (Text × Cursor) := do
  let x := c.peek
  match escapes.lookup x with
  | some n => return ([Char.ofNat n], c.next)
  | none =>
    match codeLengths.lookup x with
    | some n =>
      match hexNumber? (c.next.rest.take n), decide ((c.next.rest.take n).length = n) with
      | some code, true =>
        if code < 0x110000 then return ([Char.ofNat code], c.forward (n + 1)) else .error .malformed
      | _, _ => .error .malformed
    | none =>
      if isBreak x then quotedBreaks c.rest.length c.lineBreak.2 else .error .malformed

/-- Blanks in a quoted scalar; those around line breaks are dropped. -/
def quotedGap (c : Cursor) : Except Fault (Text × Cursor) := do
  let (blanks, c) := c.run fun x => x == ' ' || x == '\t'
  if c.rest.isEmpty then .error .malformed
  if isBreak c.peek then
    let (first, c) := c.lineBreak
    let (breaks, c) ← quotedBreaks (c.rest.length + 1) c
    return (folded first breaks, c)
  else return (blanks, c)

/-- The rest of a quoted scalar, up to its closing quote. -/
def quotedFrom (q : Char) : Nat → Cursor → Except Fault (Text × Cursor)
  | 0, _ => .error .malformed
  | fuel + 1, c =>
    match c.rest with
    | [] => .error .malformed
    | x :: r =>
      if x = q then
        if q = '\'' ∧ r.head? = some '\'' then do
          let (more, c) ← quotedFrom q fuel (c.forward 2)
          return (q :: more, c)
        else .ok ([], c.next)
      else do
        let (here, c) ←
          if q = '"' ∧ x = '\\' then escape c.next
          else if isWideGap x then quotedGap c
          else .ok ([x], c.next)
        let (more, c) ← quotedFrom q fuel c
        return (here ++ more, c)

/-- A scalar in the quotes that stand at a place. -/
def quoted (c : Cursor) : Except Fault (Text × Cursor) :=
  quotedFrom c.peek (c.rest.length + 1) c.next

/-! ### Blocks -/

/-- What happens to the line breaks at the end of a block. -/
inductive Chomping where
  | strip
  | clip
  | keep
  deriving DecidableEq, Repr

/-- The digit that sets the indentation of a block; zero sets none. -/
def indentDigit (c : Cursor) : Except Fault (Option Nat × Cursor) :=
  match Number.digitOf? c.peek with
  | some d =>
    if isAsciiDigit c.peek then if d = 0 then .error .malformed else .ok (some d, c.next)
    else .ok (none, c)
  | none => .ok (none, c)

/-- The sign that says what happens at the end of a block. -/
def chomping? (c : Cursor) : Option Chomping :=
  if c.peek == '+' then some .keep else if c.peek == '-' then some .strip else none

/-- The marks of a block: a sign and a digit in either order. -/
def blockMarks (c : Cursor) : Except Fault (Chomping × Option Nat × Cursor) := do
  let (ch, n, c) ← (match chomping? c with
    | some ch => do
      let (n, c) ← indentDigit c.next
      return (ch, n, c)
    | none => do
      let (n, c) ← indentDigit c
      match n, chomping? c with
      | some n, some ch => return (ch, some n, c.next)
      | n, _ => return (.clip, n, c))
  if isGap c.peek then return (ch, n, c) else .error .malformed

/-- The empty lines in front of a block, the widest column in them, and the place behind them. -/
def leadingLines : Nat → Nat → Cursor → Text × Nat × Cursor
  | 0, widest, c => ([], widest, c)
  | fuel + 1, widest, c =>
    if c.peek == ' ' then leadingLines fuel (max widest c.next.column) c.next
    else if isBreak c.peek then
      let (b, c) := c.lineBreak
      let (more, widest, c) := leadingLines fuel widest c
      (b ++ more, widest, c)
    else ([], widest, c)

/-- The place behind the blanks in front of a column. -/
def indentTo (indent : Int) : Nat → Cursor → Cursor
  | 0, c => c
  | fuel + 1, c =>
    if (c.column : Int) < indent ∧ c.peek = ' ' then indentTo indent fuel c.next else c

/-- The empty lines between the lines of a block, and the place in the line behind them. -/
def blockBreaks (indent : Int) : Nat → Cursor → Text × Cursor
  | 0, c => ([], c)
  | fuel + 1, c =>
    let c := indentTo indent c.rest.length c
    if isBreak c.peek then
      let (b, c) := c.lineBreak
      let (more, c) := blockBreaks indent fuel c
      (b ++ more, c)
    else ([], c)

/-- The lines of a block after the empty lines `breaks`, with the last line break and the empty
lines behind it set apart. -/
def blockLines (fold : Bool) (indent : Int) : Nat → Text → Cursor → Text × Text × Text × Cursor
  | 0, breaks, c => ([], [], breaks, c)
  | fuel + 1, breaks, c =>
    if (c.column : Int) = indent ∧ !c.rest.isEmpty then
      let isText := !(c.peek == ' ' || c.peek == '\t')
      let (line, c) := c.run fun x => !isBreak x
      let (last, c) := c.lineBreak
      let (following, c) := blockBreaks indent (c.rest.length + 1) c
      let here := breaks ++ line
      if (c.column : Int) = indent ∧ !c.rest.isEmpty then
        let gap : Text :=
          if fold && last == ['\n'] && isText && !(c.peek == ' ' || c.peek == '\t') then
            if following.isEmpty then [' '] else []
          else last
        let (more, last, tail, c) := blockLines fold indent fuel following c
        (here ++ gap ++ more, last, tail, c)
      else (here, last, following, c)
    else ([], [], breaks, c)

/-- A block in a collection with an indentation, from the sign that opens it. -/
def block (parent : Int) (c : Cursor) : Except Fault (Text × Cursor) := do
  let fold := c.peek == '>'
  let (ch, n, c) ← blockMarks c.next
  let c ← c.endLine
  let least := max 1 (parent + 1)
  let (indent, breaks, c) : Int × Text × Cursor := match n with
    | none =>
      let (breaks, widest, c) := leadingLines c.rest.length 0 c
      (max least widest, breaks, c)
    | some n =>
      let indent := least + n - 1
      let (breaks, c) := blockBreaks indent (c.rest.length + 1) c
      (indent, breaks, c)
  let (lines, last, tail, c) := blockLines fold indent (c.rest.length + 1) breaks c
  return (lines ++ (if ch = .strip then [] else last) ++ (if ch = .keep then tail else []), c)

end Pagewright.Yaml
