import Pagewright.Text.Utf8
import Pagewright.Yaml.Scalar

/-! # Tokens of YAML documents

Collections without brackets start and end by indentation.  A key needs no mark of its own: when a
colon comes, the token at which its key may have started becomes a key after all, and if it is
indented more deeply than what surrounds it, a mapping starts there.

Main definitions: `Token`, `Scan` (what is known at a place), `tokens`. -/

namespace Pagewright.Yaml

open Text

/-- What a directive at the beginning of a document says. -/
inductive Heading where
  | version (major : Nat)
  | handle (name lead : Text)
  | unknown
  deriving DecidableEq, Repr

/-- A token. -/
inductive Token where
  | heading (h : Heading)
  | documentStart
  | documentEnd
  | blockSequence
  | blockMapping
  | blockEnd
  | flowSequence
  | flowSequenceEnd
  | flowMapping
  | flowMappingEnd
  /-- The comma between the items of a flow collection. -/
  | comma
  /-- The hyphen in front of an item of a sequence. -/
  | hyphen
  | key
  | value
  | alias (name : Text)
  | anchor (name : Text)
  | tag (handle : Option Text) (suffix : Text)
  | scalar (t : Text) (isPlain : Bool)
  deriving DecidableEq, Repr

/-! ### Marks -/

/-- A character of the names of anchors, handles and directives. -/
def isNameChar (c : Char) : Bool := isAsciiLetter c || isAsciiDigit c || c == '-' || c == '_'

/-- The name of an anchor or alias behind its mark. -/
def anchorName (c : Cursor) : Except Fault (Text × Cursor) :=
  let (name, c) := c.next.run isNameChar
  if name.isEmpty || !(isWideGap c.peek || "?:,]\x7d%@\x60".toList.contains c.peek) then
    .error .malformed
  else .ok (name, c)

/-- A character of a tag. -/
def isTagChar (c : Char) : Bool :=
  isAsciiLetter c || isAsciiDigit c || "-;/?:@&=+$,_.!~*'()[]".toList.contains c

/-- The text of a tag, in which percent signs announce bytes. -/
def tagText (c : Cursor) : Except Fault (Text × Cursor) := do
  let (t, c) ← go c.rest.length c
  if t.isEmpty then .error .malformed else return (t, c)
where
  /-- Stretches of characters and of bytes. -/
  go : Nat → Cursor → Except Fault (Text × Cursor)
    | 0, c => .ok ([], c)
    | fuel + 1, c =>
      if c.peek = '%' then do
        let (bytes, c) ← bytesFrom c.rest.length c
        match decodeUtf8? bytes with
        | none => .error .malformed
        | some t =>
          let (more, c) ← go fuel c
          return (t ++ more, c)
      else if isTagChar c.peek then do
        let (t, c) := c.run isTagChar
        let (more, c) ← go fuel c
        return (t ++ more, c)
      else .ok ([], c)
  /-- Bytes that are written by percent signs and two digits each. -/
  bytesFrom : Nat → Cursor → Except Fault (List Nat × Cursor)
    | 0, c => .ok ([], c)
    | fuel + 1, c =>
      if c.peek = '%' then
        match hexNumber? (c.next.rest.take 2), decide ((c.next.rest.take 2).length = 2) with
        | some n, true => do
          let (more, c) ← bytesFrom fuel (c.forward 3)
          return (n :: more, c)
        | _, _ => .error .malformed
      else .ok ([], c)

/-- The handle at the beginning of a tag: an exclamation mark, or a name between two. -/
def tagHandle (c : Cursor) : Except Fault (Text × Cursor) :=
  if c.peek ≠ '!' then .error .malformed
  else if c.peek 1 = ' ' then .ok (['!'], c.next)
  else
    let (name, c) := c.next.run isNameChar
    if c.peek = '!' then .ok ('!' :: name ++ ['!'], c.next) else .error .malformed

/-- The tag at a place. -/
def tag (c : Cursor) : Except Fault (Token × Cursor) := do
  let x := c.peek 1
  let (t, c) ←
    if x = '<' then do
      let (suffix, c) ← tagText (c.forward 2)
      if c.peek = '>' then pure (Token.tag none suffix, c.next) else .error .malformed
    else if isWideGap x then pure (Token.tag none ['!'], c.next)
    else do
      let word := c.next.rest.takeWhile fun x => !isGap x
      let (handle, c) ← if word.contains '!' then tagHandle c else pure (['!'], c.next)
      let (suffix, c) ← tagText c
      pure (Token.tag (some handle) suffix, c)
  if isGap c.peek then return (t, c) else .error .malformed

/-- The number in a version. -/
def versionNumber (c : Cursor) : Except Fault (Nat × Cursor) :=
  let (ds, c) := c.run isAsciiDigit
  match natOfDigits? ds with
  | some n => .ok (n, c)
  | none => .error .malformed

/-- The directive at a place. -/
def heading (c : Cursor) : Except Fault (Token × Cursor) := do
  let (name, c) := c.next.run isNameChar
  if name.isEmpty || !isGap c.peek then .error .malformed
  let (h, c) ←
    if name = "YAML" then do
      let (major, c) ← versionNumber c.skipBlanks
      if c.peek ≠ '.' then .error .malformed
      let (_, c) ← versionNumber c.next
      if isGap c.peek then pure (Heading.version major, c) else .error .malformed
    else if name = "TAG" then do
      let (handle, c) ← tagHandle c.skipBlanks
      if c.peek ≠ ' ' then .error .malformed
      let (lead, c) ← tagText c.skipBlanks
      if isGap c.peek then pure (Heading.handle handle lead, c) else .error .malformed
    else pure (Heading.unknown, c.skip (!isBreak ·))
  return (.heading h, ← c.endLine)

/-! ### The state of scanning -/

/-- A place at which a key may have started: the number of tokens in front of it, where it stands,
and whether a key has to start there. -/
structure PossibleKey where
  level : Nat
  number : Nat
  needed : Bool
  index : Nat
  line : Nat
  column : Nat

/-- What is known at a place: the tokens so far, the columns of the collections around it, the
number of open brackets, whether a key may start, and where keys may have started, at most one for
every number of brackets. -/
structure Scan where
  place : Cursor
  tokens : List Token := []
  indent : Int := -1
  indents : List Int := []
  level : Nat := 0
  mayStartKey : Bool := true
  keys : List PossibleKey := []

namespace Scan

/-- A scan with a token put behind the others. -/
def emit (s : Scan) (t : Token) : Scan := { s with tokens := s.tokens ++ [t] }

/-- A scan with a token put in at a place among the others. -/
def insert (s : Scan) (n : Nat) (t : Token) : Scan :=
  { s with tokens := s.tokens.take n ++ t :: s.tokens.drop n }

/-- The scan after blanks, comments and line breaks.  Outside of brackets a key may start on a new
line. -/
def skipGaps : Nat → Scan → Scan
  | 0, s => s
  | fuel + 1, s =>
    let c := s.place.skipBlanks.skipComment
    if isBreak c.peek then
      skipGaps fuel { s with
        place := c.lineBreak.2, mayStartKey := s.mayStartKey || s.level == 0 }
    else { s with place := c }

/-- The scan without the possible keys that are on another line or too far away. -/
def dropStale (s : Scan) : Except Fault Scan :=
  let stale := fun k : PossibleKey =>
    decide (k.line ≠ s.place.line) || decide (1024 < s.place.index - k.index)
  if s.keys.any fun k => stale k && k.needed then .error .malformed
  else .ok { s with keys := s.keys.filter fun k => !stale k }

/-- The scan without the possible key in the innermost brackets. -/
def dropKey (s : Scan) : Except Fault Scan :=
  if s.keys.any fun k => k.level == s.level && k.needed then .error .malformed
  else .ok { s with keys := s.keys.filter fun k => k.level != s.level }

/-- The scan with a possible key at its place. -/
def saveKey (s : Scan) : Except Fault Scan := do
  if s.mayStartKey then
    let key : PossibleKey :=
      { level := s.level
        number := s.tokens.length
        needed := s.level == 0 && decide (s.indent = s.place.column)
        index := s.place.index
        line := s.place.line
        column := s.place.column }
    let s ← s.dropKey
    return { s with keys := key :: s.keys }
  else return s

/-- Ends the collections that are indented more deeply than a column. -/
def unwindTo (column : Int) : List Int → Scan → Scan
  | [], s => s
  | outer :: more, s =>
    if column < s.indent then
      unwindTo column more { s.emit .blockEnd with indent := outer, indents := more }
    else s

/-- Ends the collections that are indented more deeply than a column.  Inside of brackets
indentation does not count. -/
def unwind (s : Scan) (column : Int) : Scan :=
  if s.level = 0 then unwindTo column s.indents s else s

/-- The scan inside a collection at a column, and whether that is a new one. -/
def indentAt (s : Scan) (column : Int) : Bool × Scan :=
  if s.indent < column then (true, { s with indent := column, indents := s.indent :: s.indents })
  else (false, s)

/-- The scan behind a token of some characters. -/
def take (s : Scan) (n : Nat) (t : Token) : Scan := { s.emit t with place := s.place.forward n }

/-! ### One token -/

/-- The scan behind a mark between documents or a directive. -/
def outermost (s : Scan) : Except Fault Scan := do
  let s ← (s.unwind (-1)).dropKey
  return { s with mayStartKey := false }

/-- The scan behind an opening bracket. -/
def openFlow (s : Scan) (t : Token) : Except Fault Scan := do
  let s ← s.saveKey
  return { s.take 1 t with level := s.level + 1, mayStartKey := true }

/-- The scan behind a closing bracket. -/
def closeFlow (s : Scan) (t : Token) : Except Fault Scan := do
  let s ← s.dropKey
  if s.level = 0 then .error .malformed
  return { s.take 1 t with level := s.level - 1, mayStartKey := false }

/-- The scan behind a comma. -/
def separate (s : Scan) : Except Fault Scan := do
  let s ← { s with mayStartKey := true : Scan }.dropKey
  return s.take 1 .comma

/-- The scan with a collection started at its place, if none is open there. -/
def startBlock (s : Scan) (t : Token) : Except Fault Scan :=
  if s.level = 0 then
    if s.mayStartKey then
      let (isNew, s) := s.indentAt s.place.column
      .ok (if isNew then s.emit t else s)
    else .error .malformed
  else .ok s

/-- The scan behind the hyphen of an item. -/
def item (s : Scan) : Except Fault Scan := do
  let s ← s.startBlock .blockSequence
  let s ← { s with mayStartKey := true : Scan }.dropKey
  return s.take 1 .hyphen

/-- The scan behind the question mark of a key. -/
def markKey (s : Scan) : Except Fault Scan := do
  let s ← s.startBlock .blockMapping
  let s ← { s with mayStartKey := s.level == 0 : Scan }.dropKey
  return s.take 1 .key

/-- The scan behind the colon of a value.  If a key may have started in the same brackets, it did.
-/
def markValue (s : Scan) : Except Fault Scan := do
  match s.keys.find? fun k => k.level == s.level with
  | some k =>
    let s := { s with keys := s.keys.filter fun k => k.level != s.level }.insert k.number .key
    let s := if s.level = 0 then
        let (isNew, s) := s.indentAt k.column
        if isNew then s.insert k.number .blockMapping else s
      else s
    return { s.take 1 .value with mayStartKey := false }
  | none =>
    let s ← s.startBlock .blockMapping
    let s ← { s with mayStartKey := s.level == 0 : Scan }.dropKey
    return s.take 1 .value

/-- The scan behind a token that may be a key, read by a function. -/
def keyable (s : Scan) (read : Cursor → Except Fault (Token × Cursor)) : Except Fault Scan := do
  let s ← s.saveKey
  let (t, c) ← read s.place
  return { s.emit t with place := c, mayStartKey := false }

/-- The scan behind a block of lines. -/
def blockScalar (s : Scan) : Except Fault Scan := do
  let s ← { s with mayStartKey := true : Scan }.dropKey
  let (t, c) ← block s.indent s.place
  return { s.emit (.scalar t false) with place := c }

/-- The scan behind a plain scalar. -/
def plainScalar (s : Scan) : Except Fault Scan := do
  let s ← s.saveKey
  let (t, broken, c) := plain (s.level != 0) (s.indent + 1) s.place
  return { s.emit (.scalar t true) with place := c, mayStartKey := broken }

/-- Whether a plain scalar may start at a place. -/
def startsPlain (c : Cursor) (inFlow : Bool) : Bool :=
  let x := c.peek
  !(isWideGap x || "-?:,[]\x7b\x7d#&*!|>'\"%@\x60".toList.contains x) ||
    (!isWideGap (c.peek 1) && (x == '-' || (!inFlow && (x == '?' || x == ':'))))

/-- The scan behind the token at its place. -/
def fetch (s : Scan) : Except Fault Scan :=
  let c := s.place
  let x := c.peek
  let inFlow := s.level != 0
  let marks := inFlow || isWideGap (c.peek 1)
  if x == '%' && c.column == 0 then do
    let s ← s.outermost
    let (t, c) ← heading s.place
    return { s.emit t with place := c }
  else if c.column == 0 && c.atSeparator then do
    let s ← s.outermost
    return s.take 3 (if x == '-' then .documentStart else .documentEnd)
  else if x == '[' then s.openFlow .flowSequence
  else if x == '\x7b' then s.openFlow .flowMapping
  else if x == ']' then s.closeFlow .flowSequenceEnd
  else if x == '\x7d' then s.closeFlow .flowMappingEnd
  else if x == ',' then s.separate
  else if x == '-' && isWideGap (c.peek 1) then s.item
  else if x == '?' && marks then s.markKey
  else if x == ':' && marks then s.markValue
  else if x == '*' then s.keyable fun c => (anchorName c).map fun (n, c) => (.alias n, c)
  else if x == '&' then s.keyable fun c => (anchorName c).map fun (n, c) => (.anchor n, c)
  else if x == '!' then s.keyable tag
  else if (x == '|' || x == '>') && !inFlow then s.blockScalar
  else if x == '\'' || x == '"' then
    s.keyable fun c => (quoted c).map fun (t, c) => (.scalar t false, c)
  else if startsPlain c inFlow then s.plainScalar
  else .error .malformed

/-- All tokens from the place of a scan on; `fuel` bounds their number. -/
def run : Nat → Scan → Except Fault (List Token)
  | 0, _ => .error .malformed
  | fuel + 1, s => do
    let s ← (s.skipGaps (s.place.rest.length + 1)).dropStale
    let s := s.unwind s.place.column
    if s.place.rest.isEmpty then
      let s ← (s.unwind (-1)).dropKey
      return s.tokens
    else run fuel (← s.fetch)

end Scan

/-- The tokens of a document.  Every token takes at least one character, so the number of characters
is fuel enough. -/
def tokens (t : Text) : Except Fault (List Token) :=
  if isClean t then
    let start : Cursor := ⟨t, 0, 0, 0⟩
    Scan.run (t.length + 1) { place := if start.peek.toNat = 0xFEFF then start.next else start }
  else .error .malformed

end Pagewright.Yaml
