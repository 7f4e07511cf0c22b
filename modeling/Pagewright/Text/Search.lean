import Pagewright.Text.Basic

/-! # Searching, cutting and filling texts

Main definitions: `indexOf?`, `countOf`, `splitAtMost`, `wordsAtMost`, `lines`, `replaceAtMost`,
`center`, `padLeft`, `padRight`, `zeroFilled`. -/

namespace Pagewright.Text

/-- The offset of the first occurrence of a text. -/
def indexOf? (needle t : Text) : Option Nat := (cutAt? needle t).map fun (before, _) => before.length

/-- The offset of the last occurrence of a text. -/
def lastIndexOf? (needle t : Text) : Option Nat :=
  (cutAtLast? needle t).map fun (before, _) => before.length

/-- The number of occurrences of a text that do not overlap. -/
def countOf (needle t : Text) : Nat :=
  if needle.isEmpty then t.length + 1 else (splitOn needle t).length - 1

/-- The pieces of a text between at most `most` occurrences of a non-empty separator, from the
left. -/
def splitAtMost (sep : Text) : Nat → Text → List Text
  | 0, t => [t]
  | n + 1, t =>
    match cutAt? sep t with
    | some (before, after) => before :: splitAtMost sep n after
    | none => [t]

/-- The pieces of a text between at most `most` occurrences of a non-empty separator, from the
right. -/
def splitAtMostRight (sep : Text) (most : Nat) (t : Text) : List Text :=
  ((splitAtMost sep.reverse most t.reverse).map List.reverse).reverse

/-- At most `most` words of a text and the rest behind them. -/
def wordsAtMost : Nat → Text → List Text
  | 0, t =>
    let r := stripLeft t
    if r.isEmpty then [] else [r]
  | n + 1, t =>
    let r := stripLeft t
    if r.isEmpty then []
    else r.takeWhile (fun c => !isSpace c) :: wordsAtMost n (r.dropWhile fun c => !isSpace c)

/-- At most `most` words from the end of a text and the rest in front of them. -/
def wordsAtMostRight (most : Nat) (t : Text) : List Text :=
  ((wordsAtMost most t.reverse).map List.reverse).reverse

/-- A text with at most `most` occurrences of a text replaced. -/
def replaceAtMost (old new : Text) (most : Nat) (t : Text) : Text :=
  if old.isEmpty then
    -- An empty text occurs in front of every character and at the end.
    (t.zipIdx.flatMap fun (c, i) => if i < most then new ++ [c] else [c]) ++
      (if t.length < most then new else [])
  else join new (splitAtMost old most t)

/-- Whether a character ends a line. -/
def isLineEnd (c : Char) : Bool :=
  c == '\n' || c == '\r' || c == '\x0b' || c == '\x0c' || c == '\x1c' || c == '\x1d' ||
    c == '\x1e' || c.toNat == 0x85 || c.toNat == 0x2028 || c.toNat == 0x2029

/-- The lines of a text, each with the characters that end it. -/
def linesWithEnds : Text → List (Text × Text)
  | [] => []
  | '\r' :: '\n' :: r => ([], ['\r', '\n']) :: linesWithEnds r
  | c :: r =>
    if isLineEnd c then ([], [c]) :: linesWithEnds r
    else
      match linesWithEnds r with
      | [] => [([c], [])]
      | (line, ending) :: more => (c :: line, ending) :: more

/-- The lines of a text, with or without their ends. -/
def lines (keepEnds : Bool) (t : Text) : List Text :=
  (linesWithEnds t).map fun (line, ending) => if keepEnds then line ++ ending else line

/-! ### Filling -/

/-- A text filled on the left up to a width. -/
def padLeft (fill : Char) (width : Nat) (t : Text) : Text :=
  List.replicate (width - t.length) fill ++ t

/-- A text filled on the right up to a width. -/
def padRight (fill : Char) (width : Nat) (t : Text) : Text :=
  t ++ List.replicate (width - t.length) fill

/-- A text filled on both sides up to a width; an odd number of fill characters leaves one more on
the left when the width is odd too, and else on the right. -/
def center (fill : Char) (width : Nat) (t : Text) : Text :=
  let missing := width - t.length
  let left := missing / 2 + (if missing % 2 = 1 ∧ width % 2 = 1 then 1 else 0)
  List.replicate left fill ++ t ++ List.replicate (missing - left) fill

/-- A text filled with zeros behind its sign. -/
def zeroFilled (width : Nat) (t : Text) : Text :=
  match t with
  | c :: r => if c = '+' ∨ c = '-' then c :: padLeft '0' (width - 1) r else padLeft '0' width t
  | [] => padLeft '0' width t

/-- A text with tabs replaced by blanks up to the next multiple of a size; `column` is the column
at which it starts. -/
def expandTabs (size : Nat) : Nat → Text → Text
  | _, [] => []
  | column, '\t' :: r =>
    let n := if size = 0 then 0 else size - column % size
    List.replicate n ' ' ++ expandTabs size (column + n) r
  | column, c :: r => c :: expandTabs size (if c = '\n' ∨ c = '\r' then 0 else column + 1) r

end Pagewright.Text

/-! ## Cutting and wrapping texts

Main definitions: `truncated` (a text cut to a length, with an ending), `indented`, `titled`
(words in title case), `wrapped` (lines of a width). -/

namespace Pagewright.Text

/-- A text cut to a length with an ending in place of the rest, at a word unless `inWords`. -/
def truncated (length : Nat) (inWords : Bool) (ending : Text) (t : Text) : Text :=
  let kept := t.take (length - ending.length)
  if inWords then kept ++ ending
  else (match cutAtLast? " " kept with
    | some (before, _) => before
    | none => kept) ++ ending

/-- A text with its lines indented: the first one only if asked for, and empty ones only if asked
for. -/
def indented (margin : Text) (firstToo blankToo : Bool) (t : Text) : Text :=
  let ls := lines false (t ++ ['\n'])
  let body :=
    if blankToo then join ('\n' :: margin) ls
    else match ls with
      | [] => []
      | l :: more =>
        join ['\n'] (l :: more.map fun m => if m.isEmpty then m else margin ++ m)
  if firstToo then margin ++ body else body

/-- Whether a character stands between words of a title. -/
def isTitleBreak (c : Char) : Bool := isSpace c || "-(\x7b[<".toList.contains c

/-- A text with the first letter behind every break in upper case and the others in lower case;
`word` is the word in progress, reversed. -/
def titledFrom (word : Text) : Text → Text
  | [] => finish word
  | c :: r => if isTitleBreak c then finish word ++ c :: titledFrom [] r else titledFrom (c :: word) r
where
  finish (word : Text) : Text :=
    match word.reverse with
    | [] => []
    | c :: r => upperForm c ++ lower r

/-- A text with its words in title case; breaks are spaces, hyphens and opening brackets. -/
def titled (t : Text) : Text := titledFrom [] t

/-! ### Wrapping -/

/-- A text as alternating stretches of blanks and of other characters. -/
def stretches : Text → List Text
  | [] => []
  | c :: r =>
    match stretches r with
    | (d :: w) :: more =>
      if (c == ' ') == (d == ' ') then (c :: d :: w) :: more else [c] :: (d :: w) :: more
    | more => [c] :: more

/-- A stretch cut behind the hyphens inside it. -/
def hyphenParts : Text → List Text
  | [] => []
  | [c] => [[c]]
  | c :: d :: r =>
    match hyphenParts (d :: r) with
    | w :: more =>
      if c == '-' && isAlpha d then [c] :: w :: more else (c :: w) :: more
    | [] => [[c]]

/-- Lines of at most `width` characters made of stretches; `line` is the line in progress. -/
def fillLines (width : Nat) (breakLong : Bool) : Nat → Text → List Text → List Text
  | 0, line, ss => [line ++ ss.flatten]
  | _ + 1, line, [] => if (stripRight line).isEmpty then [] else [stripRight line]
  | fuel + 1, line, s :: ss =>
    if line.isEmpty && s.all (· == ' ') then fillLines width breakLong fuel [] ss
    else if line.length + s.length ≤ width then fillLines width breakLong fuel (line ++ s) ss
    else if width < s.length && breakLong then
      let room := width - line.length
      let room := if room = 0 then 1 else room
      if width ≤ line.length then
        stripRight line :: fillLines width breakLong fuel [] (s :: ss)
      else
        stripRight (line ++ s.take room) :: fillLines width breakLong fuel [] (s.drop room :: ss)
    else if line.isEmpty then s :: fillLines width breakLong fuel [] ss
    else stripRight line :: fillLines width breakLong fuel [] (s :: ss)

/-- A text without line breaks as lines of a width. -/
def wrapped (width : Nat) (breakLong breakHyphens : Bool) (t : Text) : List Text :=
  let t := (expandTabs 8 0 t).map fun c => if isSpace c then ' ' else c
  let parts := (stretches t).flatMap fun s => if breakHyphens then hyphenParts s else [s]
  fillLines width breakLong (2 * t.length + 2) [] parts

end Pagewright.Text
