import Pagewright.Template.Token
import Pagewright.Text.Scan

/-! # From text to tokens

Outside tags the reader looks for the first opening delimiter: of a raw stretch, an output
expression, a comment or a statement.  A hyphen beside a delimiter drops the white space next to
it.  Inside a tag the longest number, name, string or operator is taken at each place, and the
closing delimiter counts only where all brackets are closed.

Main definitions: `Cursor` (a place in a template), `Opening`, `scan`, `tokenize` (the tokens of
a template), `tokenizeExpression` (the tokens of a lone expression). -/

namespace Pagewright.Template

open Text

/-- A place in a template: the offset, the line, the character before, whether the piece read last
ended a line, and the text that follows. -/
structure Cursor where
  offset : Nat
  line : Nat
  before : Option Char
  lineStart : Bool
  rest : Text

/-- The place `n` characters further on. -/
def Cursor.advance (c : Cursor) (n : Nat) : Cursor :=
  let taken := c.rest.take n
  ⟨c.offset + n, c.line + taken.count '\n', taken.getLast?.or c.before,
    taken.getLast? == some '\n', c.rest.drop n⟩

/-! ### Openings and closings -/

/-- What a delimiter opens. -/
inductive Opening where
  | raw
  | comment
  | tag
  | output
  deriving DecidableEq, Repr

/-- The mark beside a delimiter: a hyphen drops white space, a plus keeps it. -/
inductive Mark where
  | hyphen
  | plus
  | plain
  deriving DecidableEq, Repr

/-- The mark at the beginning of a text, and the text behind it. -/
def mark : Text → Mark × Text
  | '-' :: r => (.hyphen, r)
  | '+' :: r => (.plus, r)
  | t => (.plain, t)

/-- The text behind the closing delimiter `stop`: after a hyphen the white space that follows is
passed over, with `trim` one line break. -/
def closing? (stop : Text) (plus trim : Bool) (t : Text) : Option Text :=
  match t with
  | '-' :: r => (dropLead? stop r).map stripLeft <|> direct t
  | '+' :: r => (if plus then dropLead? stop r else none) <|> direct t
  | _ => direct t
where
  /-- The text behind the delimiter itself. -/
  direct (t : Text) : Option Text :=
    (dropLead? stop t).map fun r => if trim then (dropLead? "\n" r).getD r else r

/-- The delimiter that closes statements. -/
def tagStop : Text := "%\x7d"

/-- The tag that opens a raw stretch, with its mark. -/
def rawOpening? : Recogniser Mark := fun t => do
  let r ← dropLead? "\x7b%" t
  let (m, r) := mark r
  let r ← dropLead? "raw" (stripLeft r)
  let r := stripLeft r
  let r ← (match r with
    | '-' :: r' => (dropLead? tagStop r').map stripLeft
    | _ => dropLead? tagStop r)
  return (m, t.length - r.length)

/-- The opening delimiters in the order in which they are tried: the longest first. -/
def openings (d : Dialect) : List (Opening × Text) :=
  let output := (Opening.output, d.delimiters.start)
  let others := [(Opening.comment, ("\x7b#" : Text)), (Opening.tag, ("\x7b%" : Text))]
  if 2 ≤ d.delimiters.start.length then output :: others else others ++ [output]

/-- An opening delimiter with its mark. -/
def opening? (d : Dialect) : Recogniser (Opening × Mark) := fun t =>
  match rawOpening? t with
  | some (m, n) => some ((.raw, m), n)
  | none => (openings d).findSome? fun (o, start) =>
      (dropLead? start t).map fun r =>
        let (m, _) := mark r
        ((o, m), start.length + (if m = .plain then 0 else 1))

/-- Data in front of a delimiter with a mark: what is left after white space is dropped. -/
def trimmedData (d : Dialect) (output : Bool) (m : Mark) (lineStart : Bool) (t : Text) : Text :=
  match m with
  | .hyphen => stripRight t
  | .plus => t
  | .plain =>
    if d.lstripBlocks && !output then
      let tail := (t.reverse.takeWhile (· != '\n')).reverse
      if (tail.length < t.length || lineStart) && isBlank tail then t.take (t.length - tail.length)
      else t
    else t

/-! ### Inside tags -/

/-- The operators, longest first. -/
def operators : List Text :=
  ["//", "**", "==", "!=", ">=", "<=", "+", "-", "/", "*", "%", "~", "[", "]", "(", ")", "\x7b",
    "\x7d", ">", "<", "=", ".", ":", "|", ",", ";"]

/-- The length of a run of digits with single underscores between them. -/
def digitRunLength (p : Char → Bool) : Text → Nat
  | [] => 0
  | [c] => if p c then 1 else 0
  | c :: '_' :: r =>
    if p c then
      match r with
      | e :: _ => if p e then 2 + digitRunLength p r else 1
      | [] => 1
    else 0
  | c :: r => if p c then 1 + digitRunLength p r else 0

/-- Digits after a leading part, each after at most one underscore. -/
def moreDigits (p : Char → Bool) : Text → Nat
  | '_' :: c :: r => if p c then 2 + moreDigits p r else 0
  | c :: r => if p c then 1 + moreDigits p r else 0
  | [] => 0

/-- The length of an exponent: the letter e, a sign and digits; zero if there is none. -/
def exponentLength : Text → Nat
  | e :: r =>
    if e = 'e' ∨ e = 'E' then
      let signed := match r with
        | '+' :: r' => (1, r')
        | '-' :: r' => (1, r')
        | _ => (0, r)
      let n := digitRunLength isDecimal signed.2
      if n = 0 then 0 else 1 + signed.1 + n
    else 0
  | [] => 0

/-- The length of a decimal with a fraction or an exponent; zero if there is none. -/
def decimalLength (before : Option Char) (t : Text) : Nat :=
  if before = some '.' then 0
  else
    let whole := digitRunLength isDecimal t
    if whole = 0 then 0
    else
      let r := t.drop whole
      let fraction := match r with
        | '.' :: r' =>
          let n := digitRunLength isDecimal r'
          if n = 0 then 0 else n + 1
        | _ => 0
      let exponent := exponentLength (r.drop fraction)
      if fraction = 0 ∧ exponent = 0 then 0 else whole + fraction + exponent

/-- The length of an integer literal, and its base. -/
def integerLength (t : Text) : Nat × Nat :=
  let based := fun (base : Nat) (p : Char → Bool) (r : Text) => (moreDigits p r + 2, base)
  let hex := fun c : Char => (Number.digitOf? c).any (· < 16)
  match t with
  | '0' :: m :: r =>
    let zeros := (1 + moreDigits (· == '0') (m :: r), 10)
    let chosen :=
      if m = 'b' ∨ m = 'B' then based 2 (fun c => c == '0' || c == '1') r
      else if m = 'o' ∨ m = 'O' then based 8 (fun c => '0' ≤ c && c ≤ '7') r
      else if m = 'x' ∨ m = 'X' then based 16 hex r
      else zeros
    if chosen.1 = 2 ∧ chosen.2 ≠ 10 then zeros else chosen
  | ['0'] => (1, 10)
  | c :: r => if '1' ≤ c ∧ c ≤ '9' then (1 + moreDigits isDecimal r, 10) else (0, 10)
  | [] => (0, 10)

/-- Whether a character may stand in a name inside a tag. -/
def isNameLike (c : Char) : Bool := isWord c || isNamePart c

/-- The length of the inside of a string up to its closing quote. -/
def stringLength? (q : Char) : Text → Option Nat
  | [] => none
  | '\\' :: _ :: r => (stringLength? q r).map (· + 2)
  | c :: r => if c = q then some 0 else if c = '\\' then none else (stringLength? q r).map (· + 1)

/-- The character with a code point; nothing for numbers beyond the last one. -/
def codePoint? (n : Nat) : Option Char :=
  if n < 0x110000 then some (if 0xD800 ≤ n ∧ n < 0xE000 then '\uFFFD' else Char.ofNat n) else none

/-- The value of `n` hexadecimal digits at the beginning of a text. -/
def hexValue? (n : Nat) (t : Text) : Option Nat :=
  let ds := t.take n
  if ds.length < n then none
  else ds.foldl (fun acc c => do
    let acc ← acc
    let d ← if c.toNat < 128 then Number.digitOf? c else none
    if d < 16 then some (acc * 16 + d) else none) (some 0)

/-- A text in which every character beyond ASCII is written by its code. -/
def escapeNonAscii (t : Text) : Text :=
  t.flatMap fun c =>
    if c.toNat < 0x80 then [c]
    else if c.toNat < 0x100 then "\\x" ++ hexDigits 2 c.toNat
    else if c.toNat < 0x10000 then "\\u" ++ hexDigits 4 c.toNat
    else "\\U" ++ hexDigits 8 c.toNat

/-- Whether a character is an octal digit. -/
def isOctal (c : Char) : Bool := '0' ≤ c && c ≤ '7'

/-- The value of the escapes of a string: the text, or what is wrong with an escape. -/
def unescapeFrom : Nat → Text → Except Text Text
  | _, [] => .ok []
  | k + 1, _ :: r => unescapeFrom k r
  | 0, c :: r =>
    if c ≠ '\\' then (unescapeFrom 0 r).map (c :: ·)
    else
      let simple := fun (d : Char) => (unescapeFrom 1 r).map (d :: ·)
      let coded := fun (n : Nat) (wording : Text) =>
        match hexValue? n (r.drop 1) with
        | none => .error wording
        | some v => match codePoint? v with
          | none => .error "illegal Unicode character"
          | some d => (unescapeFrom (n + 1) r).map (d :: ·)
      match r with
      | [] => .error "\\ at end of string"
      | e :: _ =>
        match e with
        | '\n' => unescapeFrom 1 r
        | '\\' => simple '\\'
        | '\'' => simple '\''
        | '"' => simple '"'
        | 'a' => simple (Char.ofNat 7)
        | 'b' => simple (Char.ofNat 8)
        | 'f' => simple (Char.ofNat 12)
        | 'n' => simple '\n'
        | 'r' => simple '\r'
        | 't' => simple '\t'
        | 'v' => simple (Char.ofNat 11)
        | 'x' => coded 2 "truncated \\xXX escape"
        | 'u' => coded 4 "truncated \\uXXXX escape"
        | 'U' => coded 8 "truncated \\UXXXXXXXX escape"
        | 'N' =>
          .error (if (r.drop 1).head? = some '\x7b' then "unknown Unicode character name"
            else "malformed \\N character escape")
        | _ =>
          if isOctal e then
            let ds := (r.take 3).takeWhile isOctal
            let v := ds.foldl (fun acc d => acc * 8 + (d.toNat - 48)) 0
            (unescapeFrom ds.length r).map (Char.ofNat v :: ·)
          else (unescapeFrom 1 r).map fun t => '\\' :: e :: t

/-- The value of the inside of a string literal. -/
def unescape (t : Text) : Except Text Text := unescapeFrom 0 (escapeNonAscii t)

/-- Whether a text is a name: it starts as one and goes on as one. -/
def isIdentifier : Text → Bool
  | [] => false
  | c :: r => isNameStart c && r.all isNamePart

/-- The token at the beginning of a text inside a tag, white space aside, and its length. -/
def lexeme? (c : Cursor) : Option (Lexeme × Nat) :=
  let t := c.rest
  let decimal := decimalLength c.before t
  if 0 < decimal then
    some (.decimal ((Number.readFloat? ((t.take decimal).filter (· != '_'))).getD 0.0), decimal)
  else
    let (n, base) := integerLength t
    if 0 < n then
      some (.integer ((Number.readInt? (t.take n) base).getD 0).natAbs, n)
    else
      let word := t.takeWhile isNameLike
      if !word.isEmpty then
        some (if isIdentifier word then .name word
          else .broken "Invalid character in identifier", word.length)
      else
        let string := match t with
          | q :: r =>
            if q = '\'' ∨ q = '"' then
              (stringLength? q r).map fun n =>
                (match unescape (r.take n) with
                  | .ok v => Lexeme.string v
                  | .error wording => .broken wording, n + 2)
            else none
          | [] => none
        string <|> ((operators.find? fun op => op.isPrefixOf t).map fun op =>
          (.operator op, op.length))

/-- The bracket that has to close an opening bracket. -/
def partner? (symbol : Text) : Option Text :=
  if symbol = "(" then some ")"
  else if symbol = "[" then some "]"
  else if symbol = "\x7b" then some "\x7d"
  else none

/-- The open brackets after an operator, or what is wrong with a closing bracket. -/
def track (symbol : Text) (opened : List Text) : Except Text (List Text) :=
  match partner? symbol with
  | some closer => .ok (closer :: opened)
  | none =>
    if symbol = ")" ∨ symbol = "]" ∨ symbol = "\x7d" then
      match opened with
      | [] => .error ("unexpected '" ++ symbol ++ "'")
      | closer :: rest =>
        if closer = symbol then .ok rest
        else .error ("unexpected '" ++ symbol ++ "', expected '" ++ closer ++ "'")
    else .ok opened

/-! ### The whole template -/

/-- Where the reader is. -/
inductive Mode where
  | outside
  | comment
  | raw
  /-- Inside an output expression or a statement, with the brackets that are open. -/
  | inside (output : Bool) (opened : List Text)

/-- The end of a comment: its length up to and with the closing delimiter. -/
def commentEnd? (d : Dialect) : Recogniser Unit := fun t =>
  (closing? "#\x7d" true d.trimBlocks t).map fun r => ((), t.length - r.length)

/-- The tag that closes a raw stretch, with its mark. -/
def rawEnd? (d : Dialect) : Recogniser Mark := fun t => do
  let r ← dropLead? "\x7b%" t
  let (m, r) := mark r
  let r ← dropLead? "endraw" (stripLeft r)
  let r ← closing? tagStop true d.trimBlocks (stripLeft r)
  return (m, t.length - r.length)

/-- A data token, if there is any data. -/
def dataToken (line : Nat) (t : Text) : List Token := if t.isEmpty then [] else [⟨line, .data t⟩]

/-- The tokens from a place on; `fuel` bounds the number of steps, each of which reads at least
one character. -/
def scan (d : Dialect) : Nat → Mode → Cursor → List Token
  | 0, _, c => [⟨c.line, .eof⟩]
  | fuel + 1, mode, c =>
    if c.rest.isEmpty then [⟨c.line, .eof⟩]
    else
      match mode with
      | .outside =>
        match firstHit? (opening? d) c.rest with
        | none => dataToken c.line c.rest ++ scan d fuel .outside (c.advance c.rest.length)
        | some (i, (o, m), n) =>
          let data := trimmedData d (o = .output) m c.lineStart (c.rest.take i)
          let line := (c.advance i).line
          let next := c.advance (i + n)
          dataToken c.line data ++
            match o with
            | .raw => scan d fuel .raw next
            | .comment => scan d fuel .comment next
            | .tag => ⟨line, .tagOpen⟩ :: scan d fuel (.inside false []) next
            | .output => ⟨line, .outputOpen⟩ :: scan d fuel (.inside true []) next
      | .comment =>
        match firstHit? (commentEnd? d) c.rest with
        | none => [⟨c.line, .broken "Missing end of comment tag"⟩]
        | some (i, _, n) => scan d fuel .outside (c.advance (i + n))
      | .raw =>
        match firstHit? (rawEnd? d) c.rest with
        | none => [⟨c.line, .broken "Missing end of raw directive"⟩]
        | some (i, m, n) =>
          dataToken c.line (trimmedData d false m c.lineStart (c.rest.take i)) ++
            scan d fuel .outside (c.advance (i + n))
      | .inside output opened =>
        let close :=
          if opened.isEmpty then
            if output then closing? d.delimiters.stop false false c.rest
            else closing? tagStop true d.trimBlocks c.rest
          else none
        match close with
        | some r =>
          ⟨c.line, if output then .outputClose else .tagClose⟩ ::
            scan d fuel .outside (c.advance (c.rest.length - r.length))
        | none =>
          let blanks := runLength isSpace c.rest
          if 0 < blanks then scan d fuel mode (c.advance blanks)
          else
            match lexeme? c with
            | some (.broken wording, _) => [⟨c.line, .broken wording⟩]
            | some (.operator symbol, n) =>
              match track symbol opened with
              | .error wording => [⟨c.line, .broken wording⟩]
              | .ok opened =>
                ⟨c.line, .operator symbol⟩ :: scan d fuel (.inside output opened) (c.advance n)
            | some (l, n) => ⟨c.line, l⟩ :: scan d fuel mode (c.advance n)
            | none =>
              [⟨c.line, .broken ("unexpected char " ++ quoted (c.rest.take 1) ++ " at " ++
                ofNat c.offset)⟩]

/-- A text with every kind of line break written as one line feed. -/
def normalizeLines : Text → Text
  | [] => []
  | '\r' :: '\n' :: r => '\n' :: normalizeLines r
  | c :: r => (if c = '\r' then '\n' else c) :: normalizeLines r

/-- The text that is read: with line feeds only, and without the last one if the dialect drops
it. -/
def sourceText (d : Dialect) (t : Text) : Text :=
  let t := normalizeLines t
  if d.keepTrailingNewline then t else (dropTail? "\n" t).getD t

/-- Tokens whose end is placed on the line of the last token before it; `line` is the line of the
token before the list. -/
def placeEnd (line : Nat) : List Token → List Token
  | [] => [⟨line, .eof⟩]
  | t :: ts =>
    match t.lexeme with
    | .eof => [⟨line, .eof⟩]
    | _ => t :: placeEnd t.line ts

/-- The tokens of a template. -/
def tokenize (d : Dialect) (t : Text) : List Token :=
  let source := sourceText d t
  placeEnd 1 (scan d (source.length + 1) .outside ⟨0, 1, none, true, source⟩)

/-- The tokens of an expression without delimiters. -/
def tokenizeExpression (d : Dialect) (t : Text) : List Token :=
  let source := sourceText d t
  placeEnd 1 (scan d (source.length + 1) (.inside true []) ⟨0, 1, none, true, source⟩)

end Pagewright.Template
