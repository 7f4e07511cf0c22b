import Pagewright.Number.Read
import Pagewright.Value.Compare

/-! # Reading JSON

A reader for JSON documents that keeps the order of the entries of objects and tells integers
from decimals.  Of two entries with one key the later value stays, in the earlier place.  A
document that is refused is refused at a place, with the first thing that was missed there.

Main definitions: `ReadError` and its `message`, `read`. -/

namespace Pagewright.Json

open Text

/-- What a reader missed. -/
inductive Missed where
  | value
  | propertyName
  | colon
  | comma
  | end
  | stringEnd
  | controlCharacter
  | escape
  | unicodeEscape
  | plainStart
  deriving DecidableEq, Repr

/-- The wording for what a reader missed. -/
def Missed.wording : Missed → Text
  | .value => "Expecting value"
  | .propertyName => "Expecting property name enclosed in double quotes"
  | .colon => "Expecting ':' delimiter"
  | .comma => "Expecting ',' delimiter"
  | .end => "Extra data"
  | .stringEnd => "Unterminated string starting at"
  | .controlCharacter => "Invalid control character at"
  | .escape => "Invalid \\escape"
  | .unicodeEscape => "Invalid \\uXXXX escape"
  | .plainStart => "Unexpected UTF-8 BOM (decode using utf-8-sig)"

/-- Why and where a document was refused. -/
structure ReadError where
  missed : Missed
  offset : Nat
  deriving DecidableEq, Repr

/-- The wording of a refusal, with the place in the document. -/
def ReadError.message (doc : Text) (e : ReadError) : Text :=
  let before := doc.take e.offset
  let line := before.count '\n' + 1
  let column := (before.reverse.takeWhile (· != '\n')).length + 1
  e.missed.wording ++ ": line " ++ ofNat line ++ " column " ++ ofNat column ++ " (char " ++
    ofNat e.offset ++ ")"

/-- A place in a document: its offset and what follows. -/
structure Place where
  offset : Nat
  rest : Text

/-- The place `n` characters further on. -/
def Place.skip (p : Place) (n : Nat) : Place := ⟨p.offset + n, p.rest.drop n⟩

/-- White space between the tokens of a document. -/
def isGap (c : Char) : Bool := c == ' ' || c == '\t' || c == '\n' || c == '\r'

/-- The place behind white space. -/
def Place.skipGap (p : Place) : Place := p.skip (p.rest.takeWhile isGap).length

/-- The value of four hexadecimal digits at the beginning of a text. -/
def hex4? (t : Text) : Option Nat :=
  match t with
  | a :: b :: c :: d :: _ =>
    [a, b, c, d].foldl (fun acc c => do
      let acc ← acc
      let d ← if c.toNat < 128 then Number.digitOf? c else none
      if d < 16 then some (acc * 16 + d) else none) (some 0)
  | _ => none

/-- The character with a code point, a replacement character for half of a pair. -/
def charOf (n : Nat) : Char := if 0xD800 ≤ n ∧ n < 0xE000 then '\uFFFD' else Char.ofNat n

/-- The characters of a string whose opening quote stands at `start`, from offset `pos` on, and
the place behind its closing quote. -/
def stringFrom (start : Nat) : Nat → Nat → Text → Except ReadError (Text × Place)
  | _, _, [] => .error ⟨.stringEnd, start⟩
  | pos, k + 1, _ :: r => stringFrom start (pos + 1) k r
  | pos, 0, c :: r =>
    if c = '"' then .ok ([], ⟨pos + 1, r⟩)
    else if c.toNat < 32 then .error ⟨.controlCharacter, pos⟩
    else if c ≠ '\\' then do
      let (t, p) ← stringFrom start (pos + 1) 0 r
      return (c :: t, p)
    else
      let simple := fun d : Char => do
        let (t, p) ← stringFrom start (pos + 1) 1 r
        return (d :: t, p)
      match r with
      | [] => .error ⟨.stringEnd, start⟩
      | e :: r' =>
        match e with
        | '"' => simple '"'
        | '\\' => simple '\\'
        | '/' => simple '/'
        | 'b' => simple (Char.ofNat 8)
        | 'f' => simple (Char.ofNat 12)
        | 'n' => simple '\n'
        | 'r' => simple '\r'
        | 't' => simple '\t'
        | 'u' =>
          match hex4? r' with
          | none => .error ⟨.unicodeEscape, pos + 1⟩
          | some high =>
            -- Two escapes in a row may be the halves of one character.
            let low? :=
              if 0xD800 ≤ high ∧ high < 0xDC00 then
                match r'.drop 4 with
                | '\\' :: 'u' :: r'' =>
                  match hex4? r'' with
                  | some low => if 0xDC00 ≤ low ∧ low < 0xE000 then some low else none
                  | none => none
                | _ => none
              else none
            match low? with
            | some low => do
              let (t, p) ← stringFrom start (pos + 1) 11 r
              return (Char.ofNat (0x10000 + (high - 0xD800) * 0x400 + (low - 0xDC00)) :: t, p)
            | none => do
              let (t, p) ← stringFrom start (pos + 1) 5 r
              return (charOf high :: t, p)
        | _ => .error ⟨.escape, pos⟩

/-- The number at the beginning of a text and how many characters it covers. -/
def number? (t : Text) : Option (Value × Nat) :=
  let (negative, body) := match t with
    | '-' :: r => (true, r)
    | _ => (false, t)
  let whole := match body with
    | '0' :: _ => ['0']
    | _ => body.takeWhile isAsciiDigit
  if whole.isEmpty then none
  else
    let rest := body.drop whole.length
    let fraction := match rest with
      | '.' :: r => r.takeWhile isAsciiDigit
      | _ => []
    let rest := if fraction.isEmpty then rest else rest.drop (fraction.length + 1)
    let (exponent, width) : Option Int × Nat := match rest with
      | e :: r =>
        if e = 'e' ∨ e = 'E' then
          let (neg, r', signWidth) : Bool × Text × Nat := match r with
            | '-' :: r' => (true, r', 1)
            | '+' :: r' => (false, r', 1)
            | _ => (false, r, 0)
          let ds := r'.takeWhile isAsciiDigit
          match natOfDigits? ds with
          | some n => (some (if neg then -(n : Int) else n), 1 + signWidth + ds.length)
          | none => (none, 0)
        else (none, 0)
      | [] => (none, 0)
    let length := t.length - rest.length + width
    let value := (natOfDigits? whole).getD 0
    if fraction.isEmpty ∧ exponent.isNone then
      some (.int (if negative then -(value : Int) else value), length)
    else
      let mantissa := (natOfDigits? (whole ++ fraction)).getD 0
      let x := Number.floatOfDecimal mantissa (exponent.getD 0 - fraction.length)
      some (.float (if negative then -x else x), length)

/-- The names that stand for a value. -/
def namedValues : List (Text × Value) :=
  [("null".toList, .none), ("true".toList, .bool true), ("false".toList, .bool false),
    ("NaN".toList, .float (0.0 / 0.0)), ("Infinity".toList, .float (1.0 / 0.0)),
    ("-Infinity".toList, .float (-1.0 / 0.0))]

/-- The named value at the beginning of a text. -/
def named? (t : Text) : Option (Value × Nat) :=
  (namedValues.find? fun (name, _) => name.isPrefixOf t).map fun (name, v) => (v, name.length)

mutual

/-- The value at a place and the place behind it; `fuel` bounds the nesting. -/
def readValue : Nat → Place → Except ReadError (Value × Place)
  | 0, p => .error ⟨.value, p.offset⟩
  | fuel + 1, p =>
    match p.rest with
    | '"' :: r => do
      let (t, p) ← stringFrom p.offset (p.offset + 1) 0 r
      return (.str t, p)
    | '[' :: _ =>
      let p := (p.skip 1).skipGap
      match p.rest with
      | ']' :: _ => .ok (.list [], p.skip 1)
      | _ => do
        let (xs, p) ← readItems fuel p
        return (.list xs, p)
    | '{' :: _ =>
      let p := (p.skip 1).skipGap
      match p.rest with
      | '}' :: _ => .ok (.dict [], p.skip 1)
      | _ => do
        let (es, p) ← readEntries fuel p
        return (.dict (Value.entriesOf es), p)
    | _ =>
      match named? p.rest <|> number? p.rest with
      | some (v, n) => .ok (v, p.skip n)
      | none => .error ⟨.value, p.offset⟩

/-- The items of an array from a place on, and the place behind its closing bracket. -/
def readItems : Nat → Place → Except ReadError (List Value × Place)
  | 0, p => .error ⟨.value, p.offset⟩
  | fuel + 1, p => do
    let (x, p) ← readValue fuel p
    let p := p.skipGap
    match p.rest with
    | ']' :: _ => return ([x], p.skip 1)
    | ',' :: _ =>
      let (xs, p) ← readItems fuel (p.skip 1).skipGap
      return (x :: xs, p)
    | _ => .error ⟨.comma, p.offset⟩

/-- The entries of an object from a place on, and the place behind its closing bracket. -/
def readEntries : Nat → Place → Except ReadError (List (Value × Value) × Place)
  | 0, p => .error ⟨.value, p.offset⟩
  | fuel + 1, p => do
    match p.rest with
    | '"' :: r =>
      let (k, p) ← stringFrom p.offset (p.offset + 1) 0 r
      let p := p.skipGap
      match p.rest with
      | ':' :: _ =>
        let (v, p) ← readValue fuel (p.skip 1).skipGap
        let p := p.skipGap
        match p.rest with
        | '}' :: _ => return ([(.str k, v)], p.skip 1)
        | ',' :: _ =>
          let (es, p) ← readEntries fuel (p.skip 1).skipGap
          return ((.str k, v) :: es, p)
        | _ => .error ⟨.comma, p.offset⟩
      | _ => .error ⟨.colon, p.offset⟩
    | _ => .error ⟨.propertyName, p.offset⟩

end

/-- The value of a whole document. -/
def read (doc : Text) : Except ReadError Value :=
  if doc.head? = some '\uFEFF' then .error ⟨.plainStart, 0⟩
  else do
    let (v, p) ← readValue (2 * doc.length + 4) (Place.skipGap ⟨0, doc⟩)
    let p := p.skipGap
    if p.rest.isEmpty then return v else .error ⟨.end, p.offset⟩

end Pagewright.Json
