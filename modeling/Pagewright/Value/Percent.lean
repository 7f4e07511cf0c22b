import Pagewright.Number.Fixed
import Pagewright.Value.Arithmetic

/-! # Percent formats

A format is a text in which a percent sign starts a conversion: an optional key in parentheses,
flags, a width, a precision and a letter.  The arguments of a format are the items of a tuple, or
a single value; a key looks its argument up in a mapping.

Main definitions: `Conversion`, `readConversion`, `percent` (a format applied to its
arguments). -/

namespace Pagewright.Value

open Text

/-- A width or a precision. -/
inductive Measure where
  | absent
  | given (n : Nat)
  /-- Taken from the arguments. -/
  | argument
  deriving DecidableEq, Repr

/-- A conversion of a format. -/
structure Conversion where
  key : Option Text := Option.none
  flags : List Char := []
  width : Measure := .absent
  precision : Measure := .absent
  letter : Char

/-- The text up to the parenthesis that closes `depth` open ones, and the rest behind it. -/
def keyOf : Nat → Text → Option (Text × Text)
  | _, [] => Option.none
  | depth, c :: r =>
    if c = ')' ∧ depth = 0 then some ([], r)
    else
      let depth := if c = '(' then depth + 1 else if c = ')' then depth - 1 else depth
      (keyOf depth r).map fun (k, rest) => (c :: k, rest)

/-- A width or precision at the beginning of a text. -/
def measureOf (t : Text) : Measure × Text :=
  match t with
  | '*' :: r => (.argument, r)
  | _ =>
    let ds := t.takeWhile isAsciiDigit
    if ds.isEmpty then (.absent, t) else (.given ((natOfDigits? ds).getD 0), t.drop ds.length)

/-- The conversion behind a percent sign, and the rest behind it. -/
def readConversion (t : Text) : Except Fault (Conversion × Text) := do
  let (key, t) ← match t with
    | '(' :: r => match keyOf 0 r with
      | some (k, rest) => pure (some k, rest)
      | Option.none => throw (.misuse "incomplete format key")
    | _ => pure (Option.none, t)
  let flags := t.takeWhile "#0- +".toList.contains
  let (width, t) := measureOf (t.drop flags.length)
  let (precision, t) := match t with
    | '.' :: r =>
      let (p, r) := measureOf r
      (if p = .absent then Measure.given 0 else p, r)
    | _ => (.absent, t)
  let t := match t with
    | c :: r => if "hlL".toList.contains c then r else t
    | [] => t
  match t with
  | letter :: r => return ({ key, flags, width, precision, letter }, r)
  | [] => throw (Fault.misuse "incomplete format")

/-! ### Written numbers -/

/-- A sign, what stands in front of the digits, and the digits. -/
structure Figure where
  sign : Text := []
  lead : Text := []
  digits : Text

/-- The sign of a number under the flags of a conversion. -/
def signOf (flags : List Char) (negative : Bool) : Text :=
  if negative then ['-'] else if flags.contains '+' then ['+']
  else if flags.contains ' ' then [' '] else []

/-- A figure filled up to a width. -/
def Figure.pad (f : Figure) (flags : List Char) (width : Nat) : Text :=
  let short := width - (f.sign.length + f.lead.length + f.digits.length)
  if flags.contains '-' then f.sign ++ f.lead ++ f.digits ++ List.replicate short ' '
  else if flags.contains '0' then f.sign ++ f.lead ++ List.replicate short '0' ++ f.digits
  else List.replicate short ' ' ++ f.sign ++ f.lead ++ f.digits

/-- A text filled with blanks up to a width. -/
def padText (flags : List Char) (width : Nat) (t : Text) : Text :=
  let fill := List.replicate (width - t.length) ' '
  if flags.contains '-' then t ++ fill else fill ++ t

/-- The integer part of a double. -/
def intOfFloat (x : Float) : Except Fault Int :=
  match Number.truncate? x with
  | some n => .ok n
  | Option.none =>
    .error (.misuse (if x.isNaN then "cannot convert float NaN to integer"
      else "cannot convert float infinity to integer"))

/-- A number as a double. -/
def floatOf? (v : Value) : Except Fault (Option Float) :=
  match v, v.int? with
  | .float x, _ => .ok (some x)
  | _, some n => do return some (← floatOfInt n)
  | _, _ => .ok Option.none

/-- The integer that a conversion shows. -/
def conversionInt (letter : Char) (v : Value) : Except Fault Int := do
  present v
  match v, v.int? with
  | _, some n => return n
  | .float x, _ =>
    if "oxX".toList.contains letter then
      throw (.misuse ("%" ++ [letter] ++ " format: an integer is required, not float"))
    else intOfFloat x
  | v, _ =>
    let wanted : Text :=
      if "oxX".toList.contains letter then "an integer" else "a real number"
    throw (.misuse ("%" ++ [letter] ++ " format: " ++ wanted ++ " is required, not " ++ v.typeName))

/-- An integer under a conversion. -/
def intFigure (c : Conversion) (precision : Option Nat) (n : Int) : Figure :=
  let (base, lead) : Nat × Text :=
    if c.letter = 'o' then (8, "0o") else if c.letter = 'x' then (16, "0x")
    else if c.letter = 'X' then (16, "0X") else (10, [])
  let ds := Nat.toDigits base n.natAbs
  let ds := if c.letter = 'X' then upper ds else ds
  let ds := List.replicate (precision.getD 0 - ds.length) '0' ++ ds
  ⟨signOf c.flags (n < 0), if c.flags.contains '#' then lead else [], ds⟩

/-- A double under a conversion. -/
def floatFigure (c : Conversion) (precision : Option Nat) (x : Float) : Figure :=
  let p := precision.getD 6
  let letter := c.letter.toLower
  let t := Number.unsigned (fun n d =>
    if letter = 'f' then Number.fixedOf n d p
    else if letter = 'e' then Number.scientificOf n d p
    else Number.generalOf (c.flags.contains '#') n d p) x
  ⟨signOf c.flags (Number.isNegative x && !x.isNaN), [], if c.letter.isUpper then upper t else t⟩

/-- The character that a value stands for. -/
def conversionChar (v : Value) : Except Fault Text :=
  match v.text?, v.int? with
  | some [c], _ => .ok [c]
  | _, some n =>
    if 0 ≤ n ∧ n < 0x110000 then .ok [Char.ofNat n.toNat]
    else .error (.misuse "%c arg not in range(0x110000)")
  | _, _ => .error (.misuse "%c requires int or char")

/-- A text in which characters outside ASCII are escaped. -/
def asciiOnly (t : Text) : Text :=
  t.flatMap fun c =>
    if c.toNat < 128 then [c]
    else if c.toNat < 0x100 then "\\x" ++ hexDigits 2 c.toNat
    else if c.toNat < 0x10000 then "\\u" ++ hexDigits 4 c.toNat
    else "\\U" ++ hexDigits 8 c.toNat

/-- A value under a conversion; `guard` is applied to texts that are put in. -/
def converted (guard : Text → Text) (c : Conversion) (width : Nat) (precision : Option Nat)
    (offset : Nat) (v : Value) : Except Fault Text := do
  let cut := fun t : Text => match precision with
    | some p => t.take p
    | Option.none => t
  if c.letter = 's' then return padText c.flags width (cut (guard v.text))
  else if c.letter = 'r' then return padText c.flags width (cut (guard v.shown))
  else if c.letter = 'a' then return padText c.flags width (cut (guard (asciiOnly v.shown)))
  else if "diuoxX".toList.contains c.letter then
    return (intFigure c precision (← conversionInt c.letter v)).pad c.flags width
  else if "eEfFgG".toList.contains c.letter then
    present v
    match ← floatOf? v with
    | some x => return (floatFigure c precision x).pad c.flags width
    | Option.none => throw (.misuse ("must be real number, not " ++ v.typeName))
  else if c.letter = 'c' then return padText c.flags width (← conversionChar v)
  else
    throw (.misuse ("unsupported format character '" ++ [c.letter] ++ "' (0x" ++
      Nat.toDigits 16 c.letter.toNat ++ ") at index " ++ ofNat offset))

/-! ### Formats -/

/-- The first of the arguments left. -/
def nextArgument : List Value → Except Fault (Value × List Value)
  | v :: vs => .ok (v, vs)
  | [] => .error (.misuse "not enough arguments for format string")

/-- A measure with the arguments left behind it. -/
def Measure.take (m : Measure) (args : List Value) : Except Fault (Option Int × List Value) :=
  match m with
  | .absent => .ok (Option.none, args)
  | .given n => .ok (some n, args)
  | .argument => do
    let (v, rest) ← nextArgument args
    match v.int? with
    | some n => return (some n, rest)
    | Option.none => throw (.misuse "* wants int")

/-- A format from offset `offset` on, of which the first `skip` characters are done: the text and
the arguments left. -/
def percentFrom (guard : Text → Text) (all : Value) :
    Nat → Nat → List Value → Text → Except Fault (Text × List Value)
  | _, _, args, [] => .ok ([], args)
  | offset, skip + 1, args, _ :: r => percentFrom guard all (offset + 1) skip args r
  | offset, 0, args, '%' :: r => do
    let (c, rest) ← readConversion r
    let used := r.length - rest.length
    if c.letter = '%' then
      let (t, left) ← percentFrom guard all (offset + 1) used args r
      return ('%' :: t, left)
    else
      let (keyed, args) ← match c.key, all with
        | Option.none, _ => pure (Option.none, args)
        | some k, .dict es => match lookup? (.str k) es with
          | some v => pure (some v, args)
          | Option.none => throw (.misuse (quoted k))
        | some _, .undefined .. => pure (some all, args)
        | some _, _ => throw (.misuse "format requires a mapping")
      let (width, args) ← c.width.take args
      let (precision, args) ← c.precision.take args
      let (v, args) ← match keyed with
        | some v => pure (v, args)
        | Option.none => nextArgument args
      let flags := if (width.getD 0) < 0 then '-' :: c.flags else c.flags
      let shown ← converted guard { c with flags } (width.getD 0).natAbs
        (precision.map Int.toNat) (offset + used) v
      let (t, left) ← percentFrom guard all (offset + 1) used args r
      return (shown ++ t, left)
  | offset, 0, args, c :: r => do
    let (t, left) ← percentFrom guard all (offset + 1) 0 args r
    return (c :: t, left)

/-- Whether a value can stand for a mapping, so that it need not be used up. -/
def looksLikeMapping : Value → Bool
  | .dict _ | .list _ | .range .. | .undefined .. => true
  | _ => false

/-- A format applied to its arguments. -/
def percent (guard : Text → Text) (t : Text) (args : Value) : Except Fault Text := do
  let items := match args with
    | .tuple xs => xs
    | v => [v]
  let (out, left) ← percentFrom guard args 0 0 items t
  let unused := match args with
    | .tuple _ => !left.isEmpty
    | v => !left.isEmpty && !looksLikeMapping v
  if unused then throw (.misuse "not all arguments converted during string formatting")
  return out

/-- The remainder of two numbers, or a format applied to its arguments. -/
def modOrFormat (v w : Value) : Except Fault Value :=
  match v with
  | .str t => do return .str (← percent id t w)
  | .markup t => do return .markup (← percent Html.escapeNumeric t w)
  | v => mod v w

end Pagewright.Value
