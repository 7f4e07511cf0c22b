import Pagewright.Text.Scan

/-! # Tags of plain scalars

A scalar without a tag has the tag of the first form that it matches: a truth value, a decimal, an
integer, the mark that merges mappings, nothing, a date, or a lone equals sign.  All other scalars
are texts.

Main definitions: `standardTag`, `plainTag`. -/

namespace Pagewright.Yaml

open Text

/-- A tag of the standard set. -/
def standardTag (name : Text) : Text := "tag:yaml.org,2002:" ++ name

/-- The words for truth values in the spellings that count. -/
def truthWords : List Text :=
  List.map String.toList ["yes", "Yes", "YES", "no", "No", "NO", "true", "True", "TRUE", "false",
    "False", "FALSE", "on", "On", "ON", "off", "Off", "OFF"]

/-- The words for nothing. -/
def nullWords : List Text := List.map String.toList ["", "~", "null", "Null", "NULL"]

/-- A text without the sign in front of it. -/
def unsigned : Text → Text
  | '+' :: r => r
  | '-' :: r => r
  | t => t

/-- An underscore or a digit in a base up to ten. -/
def isDigitOrBar (base : Nat) (c : Char) : Bool :=
  c == '_' || (isAsciiDigit c && decide (c.toNat - 48 < base))

/-- A hexadecimal digit or an underscore. -/
def isHexOrBar (c : Char) : Bool :=
  isDigitOrBar 10 c || ('a' ≤ c && c ≤ 'f') || ('A' ≤ c && c ≤ 'F')

/-- Whether a text consists of characters of a class, with at least one of them. -/
def isRun (p : Char → Bool) (t : Text) : Bool := !t.isEmpty && t.all p

/-- The rest of a text behind parts of sixty, each a colon and one or two digits below sixty; of two
possible ends the longer counts. -/
def dropSixties : Nat → Text → Text
  | 0, t => t
  | fuel + 1, t =>
    match t with
    | ':' :: a :: b :: r =>
      if '0' ≤ a && a ≤ '5' && isAsciiDigit b then dropSixties fuel r
      else if isAsciiDigit a then dropSixties fuel (b :: r)
      else t
    | [':', a] => if isAsciiDigit a then [] else t
    | _ => t

/-- Whether a text has the form of an integer. -/
def isInteger (t : Text) : Bool :=
  let t := unsigned t
  match t with
  | '0' :: 'b' :: r => isRun (isDigitOrBar 2) r
  | '0' :: 'x' :: r => isRun isHexOrBar r
  | ['0'] => true
  | '0' :: r => isRun (isDigitOrBar 8) r
  | c :: r =>
    isAsciiDigit c &&
      (let rest := r.dropWhile (isDigitOrBar 10)
       rest.isEmpty || (rest.head? == some ':' && (dropSixties rest.length rest).isEmpty))
  | [] => false

/-- Whether a text is empty or an exponent with a sign. -/
def isExponentOrEmpty : Text → Bool
  | [] => true
  | e :: s :: r => (e == 'e' || e == 'E') && (s == '+' || s == '-') && isRun isAsciiDigit r
  | _ => false

/-- Whether a text has the form of a decimal. -/
def isDecimalForm (t : Text) : Bool :=
  let named := fun (ws : List String) (t : Text) => ws.any fun w => t == w.toList
  let u := unsigned t
  let pointed := match u with
    | c :: r =>
      isAsciiDigit c &&
        (let rest := r.dropWhile (isDigitOrBar 10)
         (match rest with
          | '.' :: r => isExponentOrEmpty (r.dropWhile (isDigitOrBar 10))
          | ':' :: _ =>
            (match dropSixties rest.length rest with
             | '.' :: r => r.all (isDigitOrBar 10)
             | _ => false)
          | _ => false))
    | [] => false
  let leading := match t with
    | '.' :: c :: r => isAsciiDigit c && isExponentOrEmpty (r.dropWhile (isDigitOrBar 10))
    | _ => false
  pointed || leading || named [".inf", ".Inf", ".INF"] u || named [".nan", ".NaN", ".NAN"] t

/-- The rest of a text behind a number of digits between two bounds, taking as many as there are. -/
def dropDigits? (least most : Nat) (t : Text) : Option Text :=
  let n := min most (runLength isAsciiDigit t)
  if least ≤ n then some (t.drop n) else none

/-- Whether a text is empty or a time zone with blanks in front. -/
def isZoneOrEmpty (t : Text) : Bool :=
  t.isEmpty ||
    (match t.dropWhile fun c => c == ' ' || c == '\t' with
     | ['Z'] => true
     | s :: r =>
       (s == '+' || s == '-') &&
         (match dropDigits? 1 2 r with
          | some [] => true
          | some (':' :: r) => dropDigits? 2 2 r == some []
          | _ => false)
     | [] => false)

/-- Whether a text has the form of a date, with a time of day or without. -/
def isDate (t : Text) : Bool :=
  let parts? : Option Bool := do
    let r ← dropDigits? 4 4 t
    let r ← dropLead? "-" r
    let month ← dropDigits? 1 2 r
    let r ← dropLead? "-" month
    let day ← dropDigits? 1 2 r
    if day.isEmpty then return decide (t.length = 10)
    let r ← (match day with
      | 'T' :: r => some r
      | 't' :: r => some r
      | c :: _ =>
        if c == ' ' || c == '\t' then some (day.dropWhile fun c => c == ' ' || c == '\t') else none
      | [] => none)
    let r ← dropLead? ":" (← dropDigits? 1 2 r)
    let r ← dropLead? ":" (← dropDigits? 2 2 r)
    let r ← dropDigits? 2 2 r
    let r := match r with
      | '.' :: r => r.dropWhile isAsciiDigit
      | r => r
    return isZoneOrEmpty r
  parts?.getD false

/-- The tag of a plain scalar. -/
def plainTag (t : Text) : Text :=
  let name : Text :=
    if truthWords.contains t then "bool"
    else if isDecimalForm t then "float"
    else if isInteger t then "int"
    else if t = "<<" then "merge"
    else if nullWords.contains t then "null"
    else if isDate t then "timestamp"
    else if t = "=" then "value"
    else "str"
  standardTag name

end Pagewright.Yaml
