import Pagewright.Settings.Basic
import Pagewright.Number.Read
import Pagewright.Text.Quoted
import Pagewright.Value.Compare
import Pagewright.Value.Print

/-! # Checking settings

Settings are read from a mapping.  Every field is checked, and all complaints are gathered in the
order of the fields.  Texts that write a number or a truth value count as one; fields that are not
known are passed over.

Main definitions: `Complaint`, `Check`, `settings?`. -/

namespace Pagewright

open Text

/-- What is wrong with a field: its place, the kind of the complaint and its wording. -/
structure Complaint where
  place : List Text
  kind : Text
  wording : Text
  deriving DecidableEq, Repr

/-- The result of a check: a value, or what is wrong with it. -/
abbrev Check (α : Type) := Except (List Complaint) α

namespace Check

variable {α β : Type}

/-- A single complaint about a whole value. -/
def complain (kind wording : Text) : Check α := .error [⟨[], kind, wording⟩]

/-- A check of a part, with the place of the part in front of the complaints. -/
def under (place : Text) (c : Check α) : Check α :=
  c.mapError fun cs => cs.map fun c => { c with place := place :: c.place }

/-- Two checks, of which both complain. -/
def both (f : Check (α → β)) (c : Check α) : Check β :=
  match f, c with
  | .ok f, .ok a => .ok (f a)
  | .ok _, .error e => .error e
  | .error e, .ok _ => .error e
  | .error e, .error e' => .error (e ++ e')

/-- Checks of all members of a list, of which all complain. -/
def all : List (Check α) → Check (List α)
  | [] => .ok []
  | c :: cs => both (c.map (· :: ·)) (all cs)

/-! ### Texts and paths -/

/-- A text. -/
def text (v : Value) : Check Text :=
  match v.text? with
  | some t => .ok t
  | none => complain "string_type" "Input should be a valid string"

/-- A text that is not empty. -/
def someText (v : Value) : Check Text := do
  let t ← text v
  if t.isEmpty then complain "string_too_short" "String should have at least 1 character"
  else return t

/-- A path. -/
def path (v : Value) : Check DiskPath :=
  match v.text? with
  | some t => .ok (.ofText t)
  | none => complain "path_type" "Input is not a valid path for <class 'pathlib.Path'>"

/-! ### Numbers -/

/-- White space around the text of a number. -/
def isMargin (c : Char) : Bool := isSpace c && !(28 ≤ c.toNat && c.toNat ≤ 31)

/-- A text without the white space around it. -/
def trimmed (t : Text) : Text := ((t.dropWhile isMargin).reverse.dropWhile isMargin).reverse

/-- The integer written by a sign and digits without a superfluous zero in front. -/
def plainInteger? (t : Text) : Option Int :=
  let (negative, ds) := match t with
    | '-' :: r => (true, r)
    | t => (false, t)
  let superfluous := ds.head? = some '0' ∧ 1 < ds.length
  if ds.isEmpty ∨ superfluous ∨ !ds.all isAsciiDigit then none
  else (natOfDigits? ds).map fun n => if negative then -(n : Int) else n

/-- A number without the zeros and underscores in front of its first other digit; the last zero is
kept in front of a point and at the end. -/
def dropZeros (last : Char) : Text → Option Text
  | [] => some [last]
  | c :: r =>
    if c = '0' ∨ c = '_' then dropZeros c r
    else if isAsciiDigit c then some (c :: r)
    else if c = '.' then some (last :: c :: r)
    else none

/-- A number that starts with a zero without those in front; other numbers as they are. -/
def withoutZeros? : Text → Option Text
  | [] => none
  | c :: r =>
    if c = '0' then dropZeros c r
    else if isAsciiDigit c ∨ c = '-' then some (c :: r)
    else none

/-- A number without a point that only zeros follow. -/
def withoutPoint (t : Text) : Text :=
  match cutAt? "." t with
  | some (whole, fraction) => if fraction.all (· == '0') then whole else t
  | none => t

/-- A number without its underscores, which stand alone and between other characters. -/
def withoutBars? (t : Text) : Option Text :=
  if t.head? = some '_' ∨ t.getLast? = some '_' ∨ occursIn "__" t then none
  else some (t.filter (· ≠ '_'))

/-- The integer that a text writes, with white space around it, a plus sign, zeros in front, a point
and zeros behind, and underscores between the digits. -/
def integerIn? (t : Text) : Option Int :=
  match plainInteger? t with
  | some n => some n
  | none => do
    let t := trimmed t
    let t ← (match t with
      | '+' :: '-' :: _ => none
      | '+' :: r => some r
      | t => some t)
    let t := withoutPoint (← withoutZeros? t)
    plainInteger? ((withoutBars? t).getD t)

/-- Whether an integer can be held in sixty-four bits. -/
def isSmall (n : Int) : Bool := decide (-0x8000000000000000 ≤ n) && decide (n < 0x8000000000000000)

/-- An integer, also as a text or as a decimal without a fraction. -/
def integer : Value → Check Int
  | .int n => .ok n
  | .bool b => .ok (if b then 1 else 0)
  | .float x =>
    match Number.truncate? x with
    | none => complain "finite_number" "Input should be a finite number"
    | some n =>
      if !Number.isIntegral x then
        complain "int_from_float"
          "Input should be a valid integer, got a number with a fractional part"
      else if isSmall n then .ok n
      else complain "int_parsing_size"
        "Unable to parse input string as an integer, exceeded maximum size"
  | v =>
    match v.text? with
    | some t =>
      match integerIn? t with
      | some n => .ok n
      | none => complain "int_parsing"
          "Input should be a valid integer, unable to parse string as an integer"
    | none => complain "int_type" "Input should be a valid integer"

/-- An integer that is not below a bound. -/
def integerFrom (least : Int) (v : Value) : Check Int := do
  let n ← integer v
  if n < least then
    complain "greater_than_equal" ("Input should be greater than or equal to " ++ ofInt least)
  else return n

/-- The decimal that a text writes. -/
def decimalIn? (t : Text) : Option Float :=
  let read := fun (t : Text) =>
    let t := trimmed t
    if t.contains '_' || t.any fun c => 128 ≤ c.toNat || isSpace c then none
    else Number.readFloat? t
  match read t with
  | some x => some x
  | none => (withoutBars? t).bind read

/-- A decimal number, also as a text. -/
def decimal : Value → Check Float
  | .float x => .ok x
  | .bool b => .ok (if b then 1.0 else 0.0)
  | .int n =>
    match Number.ofInt? n with
    | some x => .ok x
    | none => complain "float_type" "Input should be a valid number"
  | v =>
    match v.text? with
    | some t =>
      match decimalIn? t with
      | some x => .ok x
      | none => complain "float_parsing"
          "Input should be a valid number, unable to parse string as a number"
    | none => complain "float_type" "Input should be a valid number"

/-- A decimal number above zero. -/
def positive (v : Value) : Check Float := do
  let x ← decimal v
  if x ≤ 0.0 then complain "greater_than" "Input should be greater than 0" else return x

/-- The words for truth values. -/
def truthWords : List (Text × Bool) :=
  List.map (fun (w, b) => (String.toList w, b))
    [("0", false), ("off", false), ("f", false), ("false", false), ("n", false), ("no", false),
      ("1", true), ("on", true), ("t", true), ("true", true), ("y", true), ("yes", true)]

/-- A truth value, also as a word, as zero or as one. -/
def truth (v : Value) : Check Bool :=
  let odd : Check Bool :=
    complain "bool_parsing" "Input should be a valid boolean, unable to interpret input"
  let other : Check Bool := complain "bool_type" "Input should be a valid boolean"
  let ofInteger := fun n : Int => if n = 0 then .ok false else if n = 1 then .ok true else odd
  match v with
  | .bool b => .ok b
  | .int n => if isSmall n then ofInteger n else other
  | .float x =>
    match Number.truncate? x with
    | some n => if Number.isIntegral x && isSmall n then ofInteger n else other
    | none => other
  | v =>
    match v.text? with
    | some t =>
      match truthWords.lookup (t.map Char.toLower) with
      | some b => .ok b
      | none => odd
    | none => other

/-! ### Collections -/

/-- The name of a key in the place of a complaint. -/
def keyPlace : Value → Text
  | .str t => t
  | .int n => ofInt n
  | .bool b => if b then "1" else "0"
  | v => v.shown

/-- A mapping whose keys are texts. -/
def mapping : Value → Check (List (Value × Value))
  | .dict es => all (es.map fun (k, v) => under (keyPlace k) (under "[key]" (text k)) |>.map
      fun t => (Value.str t, v))
  | _ => complain "dict_type" "Input should be a valid dictionary"

/-- A list of texts. -/
def textList (v : Value) : Check (List Text) :=
  let items := fun (xs : List Value) =>
    all (xs.zipIdx.map fun (x, i) => under (ofNat i) (text x))
  match v with
  | .list xs => items xs
  | .tuple xs => items xs
  | .set xs => items xs
  | _ => complain "list_type" "Input should be a valid list"

/-- The fields of a part that is a group of fields of its own. -/
def group (name : Text) : Value → Check (List (Value × Value))
  | .dict es => .ok es
  | _ => complain "model_type"
      ("Input should be a valid dictionary or instance of " ++ name)

/-- A field with a check, and the value that holds if it is not given. -/
def field (es : List (Value × Value)) (name : Text) (check : Value → Check α) (default : α) :
    Check α :=
  match Value.lookup? (.str name) es with
  | some v => under name (check v)
  | none => .ok default

/-! ### Settings -/

/-- Delimiters that differ and cannot be taken for those of tags and comments. -/
def distinctDelimiters (ds : Delimiters) : Check Delimiters :=
  if ds.start = ds.stop then
    complain "value_error" "Value error, Interpolation start and end delimiters must differ"
  else if (dropLead? "\x7b%" ds.start).isSome ∨ (dropLead? "\x7b#" ds.start).isSome then
    complain "value_error" ("Value error, Interpolation start '" ++ ds.start ++
      "' collides with block or comment tags")
  else .ok ds

/-- The delimiters of output expressions. -/
def delimiters (v : Value) : Check Delimiters := do
  let es ← group "InterpolationConfig" v
  let usual : Delimiters := {}
  let start := field es "start" someText usual.start
  let stop := field es "end" someText usual.stop
  distinctDelimiters (← both (start.map Delimiters.mk) stop)

/-- The settings of the memo. -/
def memo (v : Value) : Check MemoSettings := do
  let es ← group "CacheSettings" v
  let usual : MemoSettings := {}
  let capacity := field es "max_entries" (integerFrom 0) usual.capacity
  let lifetime := field es "ttl_seconds" (fun v => (positive v).map .decimal) usual.lifetime
  let shared := field es "shared" truth usual.shared
  both (both (capacity.map MemoSettings.mk) lifetime) shared

/-- Settings from the fields of a mapping. -/
def settings (es : List (Value × Value)) : Check Settings :=
  let usual : Settings := {}
  let root := field es "root" path usual.root
  let partials := field es "partials_dir" text usual.partials
  let maxDepth := field es "max_depth" (integerFrom 1) usual.maxDepth
  let data := field es "data" mapping usual.data
  let dataFiles := field es "data_files" textList usual.dataFiles
  let delimiters := field es "interpolation" delimiters usual.delimiters
  let memo := field es "cache" memo usual.memo
  let sandbox := field es "sandbox" truth usual.sandbox
  let trimBlocks := field es "trim_blocks" truth usual.trimBlocks
  let lstripBlocks := field es "lstrip_blocks" truth usual.lstripBlocks
  let debug := field es "debug" truth usual.debug
  both (both (both (both (both (both (both (both (both (both (root.map Settings.mk) partials)
    maxDepth) data) dataFiles) delimiters) memo) sandbox) trimBlocks) lstripBlocks) debug

end Check

/-- The variable that turns on debugging. -/
def debugVariable : Text := "HTMLKIT_DEBUG"

/-- Whether the environment turns on debugging. -/
def debugIsOn (env : List (Text × Text)) : Bool :=
  (List.map String.toList ["1", "true", "yes", "on"]).contains
    (lower ((env.lookup debugVariable).getD []))

/-- Settings from the fields of a mapping and the environment. -/
def settings? (env : List (Text × Text)) (es : List (Value × Value)) : Check Settings :=
  (Check.settings es).map fun s => { s with debug := s.debug || debugIsOn env }

end Pagewright
