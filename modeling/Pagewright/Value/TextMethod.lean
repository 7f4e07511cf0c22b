import Pagewright.Text.Search
import Pagewright.Value.Call
import Pagewright.Value.ClassList
import Pagewright.Value.Percent

/-! # Operations of texts

The operations that can be called on a text, by name.  On markup they give markup, and texts that
are put in are escaped.

Main definitions: `textMethods` (their names), `textMethod`. -/

namespace Pagewright.Value

open Text

/-- The names of the operations of texts. -/
def textMethods : List Text :=
  List.map String.toList ["capitalize", "casefold", "center", "count", "encode", "endswith",
    "expandtabs", "find", "format", "format_map", "index", "isalnum", "isalpha", "isascii", "isdecimal", "isdigit",
    "isidentifier", "islower", "isnumeric", "isprintable", "isspace", "istitle", "isupper", "join",
    "ljust", "lower", "lstrip", "maketrans", "partition", "removeprefix", "removesuffix", "replace",
    "rfind", "rindex", "rjust", "rpartition", "rsplit", "rstrip", "split", "splitlines",
    "startswith", "strip", "swapcase", "title", "translate", "upper", "zfill"]

/-- A text argument; `subject` names it in a refusal and `wanted` what it may be. -/
def textArgumentOf (subject wanted : Text) (v : Value) : Except Fault Text := do
  match v.text? with
  | some t => return t
  | Option.none =>
    let given : Text := match subject, v with
      | _ :: _, .none => "None"
      | _, v => v.typeName
    throw (.misuse (subject ++ "must be " ++ wanted ++ ", not " ++ given))

/-- A text argument. -/
def textArgument (v : Value) : Except Fault Text := textArgumentOf [] "str" v

/-- An integer argument. -/
def intArgument (v : Value) : Except Fault Int := do
  match v.int? with
  | some n => return n
  | Option.none =>
    throw (.misuse ("'" ++ v.typeName ++ "' object cannot be interpreted as an integer"))

/-- An integer argument that is a length or an offset. -/
def sizeArgument (v : Value) : Except Fault Int := do
  let n ← intArgument v
  if mostRepetitions < n ∨ n < -mostRepetitions - 1 then throw (.unfitting "ssize_t") else return n

/-- An integer argument of a small range. -/
def smallArgument (v : Value) : Except Fault Int := do
  let n ← intArgument v
  if 0x7fffffff < n ∨ n < -0x80000000 then throw (.unfitting "int") else return n

/-- A width to which a text is filled up. -/
def widthArgument (v : Value) : Except Fault Nat := do
  let n := (← sizeArgument v).toNat
  inMemory n
  return n

/-- A place in a sequence of a length, counted from the end if it is negative. -/
def placeIn (length : Nat) (n : Int) : Nat :=
  if n < 0 then (n + length).toNat else min n.toNat length

/-- The bounds of a search in a text. -/
def boundsIn (length : Nat) (args : List Value) : Except Fault (Nat × Nat) := do
  let bound := fun (v : Option Value) (d : Nat) => match v with
    | Option.none | some .none => (pure d : Except Fault Nat)
    | some v => match v.int? with
      | some n => pure (placeIn length n)
      | Option.none =>
        throw (.misuse
          "slice indices must be integers or None or have an __index__ method")
  return (← bound args.head? 0, ← bound (args.drop 1).head? length)

/-- A search for a text between bounds: the offset of what is found. -/
def searchIn (find : Text → Text → Option Nat) (t : Text) (args : List Value) :
    Except Fault (Option Nat) := do
  let (start, stop) ← boundsIn t.length (args.drop 1)
  let needle ← textArgument (args.head?.getD .none)
  if stop < start then return Option.none
  return (find needle (slice t start stop)).map (start + ·)

/-- Whether one of several texts passes a test; what is no text is refused when it is reached. -/
def anyText (name : Text) (holds : Text → Bool) : List Value → Except Fault Bool
  | [] => return false
  | x :: more =>
    match x.text? with
    | some s => if holds s then return true else anyText name holds more
    | Option.none =>
      throw (.misuse ("tuple for " ++ name ++ " must only contain str, not " ++ x.typeName))

/-- Whether a text starts or ends with a text or one of several. -/
def leadsOrEnds (name : Text) (holds : Text → Text → Bool) (t : Text) (args : List Value) :
    Except Fault Value := do
  let (start, stop) ← boundsIn t.length (args.drop 1)
  let part := slice t start stop
  match args.head?.getD .none with
  | .str s | .markup s => return .bool (start ≤ stop && holds s part)
  | .tuple xs => return .bool (← anyText name (fun s => start ≤ stop && holds s part) xs)
  | v =>
    throw (.misuse (name ++ " first arg must be str or a tuple of str, not " ++ v.typeName))

/-- The characters that are stripped off a text. -/
def stripped (cut : (Char → Bool) → Text → Text) (name t : Text) (args : List Value) :
    Except Fault Value := do
  match args.head? with
  | Option.none | some .none => return .str (cut isSpace t)
  | some v =>
    match v.text? with
    | some cs => return .str (cut cs.contains t)
    | Option.none => throw (.misuse (name ++ " arg must be None or str"))

/-- Whether a text is not empty and all its characters are in a class. -/
def allOf (p : Char → Bool) (t : Text) : Value := .bool (!t.isEmpty && t.all p)

/-- Whether every word of a text starts with its only upper case letter. -/
def isTitled : Bool → Bool → Text → Bool
  | _, found, [] => found
  | inside, found, c :: r =>
    if isUpper c || isTitle c then !inside && isTitled true true r
    else if isLower c then inside && isTitled true true r
    else isTitled false found r

/-- The character with which a text is filled. -/
def fillArgument (args : List Value) : Except Fault Char := do
  match args.head? with
  | Option.none => return ' '
  | some v =>
    match (v.text?) with
    | some [c] => return c
    | some _ => throw (.misuse "The fill character must be exactly one character long")
    | Option.none =>
      throw (.misuse ("The fill character must be a unicode character, not " ++ v.typeName))

/-- Texts one after the other with a separator; other values are refused. -/
def joinTexts (sep : Text) (items : List Value) : Except Fault Text := do
  let parts ← items.zipIdx.mapM fun (x, i) => match x.text? with
    | some t => pure t
    | Option.none =>
      throw (.misuse ("sequence item " ++ ofNat i ++ ": expected str instance, " ++ x.typeName ++
        " found"))
  return join sep parts

/-- The values of an operation's parameters `first` and `second`, which may be given by name. -/
def twoNamed (name first second : Text) (p : Passed) : Except Fault (Value × Value) := do
  let filled ← Parameters.fill
    { function := name, params := [(first, some .none), (second, some (.int (-1)))] } p
  match filled.values with
  | [a, b] => return (a, b)
  | _ => return (.none, .int (-1))

/-- The pieces of a text under an operation that splits it. -/
def splitting (name t : Text) (p : Passed)
    (between : Text → Nat → Text → List Text) (words : Nat → Text → List Text) :
    Except Fault Value := do
  let (sep, most) ← twoNamed name "sep" "maxsplit" p
  let most ← sizeArgument most
  let most := if most < 0 then t.length + 1 else most.toNat
  match sep with
  | .none => return .list ((words most t).map .str)
  | sep =>
    let s ← textArgumentOf [] "str or None" sep
    if s.isEmpty then throw (.misuse "empty separator")
    return .list ((between s most t).map .str)

/-- The parts of a text around a separator, or the text and two empty texts. -/
def parted (cut : Option (Text × Text)) (sep : Text) (whole : List Value) : Value :=
  match cut with
  | some (a, b) => .tuple [.str a, .str sep, .str b]
  | Option.none => .tuple whole

/-- An operation of a text with counted arguments: its arity and what it gives. -/
def countedMethod? (t name : Text) : Option (Arity × (List Value → Except Fault Value)) :=
  let plain := fun (r : Value) =>
    some (Arity.nothing, fun _ : List Value => (pure r : Except Fault Value))
  let first := fun (args : List Value) => args.head?.getD .none
  match String.ofList name with
  | "upper" => plain (.str (upper t))
  | "lower" => plain (.str (lower t))
  | "title" => plain (.str (title t))
  | "capitalize" => plain (.str (capitalize t))
  | "swapcase" => plain (.str (swapCase t))
  | "casefold" => plain (.str (fold t))
  | "isalnum" => plain (allOf isAlnum t)
  | "isalpha" => plain (allOf isAlpha t)
  | "isascii" => plain (.bool (t.all fun c => c.toNat < 128))
  | "isdecimal" => plain (allOf isDecimal t)
  | "isdigit" => plain (allOf Text.isDigit t)
  | "isnumeric" => plain (allOf isNumeric t)
  | "isspace" => plain (allOf isSpace t)
  | "isprintable" => plain (.bool (t.all isPrintable))
  | "isidentifier" => plain (.bool (match t with
      | [] => false
      | c :: r => isNameStart c && r.all isNamePart))
  | "islower" => plain (.bool (t.any isLower && !t.any fun c => isUpper c || isTitle c))
  | "isupper" => plain (.bool (t.any isUpper && !t.any fun c => isLower c || isTitle c))
  | "istitle" => plain (.bool (isTitled false false t))
  | "strip" => some (.between 0 1, stripped (fun p t =>
      ((t.dropWhile p).reverse.dropWhile p).reverse) name t)
  | "lstrip" => some (.between 0 1, stripped (fun p t => t.dropWhile p) name t)
  | "rstrip" => some (.between 0 1, stripped (fun p t =>
      (t.reverse.dropWhile p).reverse) name t)
  | "find" => some (.search, fun args => do
      return .int (match ← searchIn indexOf? t args with
        | some n => n
        | Option.none => -1))
  | "rfind" => some (.search, fun args => do
      return .int (match ← searchIn lastIndexOf? t args with
        | some n => n
        | Option.none => -1))
  | "index" => some (.search, fun args => do
      match ← searchIn indexOf? t args with
      | some n => return .int n
      | Option.none => throw (.misuse "substring not found"))
  | "rindex" => some (.search, fun args => do
      match ← searchIn lastIndexOf? t args with
      | some n => return .int n
      | Option.none => throw (.misuse "substring not found"))
  | "count" => some (.search, fun args => do
      let (start, stop) ← boundsIn t.length (args.drop 1)
      let needle ← textArgument (first args)
      return .int (if stop < start then 0 else countOf needle (slice t start stop)))
  | "startswith" => some (.search, leadsOrEnds name (fun s t => s.isPrefixOf t) t)
  | "endswith" => some (.search, leadsOrEnds name (fun s t => s.isSuffixOf t) t)
  | "removeprefix" => some (.one, fun args => do
      return .str ((dropLead? (← textArgumentOf (name ++ "() argument ") "str" (first args)) t).getD t))
  | "removesuffix" => some (.one, fun args => do
      return .str ((dropTail? (← textArgumentOf (name ++ "() argument ") "str" (first args)) t).getD t))
  | "replace" => some (.between 2 3, fun args => do
      match args with
      | old :: new :: rest =>
        let old ← textArgumentOf "replace() argument 1 " "str" old
        let new ← textArgumentOf "replace() argument 2 " "str" new
        let most ← match rest with
          | [] => pure (-1)
          | n :: _ => sizeArgument n
        return .str (replaceAtMost old new (if most < 0 then t.length + 1 else most.toNat) t)
      | _ => return .str t)
  | "partition" => some (.one, fun args => do
      let sep ← textArgument (first args)
      if sep.isEmpty then throw (.misuse "empty separator")
      return parted (cutAt? sep t) sep [.str t, .str [], .str []])
  | "rpartition" => some (.one, fun args => do
      let sep ← textArgument (first args)
      if sep.isEmpty then throw (.misuse "empty separator")
      return parted (cutAtLast? sep t) sep [.str [], .str [], .str t])
  | "center" => some (.between 1 2, fun args => do
      let width ← widthArgument (first args)
      return .str (center (← fillArgument (args.drop 1)) width t))
  | "ljust" => some (.between 1 2, fun args => do
      let width ← widthArgument (first args)
      return .str (padRight (← fillArgument (args.drop 1)) width t))
  | "rjust" => some (.between 1 2, fun args => do
      let width ← widthArgument (first args)
      return .str (padLeft (← fillArgument (args.drop 1)) width t))
  | "zfill" => some (.one, fun args => do
      return .str (zeroFilled (← widthArgument (first args)) t))
  | _ => Option.none

/-- An operation of a text called with arguments. -/
def plainTextMethod (t name : Text) (p : Passed) : Except Fault Value := do
  match String.ofList name with
  | "split" => splitting "split" t p splitAtMost wordsAtMost
  | "rsplit" => splitting "rsplit" t p splitAtMostRight wordsAtMostRight
  | "splitlines" =>
    let filled ← Parameters.fill
      { function := name, params := [("keepends", some (.bool false))] } p
    let keep ← smallArgument (filled.values.head?.getD .none)
    return .list ((lines (keep ≠ 0) t).map .str)
  | "expandtabs" =>
    let filled ← Parameters.fill { function := name, params := [("tabsize", some (.int 8))] } p
    return .str (expandTabs (← smallArgument (filled.values.head?.getD .none)).toNat 0 t)
  | _ => match countedMethod? t name with
    | some (arity, run) => run (← arity.accept "str" name p)
    | Option.none => throw (.misuse ("'" ++ name ++ "' is not available"))

/-- A value that markup takes in: texts are escaped. -/
def escapedArgument : Value → Value
  | .str t => .markup (Html.escapeNumeric t)
  | v => v

mutual

/-- A value with its texts turned into markup. -/
def asMarkup : Value → Value
  | .str t => .markup t
  | .list xs => .list (asMarkupAll xs)
  | .tuple xs => .tuple (asMarkupAll xs)
  | v => v

/-- Values with their texts turned into markup. -/
def asMarkupAll : List Value → List Value
  | [] => []
  | x :: xs => asMarkup x :: asMarkupAll xs

end

/-- An operation of a text or of markup called with arguments. -/
def textMethod (markup : Bool) (t name : Text) (p : Passed) : Except Fault Value := do
  if name == "join".toList then
    let args ← Arity.accept .one "str" name p
    let items ← match items? (args.head?.getD .none) with
      | .ok items => pure items
      | .error _ => throw (.misuse "can only join an iterable")
    if markup then return .markup (← joinTexts t (items.map escapedArgument))
    else
      -- A separator joins markup as plain text.
      return .str (← joinTexts t items)
  else if markup then
    let p := { p with
      positional := p.positional.map escapedArgument
      named := p.named.map fun (n, v) => (n, escapedArgument v) }
    return asMarkup (← plainTextMethod t name p)
  else plainTextMethod t name p

end Pagewright.Value
