import Pagewright.Html.Unescape
import Pagewright.Json.Write
import Pagewright.Template.Filter.Basic
import Pagewright.Text.Search
import Pagewright.Text.Utf8

/-! # Filters on texts and numbers

Main definitions: `textFilter?` (by name), `numberFilter?`, `markupFilter?`. -/

namespace Pagewright.Template

open Text
open Value (Passed)

/-! ### Markup -/

/-- A value as markup: markup stays, other values are escaped. -/
def escaped (v : Value) : Run Value := do
  match v with
  | .markup t => return .markup t
  | .undefined .. => return .markup []
  | v => return .markup (Html.escapeNumeric (← printed v))

/-- A text without what stands between two marks, as often as it occurs; `fuel` bounds how
often. -/
def cutOut (opener closer : Text) : Nat → Text → Text
  | 0, t => t
  | fuel + 1, t =>
    match cutAt? opener t with
    | some (before, rest) =>
      match cutAt? closer rest with
      | some (_, after) => cutOut opener closer fuel (before ++ after)
      | none => t
    | none => t

/-- Markup without comments and tags, its blanks collapsed and its references read. -/
def stripTags (t : Text) : Text :=
  let t := cutOut "<!--" "-->" t.length t
  let t := cutOut "<" ">" t.length t
  Html.unescape (join " " (words t))

/-- Attributes of a mapping that have a value, as they stand in a tag. -/
def attributesText (es : List (Value × Value)) : Run Text := do
  let parts ← es.filterMapM fun (k, v) => do
    if v.isUndefined || (match v with | .none => true | _ => false) then return none
    let name ← printed k
    if name.any fun c => isSpace c || c == '/' || c == '>' || c == '=' then
      throw (.misuse ("Invalid character in attribute name: " ++ quoted name))
    let value ← printed (← escaped v)
    return some (Html.escapeNumeric name ++ "=\"" ++ value ++ "\"")
  return join " " parts

/-- A value as a part of an address. -/
def urlQuoted (inQuery : Bool) (v : Value) : Run Text := do
  let t := percentEncoded (if inQuery then ([] : Text) else "/") (← printed v)
  return if inQuery then replaceAll "%20" "+" t else t

/-- Filters for markup, addresses and data in markup. -/
def markupFilter? (s : Services) (name : Text) (v : Value) (p : Passed) : Option (Run Value) :=
  match String.ofList name with
  | "e" | "escape" => some do
    let args ← bind "escape" 0 [] v p
    escaped (nthOf args 0)
  | "forceescape" => some do
    let _ ← bind "do_forceescape" 0 [] v p
    return .markup (Html.escapeNumeric (← printed v))
  | "safe" => some do
    let _ ← bind "do_mark_safe" 0 [] v p
    return .markup (← printed v)
  | "striptags" => some do
    let _ ← bind "do_striptags" 0 [] v p
    return .str (stripTags (← printed v))
  | "xmlattr" => some do
    let args ← bind "do_xmlattr" 1 [optional "autospace" (.bool true)] v p "d"
    match ← seen v with
    | .dict es =>
      let body ← attributesText es
      let body := if (← truthOf (nthOf args 1)) && !body.isEmpty then ' ' :: body else body
      return textValue s.autoescape body
    | _ => throw (.misuse ("'" ++ (← kindOf v) ++ "' object has no attribute 'items'"))
  | "tojson" => some do
    let args ← bind "do_tojson" 1 [optional "indent" .none] v p
    let indent := (nthOf args 1).int?.map Int.toNat
    return .markup (← pureRun (Json.writeSafe indent (← whole v)))
  | "json" => some do
    let args ← bind "to_json" 0 [optional "pretty" (.bool false)] v p
    return .str (← pureRun (Json.write (← truthOf (nthOf args 1)) (← whole v)))
  | "class_list" => some do
    let _ ← bind "class_list" 0 [] v p "spec"
    let settled ← match ← drain v with
      | some (items, none) => pure (Value.list (← items.mapM whole))
      | _ => whole v
    return .str (← pureRun settled.classList)
  | "urlencode" => some do
    let _ ← bind "do_urlencode" 0 [] v p
    match ← seen v with
    | .dict es =>
      let parts ← es.mapM fun (k, x) => do
        return (← urlQuoted true k) ++ "=" ++ (← urlQuoted true x)
      return .str (join "&" parts)
    | .list xs | .tuple xs =>
      let parts ← xs.mapM fun x => do
        match ← itemsOf x with
        | [k, y] => return (← urlQuoted true k) ++ "=" ++ (← urlQuoted true y)
        | ys =>
          throw (if ys.length < 2 then .tooFewItems 2 ys.length else .tooManyItems 2)
      return .str (join "&" parts)
    | w => return .str (← urlQuoted false w)
  | _ => none

/-! ### Texts -/

/-- The replacement of a text in a text, escaped where values are. -/
def replaceFilter (s : Services) (v old new count : Value) : Run Value := do
  let args := match count with
    | .none => []
    | n => [n]
  if s.autoescape then
    let old' ← escaped old
    let new' ← escaped new
    let keepsMarkup := match v with
      | .markup _ => true
      | _ => false
    let base ← if keepsMarkup then pure v else escaped v
    viaMethod base "replace" ([old', new'] ++ args)
  else
    viaMethod (.str (← printed v)) "replace"
      ([.str (← printed old), .str (← printed new)] ++ args)

/-- Filters on texts. -/
def textFilter? (s : Services) (name : Text) (v : Value) (p : Passed) : Option (Run Value) :=
  match String.ofList name with
  | "upper" => some do let _ ← bind "do_upper" 0 [] v p "s"; viaMethod v "upper" []
  | "lower" => some do let _ ← bind "do_lower" 0 [] v p "s"; viaMethod v "lower" []
  | "capitalize" => some do
    let _ ← bind "do_capitalize" 0 [] v p "s"
    viaMethod v "capitalize" []
  | "title" => some do
    let _ ← bind "do_title" 0 [] v p "s"
    let (_, t) ← soft v
    return .str (titled t)
  | "trim" => some do
    let args ← bind "do_trim" 0 [optional "chars" .none] v p
    viaMethod v "strip" [nthOf args 1]
  | "center" => some do
    let args ← bind "do_center" 0 [optional "width" (.int 80)] v p
    viaMethod v "center" [nthOf args 1]
  | "string" => some do
    let _ ← bind "soft_str" 0 [] v p "s"
    let (markup, t) ← soft v
    return textValue markup t
  | "wordcount" => some do
    let _ ← bind "do_wordcount" 0 [] v p "s"
    let (_, t) ← soft v
    return .int (words (t.map fun c => if isWord c then c else ' ')).length
  | "format" => some do
    let (markup, t) ← soft v
    if !p.positional.isEmpty && !p.named.isEmpty then
      throw (.misuse "can't handle positional and keyword arguments at the same time")
    let args ← if p.named.isEmpty then do pure (Value.tuple (← p.positional.mapM whole))
      else do pure (Value.dict (← p.named.mapM fun (n, w) => do return (.str n, ← whole w)))
    pureRun (Value.modOrFormat (textValue markup t) args)
  | "replace" => some do
    let args ← bind "do_replace" 1 [needed "old", needed "new", optional "count" .none] v p "s"
    replaceFilter s v (nthOf args 1) (nthOf args 2) (nthOf args 3)
  | "indent" => some do
    let args ← bind "do_indent" 0 [optional "width" (.int 4), optional "first" (.bool false),
      optional "blank" (.bool false)] v p "s"
    let margin ← match nthOf args 1 with
      | .str t | .markup t => pure t
      | w => do
        present w
        match ← pureRun (Value.mul (.str [' ']) w) with
        | .str margin => pure margin
        | _ => pure []
    match v with
    | .str t | .markup t =>
      return textValue (v.typeName == "Markup".toList)
        (indented margin (← truthOf (nthOf args 2)) (← truthOf (nthOf args 3)) t)
    | v => pureRun (Value.add v (.str ['\n']))
  | "truncate" => some do
    let args ← bind "do_truncate" 1 [optional "length" (.int 255),
      optional "killwords" (.bool false), optional "end" (.str "..."),
      optional "leeway" .none] v p "s"
    present (nthOf args 1)
    let length ← pureRun (Value.intArgument (nthOf args 1))
    let ending ← printed (nthOf args 3)
    let leeway ← match nthOf args 4 with
      | .none => pure 5
      | w => do
        present w
        pureRun (Value.intArgument w)
    if length < ending.length then
      throw (.misuse ("expected length >= " ++ ofNat ending.length ++ ", got " ++ ofInt length))
    if leeway < 0 then throw (.misuse ("expected leeway >= 0, got " ++ ofInt leeway))
    let n ← lengthOf v
    if (n : Int) ≤ length + leeway then return v
    let (markup, t) ← soft v
    return textValue markup (truncated length.toNat (← truthOf (nthOf args 2)) ending t)
  | "wordwrap" => some do
    let args ← bind "do_wordwrap" 1 [optional "width" (.int 79),
      optional "break_long_words" (.bool true), optional "wrapstring" .none,
      optional "break_on_hyphens" (.bool true)] v p "s"
    let width := ((nthOf args 1).int?.getD 79).toNat
    let sep ← match nthOf args 3 with
      | .none => pure (['\n'] : Text)
      | w => printed w
    let breakLong ← truthOf (nthOf args 2)
    let breakHyphens ← truthOf (nthOf args 4)
    let (_, t) ← soft v
    return .str (join sep ((lines false t).map fun line =>
      join sep (wrapped width breakLong breakHyphens line)))
  | _ => none

/-! ### Numbers -/

/-- The integer that a value stands for, or a default. -/
def intFilter (v default : Value) (base : Nat) : Run Value := do
  let viaFloat : Value := match v with
    | .str t | .markup t => match (Number.readFloat? t).bind Number.truncate? with
      | some n => .int n
      | none => default
    | _ => default
  match v with
  | .undefined .. =>
    present v
    return default
  | .str t | .markup t => match Number.readInt? t base with
    | some n => return .int n
    | none => return viaFloat
  | .float x =>
    if x.isNaN then return default
    return .int (← pureRun (Value.intOfFloat x))
  | v => match v.int? with
    | some n => return .int n
    | none => return default

/-- A number of bytes in words. -/
def fileSize (binary : Bool) (bytes : Float) : Text :=
  let base : Float := if binary then 1024.0 else 1000.0
  let suffix : Text := if binary then "iB" else "B"
  let tenths := fun x : Float =>
    (if Number.isNegative x then (['-'] : Text) else []) ++
      Number.unsigned (fun n d => Number.fixedOf n d 1) x
  let rec pick (unit : Float) : List Char → Text
    | [] => tenths (base * bytes / unit)
    | c :: more =>
      let unit := unit * base
      if bytes < unit || more.isEmpty then
        tenths (base * bytes / unit) ++ " " ++
          (if !binary && c == 'K' then ['k'] else [c]) ++ suffix
      else pick unit more
  if bytes == 1.0 then "1 Byte"
  else if bytes < base then ofInt ((Number.truncate? bytes).getD 0) ++ " Bytes"
  else pick base "KMGTPEZY".toList

/-- A number rounded to a precision with a method. -/
def roundFilter (v precision : Value) (method : Text) : Run Value := do
  let places ← pureRun (Value.intArgument precision)
  if method == "common".toList then
    match v, v.int? with
    | .float x, _ => return .float (Number.roundTo x places)
    | _, some n => return .int (Number.roundIntTo n places)
    | v, none =>
      present v
      throw (.misuse ("type " ++ (← kindOf v) ++ " doesn't define __round__ method"))
  else
    let unit ← pureRun (Value.pow (.int 10) precision)
    let scaled ← pureRun (Value.mul v unit)
    let whole ← match scaled, scaled.int? with
      | .float x, _ =>
        match Number.floor? x with
        | some n =>
          pure (if method == "ceil".toList && !Number.isIntegral x then n + 1 else n)
        | none => pureRun (Value.intOfFloat x)
      | _, some n => pure n
      | w, none => throw (.misuse ("must be real number, not " ++ w.typeName))
    pureRun (Value.div (.int whole) unit)

/-- Filters on numbers. -/
def numberFilter? (name : Text) (v : Value) (p : Passed) : Option (Run Value) :=
  match String.ofList name with
  | "abs" => some do
    if !p.positional.isEmpty then
      throw (.misuse ("abs() takes exactly one argument (" ++
        ofNat (p.positional.length + 1) ++ " given)"))
    present v
    match v, v.int? with
    | .float x, _ => return .float x.abs
    | _, some n => return .int n.natAbs
    | v, none => throw (.misuse ("bad operand type for abs(): '" ++ (← kindOf v) ++ "'"))
  | "int" => some do
    let args ← bind "do_int" 0 [optional "default" (.int 0), optional "base" (.int 10)] v p
    intFilter v (nthOf args 1) ((nthOf args 2).int?.getD 10).toNat
  | "float" => some do
    let args ← bind "do_float" 0 [optional "default" (.float 0.0)] v p
    present v
    match v, v.int? with
    | .float x, _ => return .float x
    | _, some n => return .float (← pureRun (Value.floatOfInt n))
    | v, none => return ((v.text?.bind Number.readFloat?).map Value.float).getD (nthOf args 1)
  | "round" => some do
    let args ← bind "do_round" 0 [optional "precision" (.int 0),
      optional "method" (.str "common")] v p
    let method ← printed (nthOf args 2)
    if !(["common", "ceil", "floor"] : List Text).contains method then
      throw (.misuse "method must be common, ceil or floor")
    roundFilter v (nthOf args 1) method
  | "filesizeformat" => some do
    let args ← bind "do_filesizeformat" 0 [optional "binary" (.bool false)] v p
    present v
    let bytes ← match v, v.int? with
      | .float x, _ => pure x
      | _, some n => pureRun (Value.floatOfInt n)
      | .str t, none => match Number.readFloat? t with
        | some x => pure x
        | none => throw (.misuse ("could not convert string to float: " ++ quoted t))
      | v, none =>
        throw (.misuse ("float() argument must be a string or a real number, not '" ++
          v.typeName ++ "'"))
    return .str (fileSize (← truthOf (nthOf args 1)) bytes)
  | _ => none

end Pagewright.Template
