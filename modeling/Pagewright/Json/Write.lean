import Pagewright.Value.Basic
import Pagewright.Value.Compare
import Pagewright.Value.Print

/-! # Writing JSON

Values are written compactly or with an indentation of two spaces per level.  Characters outside
ASCII stand for themselves.  Keys are texts; numbers, truth values and nothing are turned into
texts, and other keys cannot be written.  Missing names become `null`, sets and tuples become
arrays, and other values are written as they print.

Main definitions: `Json.quoted`, `Json.write`. -/

namespace Pagewright.Json

open Text

/-- A character inside a JSON string. -/
def quotedChar (c : Char) : Text :=
  match c with
  | '"' => "\\\""
  | '\\' => "\\\\"
  | '\n' => "\\n"
  | '\r' => "\\r"
  | '\t' => "\\t"
  | _ =>
    if c.toNat = 8 then "\\b"
    else if c.toNat = 12 then "\\f"
    else if c.toNat < 32 then "\\u" ++ hexDigits 4 c.toNat
    else [c]

/-- A text as a JSON string. -/
def quoted (t : Text) : Text := '"' :: t.flatMap quotedChar ++ ['"']

/-- A key of an object as a text. -/
def key : Value → Except Fault Text
  | .str t => .ok t
  | .markup t => .ok t
  | .float x => .ok (Number.text Number.jsonFormat x)
  | .bool b => .ok (if b then "true" else "false")
  | .none => .ok "null"
  | .int n => .ok (ofInt n)
  | v => .error (.unwritableKey v.typeName)

/-- A line break and the indentation of a level. -/
def newLine (level : Nat) : Text := '\n' :: List.replicate (2 * level) ' '

/-- The parts of a container between its brackets. -/
def enclosed (pretty : Bool) (level : Nat) (opener closer : Char) (parts : List Text) : Text :=
  if parts.isEmpty then [opener, closer]
  else if pretty then
    opener :: newLine (level + 1) ++ join (',' :: newLine (level + 1)) parts ++ newLine level ++
      [closer]
  else opener :: join "," parts ++ [closer]

mutual

/-- A value at a nesting level as JSON. -/
def writeAt (pretty : Bool) (level : Nat) : Value → Except Fault Text
  | .none => .ok "null"
  | .bool b => .ok (if b then "true" else "false")
  | .int n => .ok (ofInt n)
  | .float x => .ok (Number.text Number.jsonFormat x)
  | .str t => .ok (quoted t)
  | .markup t => .ok (quoted t)
  | .undefined .. => .ok "null"
  | .list xs => (writeAll pretty (level + 1) xs).map (enclosed pretty level '[' ']')
  | .tuple xs => (writeAll pretty (level + 1) xs).map (enclosed pretty level '[' ']')
  | .set xs => (writeAll pretty (level + 1) xs).map (enclosed pretty level '[' ']')
  | .dict es => (writeEntries pretty (level + 1) es).map (enclosed pretty level '{' '}')
  | v => .ok (quoted v.text)

/-- Values at a nesting level as JSON. -/
def writeAll (pretty : Bool) (level : Nat) : List Value → Except Fault (List Text)
  | [] => .ok []
  | x :: xs => do return (← writeAt pretty level x) :: (← writeAll pretty level xs)

/-- The entries of an object at a nesting level as JSON. -/
def writeEntries (pretty : Bool) (level : Nat) : List (Value × Value) → Except Fault (List Text)
  | [] => .ok []
  | (k, v) :: es => do
    let shown := quoted (← key k) ++ (if pretty then (": " : Text) else ":") ++
      (← writeAt pretty level v)
    return shown :: (← writeEntries pretty level es)

end

/-- A value as JSON, compact or indented. -/
def write (pretty : Bool) (v : Value) : Except Fault Text := writeAt pretty 0 v

end Pagewright.Json

/-! ## JSON inside markup

JSON that can stand in a script or in an attribute: keys are sorted, characters outside ASCII and
those with a meaning in markup are escaped.

Main definition: `Json.writeSafe`. -/

namespace Pagewright.Json

open Text

/-- A code unit in a JSON string. -/
def unit (n : Nat) : Text := "\\u" ++ hexDigits 4 n

/-- A character of a JSON string in ASCII. -/
def asciiChar (c : Char) : Text :=
  let n := c.toNat
  if n < 0x7F then quotedChar c
  else if n < 0x10000 then unit n
  else unit (0xD800 + (n - 0x10000) / 1024) ++ unit (0xDC00 + (n - 0x10000) % 1024)

/-- A text as a JSON string in ASCII. -/
def asciiQuoted (t : Text) : Text := '"' :: t.flatMap asciiChar ++ ['"']

/-- A line break with an indentation, or nothing where there is none. -/
def breakAt (indent : Option Nat) (level : Nat) : Text :=
  match indent with
  | some n => '\n' :: List.replicate (n * level) ' '
  | none => []

/-- The parts of a container between its brackets. -/
def bracketed (indent : Option Nat) (level : Nat) (opener closer : Char) (parts : List Text) :
    Text :=
  if parts.isEmpty then [opener, closer]
  else
    let sep : Text := match indent with
      | some _ => ',' :: breakAt indent (level + 1)
      | none => ", "
    opener :: breakAt indent (level + 1) ++ join sep parts ++ breakAt indent level ++ [closer]

mutual

/-- A value as JSON with the keys of objects in the order in which they stand. -/
def asciiAt (indent : Option Nat) (level : Nat) : Value → Except Fault Text
  | .none => .ok "null"
  | .bool b => .ok (if b then "true" else "false")
  | .int n => .ok (ofInt n)
  | .float x => .ok (Number.text Number.jsonFormat x)
  | .str t => .ok (asciiQuoted t)
  | .markup t => .ok (asciiQuoted t)
  | .list xs => (asciiAll indent (level + 1) xs).map (bracketed indent level '[' ']')
  | .tuple xs => (asciiAll indent (level + 1) xs).map (bracketed indent level '[' ']')
  | .dict es => do
    let parts ← asciiEntries indent (level + 1) es
    let sorted ← Value.sortBy Prod.fst parts
    return bracketed indent level '{' '}' (sorted.map Prod.snd)
  | v => .error (.misuse ("Object of type " ++ v.typeName ++ " is not JSON serializable"))

/-- Values as JSON. -/
def asciiAll (indent : Option Nat) (level : Nat) : List Value → Except Fault (List Text)
  | [] => .ok []
  | x :: xs => do return (← asciiAt indent level x) :: (← asciiAll indent level xs)

/-- The entries of an object as JSON, each with its key. -/
def asciiEntries (indent : Option Nat) (level : Nat) :
    List (Value × Value) → Except Fault (List (Value × Text))
  | [] => .ok []
  | (k, v) :: es => do
    let shown := asciiQuoted (← key k) ++ ": " ++ (← asciiAt indent level v)
    return (k, shown) :: (← asciiEntries indent level es)

end

/-- A value as JSON that can stand in markup. -/
def writeSafe (indent : Option Nat) (v : Value) : Except Fault Text := do
  return (← asciiAt indent 0 v).flatMap fun c =>
    if "<>&'".toList.contains c then unit c.toNat else [c]

end Pagewright.Json
