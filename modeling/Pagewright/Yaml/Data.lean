import Pagewright.Text.Quoted
import Pagewright.Value.Compare
import Pagewright.Yaml.Node

/-! # Values of YAML documents

A node stands for the value that its tag says.  A mapping may take over the entries of others under
the merge mark; its own entries win over those.

Main definitions: `Node.value`, `read` (the value of a document). -/

namespace Pagewright.Yaml

open Text

/-- The wording of a fault that is not one of the grammar. -/
def Fault.message : Fault → Text
  | .malformed => "malformed document"
  | .integer base t =>
    "invalid literal for int() with base " ++ ofNat base ++ ": " ++ Text.quoted t
  | .decimal t => "could not convert string to float: " ++ Text.quoted t
  | .truth t => Text.quoted t
  | .nothing => "string index out of range"

/-! ### Scalars -/

/-- An integer in a base, or a fault. -/
def integerIn (base : Nat) (t : Text) : Except Fault Int :=
  match Number.readInt? t base with
  | some n => .ok n
  | none => .error (.integer base t)

/-- A decimal number, or a fault. -/
def decimalIn (t : Text) : Except Fault Float :=
  match Number.readFloat? t with
  | some x => .ok x
  | none => .error (.decimal t)

/-- The sign of a number, and the number without it. -/
def signOf (t : Text) : Bool × Text :=
  match t with
  | '-' :: r => (true, r)
  | '+' :: r => (false, r)
  | t => (false, t)

/-- The integer that a scalar writes: binary, hexadecimal, octal, in parts of sixty or decimal. -/
def integer (t : Text) : Except Fault Int := do
  let t := t.filter (· ≠ '_')
  if t.isEmpty then .error .nothing
  let (negative, t) := signOf t
  let n : Int ← (match t with
    | ['0'] => .ok 0
    | '0' :: 'b' :: r => integerIn 2 r
    | '0' :: 'x' :: r => integerIn 16 r
    | '0' :: _ => integerIn 8 t
    | [] => .error .nothing
    | _ => do
      let parts ← (splitOn ":" t).mapM (integerIn 10)
      return parts.foldl (fun acc p => acc * 60 + p) 0)
  return if negative then -n else n

/-- The decimal that a scalar writes: not finite, in parts of sixty, or usual. -/
def decimal (t : Text) : Except Fault Float := do
  let t := lower (t.filter (· ≠ '_'))
  if t.isEmpty then .error .nothing
  let (negative, t) := signOf t
  let x : Float ←
    if t = ".inf" then .ok (1.0 / 0.0)
    else if t = ".nan" then .ok (0.0 / 0.0)
    else if t.contains ':' then do
      let parts ← (splitOn ":" t).mapM decimalIn
      let (sum, _) := parts.reverse.foldl (fun (sum, base) p => (sum + p * base, base * 60.0))
        ((0.0 : Float), (1.0 : Float))
      pure sum
    else decimalIn t
  return if negative then -x else x

/-- The truth value that a scalar writes. -/
def truth (t : Text) : Except Fault Bool :=
  let w := lower t
  if (List.map String.toList ["yes", "true", "on"]).contains w then .ok true
  else if (List.map String.toList ["no", "false", "off"]).contains w then .ok false
  else .error (.truth w)

/-- The value of a scalar with a tag. -/
def scalarValue (tag t : Text) : Except Fault Value :=
  if tag = standardTag "str" then .ok (.str t)
  else if tag = standardTag "null" then .ok .none
  else if tag = standardTag "bool" then (truth t).map .bool
  else if tag = standardTag "int" then (integer t).map .int
  else if tag = standardTag "float" then (decimal t).map .float
  else if tag = standardTag "timestamp" then .ok (.str t)
  else .error .malformed

/-! ### Collections -/

/-- Whether a node is a scalar with a standard tag. -/
def Node.isMark (name : Text) : Node → Bool
  | .scalar tag _ => tag == standardTag name
  | _ => false

/-- A key as it counts: a lone equals sign is a text. -/
def keyNode (n : Node) : Node :=
  match n with
  | .scalar _ t => if n.isMark "value" then .scalar (standardTag "str") t else n
  | _ => n

mutual

/-- The entries of a mapping, after those that it takes over. -/
def Node.entries : Node → Except Fault (List (Node × Node))
  | .mapping _ es => do
    let (merged, own) ← splitEntries es
    return merged ++ own
  | _ => .error .malformed

/-- The entries that a mapping takes over, and its own. -/
def splitEntries : List (Node × Node) → Except Fault (List (Node × Node) × List (Node × Node))
  | [] => .ok ([], [])
  | (k, v) :: es =>
    if k.isMark "merge" then do
      let here ← v.mergedEntries
      let (merged, own) ← splitEntries es
      return (here ++ merged, own)
    else do
      let (merged, own) ← splitEntries es
      return (merged, (keyNode k, v) :: own)

/-- The entries that a value under the merge mark contributes: its own if it is a mapping, else
those of its items, of which the first counts most. -/
def Node.mergedEntries : Node → Except Fault (List (Node × Node))
  | .mapping _ es => do
    let (merged, own) ← splitEntries es
    return merged ++ own
  | .sequence _ ns => itemEntries ns
  | .scalar .. => .error .malformed

/-- The entries of several mappings, those of the first one last. -/
def itemEntries : List Node → Except Fault (List (Node × Node))
  | [] => .ok []
  | n :: ns => do
    let here ← n.entries
    return (← itemEntries ns) ++ here

end

/-- A mapping from keys and values; keys have to be simple values. -/
def mappingOf (es : List (Value × Value)) : Except Fault (List (Value × Value)) := do
  if es.any fun (k, _) => (Value.unhashable? k).isSome then .error .malformed
  return Value.entriesOf es

/-- The depth of a node. -/
def Node.depth : Node → Nat
  | .scalar .. => 1
  | .sequence _ ns => depthAll ns + 1
  | .mapping _ es => depthEntries es + 1
where
  /-- The greatest depth of some nodes. -/
  depthAll : List Node → Nat
    | [] => 0
    | n :: ns => max n.depth (depthAll ns)
  /-- The greatest depth of some entries. -/
  depthEntries : List (Node × Node) → Nat
    | [] => 0
    | (k, v) :: es => max (max k.depth v.depth) (depthEntries es)

/-- The value of a node of at most a given depth. -/
def Node.valueWithin : Nat → Node → Except Fault Value
  | 0, _ => .error .malformed
  | fuel + 1, n =>
    match n with
    | .scalar tag t => scalarValue tag t
    | .sequence tag ns =>
      if tag = standardTag "seq" then do
        return .list (← ns.mapM (Node.valueWithin fuel))
      else if tag = standardTag "omap" ∨ tag = standardTag "pairs" then do
        let pairs ← ns.mapM fun n => match n with
          | .mapping _ [(k, v)] => do
            return Value.tuple [← k.valueWithin fuel, ← v.valueWithin fuel]
          | _ => .error .malformed
        return .list pairs
      else .error .malformed
    | .mapping tag _ => do
      let es ← n.entries
      let es ← mappingOf (← es.mapM fun (k, v) => do
        return (← k.valueWithin fuel, ← v.valueWithin fuel))
      if tag = standardTag "map" then return .dict es
      else if tag = standardTag "set" then return .set (es.map Prod.fst)
      else .error .malformed

/-- The value of a node. -/
def Node.value (n : Node) : Except Fault Value := n.valueWithin n.depth

/-- The value of a document, which is nothing if it is empty. -/
def read (t : Text) : Except Fault Value := do
  match ← document? t with
  | some n => n.value
  | none => return .none

end Pagewright.Yaml
