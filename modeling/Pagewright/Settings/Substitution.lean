import Pagewright.Number.Read
import Pagewright.Text.Scan
import Pagewright.Value.Basic

/-! # Environment variables in settings

A text of a settings file may refer to environment variables, with a default or a message for those
that are not set.  A text that is one reference and nothing else may become a truth value or a
number.

Main definitions: `VariableReference`, `references?`, `substitute`. -/

namespace Pagewright

open Text

/-- What happens if a variable is not set. -/
inductive Unset where
  /-- The reference stays as it is. -/
  | keep
  /-- A text takes its place. -/
  | default (t : Text)
  /-- It is an error with a message. -/
  | fail (message : Text)
  deriving DecidableEq, Repr

/-- A reference to an environment variable, as it is written. -/
structure VariableReference where
  name : Text
  unset : Unset
  shown : Text
  deriving DecidableEq, Repr

/-- Why a reference has no value. -/
inductive SubstitutionFault where
  /-- The variable is not set, and the reference has no default. -/
  | unset (name : Text)
  /-- The variable is not set, and defaults do not count. -/
  | noDefaults (name : Text)
  /-- The variable has to be set. -/
  | required (name message : Text)
  deriving DecidableEq, Repr

/-- The wording of a fault. -/
def SubstitutionFault.message : SubstitutionFault → Text
  | .unset name => "Environment variable '" ++ name ++ "' is not set. Suggestion: export " ++ name ++
      "=value"
  | .noDefaults name => "Environment variable '" ++ name ++
      "' is not set and defaults are not allowed in strict mode"
  | .required name message => "Environment variable '" ++ name ++ "': " ++ message

namespace Substitution

/-- What a reference says behind the colon, and what that means. -/
def unsetOf (name : Text) : Text → Unset
  | '?' :: message => .fail (if message.isEmpty then name ++ " is required" else message)
  | '-' :: t => .default t
  | t => .default t

/-- A reference: a dollar sign and, in curly brackets, a name and what is to happen if the variable
is not set. -/
def reference? : Recogniser VariableReference := fun t => do
  let rest ← dropLead? "$\x7b" t
  let c ← rest.head?
  if !(isAsciiLetter c || c == '_') then none
  let name := rest.takeWhile fun c => isAsciiLetter c || isAsciiDigit c || c == '_'
  match rest.drop name.length with
  | '\x7d' :: _ =>
    let n := name.length + 3
    return (⟨name, .keep, t.take n⟩, n)
  | ':' :: rest =>
    let (body, _) ← cutAt? "\x7d" rest
    let n := name.length + body.length + 4
    return (⟨name, unsetOf name body, t.take n⟩, n)
  | _ => none

/-- The text that takes the place of a reference.  In strict mode every variable has to be set. -/
def resolve (env : List (Text × Text)) (strict : Bool) (r : VariableReference) :
    Except SubstitutionFault Text :=
  match env.lookup r.name with
  | some t => .ok t
  | none =>
    match r.unset with
    | .keep => if strict then .error (.unset r.name) else .ok r.shown
    | .fail message => .error (.required r.name message)
    | .default t => if strict then .error (.noDefaults r.name) else .ok t

/-- The text of scanned pieces with the references replaced. -/
def resolvePieces (env : List (Text × Text)) (strict : Bool) :
    List (Piece VariableReference) → Except SubstitutionFault Text
  | [] => .ok []
  | .char c :: ps => do return c :: (← resolvePieces env strict ps)
  | .hit r _ _ :: ps => do
    let t ← resolve env strict r
    return t ++ (← resolvePieces env strict ps)

/-- The words for truth values. -/
def truthWords : List (Text × Bool) :=
  [("true".toList, true), ("yes".toList, true), ("on".toList, true), ("false".toList, false),
    ("no".toList, false), ("off".toList, false)]

/-- The truth value or the number that a text looks like, or the text. -/
def coerce (t : Text) : Value :=
  match truthWords.lookup (lower t), Number.readInt? t, Number.readFloat? t with
  | some b, _, _ => .bool b
  | none, some n, _ => .int n
  | none, none, some x => .float x
  | none, none, none => .str t

/-- Whether a text is one reference and nothing else. -/
def isReference (t : Text) : Bool :=
  match reference? t with
  | some (_, n) => n == t.length
  | none => false

/-- A text with its references replaced. -/
def inText (env : List (Text × Text)) (strict : Bool) (t : Text) :
    Except SubstitutionFault Value := do
  let new ← resolvePieces env strict (pieces reference? t)
  return if isReference t && new != t then coerce new else .str new

end Substitution

mutual

/-- A value with the references in its texts replaced; keys stay as they are. -/
def substitute (env : List (Text × Text)) (strict : Bool) : Value → Except SubstitutionFault Value
  | .str t => Substitution.inText env strict t
  | .list xs => do return .list (← substituteAll env strict xs)
  | .dict es => do return .dict (← substituteEntries env strict es)
  | v => .ok v

/-- Values with the references in their texts replaced. -/
def substituteAll (env : List (Text × Text)) (strict : Bool) :
    List Value → Except SubstitutionFault (List Value)
  | [] => .ok []
  | v :: vs => do
    let v ← substitute env strict v
    return v :: (← substituteAll env strict vs)

/-- Entries with the references in their values replaced. -/
def substituteEntries (env : List (Text × Text)) (strict : Bool) :
    List (Value × Value) → Except SubstitutionFault (List (Value × Value))
  | [] => .ok []
  | (k, v) :: es => do
    let v ← substitute env strict v
    return (k, v) :: (← substituteEntries env strict es)

end

end Pagewright
