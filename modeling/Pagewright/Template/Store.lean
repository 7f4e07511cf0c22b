import Pagewright.Template.Scope
import Pagewright.Value.Arithmetic
import Pagewright.Value.ClassList

/-! # The store of a running template

Values are trees, and most operations on them give new trees.  What can be changed while a
template runs lives in a store: containers that have been given a name, the variables of the open
scopes, and iterators that are used up.  A value refers to such a thing by its address.

Main definitions: `Cell` (what stands at an address), `Frame` (the variables of a scope), `Store`,
`Run` (a computation on a store), `keep` (containers moved into the store), `seen` (a value one
level deep) and `whole` (all the way), `itemsOf`. -/

namespace Pagewright.Template

open Value (missingWording)

/-- The variables of a scope; a name can belong to a scope and have no value yet. -/
abbrev Frame := List (Text × Option Value)

/-- Where nodes run: in which scopes, whether what they set is visible to blocks, whether printed
values are escaped, and what a block sees of the place at which it stands. -/
structure Setting where
  /-- The addresses of the open scopes, innermost first. -/
  frames : List Nat := []
  /-- The names that the open scopes mention. -/
  mentioned : List Text := []
  top : Bool := false
  autoescape : Bool := false
  overlay : List (Text × Value) := []

/-- A definition that can be called, with the place at which it stands. -/
structure Definition where
  name : Option Text
  signature : Signature
  body : List Node
  setting : Setting
  takesCaller : Bool
  takesRest : Bool
  takesNamed : Bool

/-- How a loop runs its own body on further items. -/
structure Recursion where
  target : Expr
  body : List Node
  otherwise : List Node
  test : Option Expr
  setting : Setting

/-- The state of a loop. -/
structure LoopState where
  items : List Value
  index : Nat := 0
  depth : Nat := 0
  /-- What was last asked for whether it changed. -/
  last : Option Value := none
  again : Option Recursion := none

/-- What stands at an address of the store. -/
inductive Cell where
  | list (xs : List Value)
  | dict (es : List (Value × Value))
  | set (xs : List Value)
  /-- A value with fields that can be assigned. -/
  | fields (es : List (Value × Value))
  /-- Items that can be taken once, and what goes wrong behind the last one. -/
  | iterator (items : List Value) (fault : Option Fault)
  | cycler (items : List Value) (next : Nat)
  | joiner (separator : Value) (used : Bool)
  /-- Items that have a key in common. -/
  | group (key items : Value)
  | definition (d : Definition)
  | loop (l : LoopState)

instance : Inhabited Cell := ⟨.list []⟩

/-- Everything that changes while a template runs. -/
structure Store where
  cells : Array Cell := #[]
  frames : Array Frame := #[]
  /-- What the top of the template has set. -/
  exported : List (Text × Value) := []

/-- A computation that changes the store. -/
abbrev Run := StateT Store (Except Fault)

/-- A computation with what went wrong in it, if anything did. -/
def attempt {α : Type} (x : Run α) : Run (Except Fault α) := fun s =>
  match x s with
  | .ok (a, s') => .ok (.ok a, s')
  | .error e => .ok (.error e, s)

/-- A computation that does not look at the store. -/
def pureRun {α : Type} : Except Fault α → Run α
  | .ok a => pure a
  | .error e => throw e

/-! ### Cells -/

/-- The address of a new cell. -/
def allocate (c : Cell) : Run Value := do
  let s ← get
  set { s with cells := s.cells.push c }
  return .cell s.cells.size

/-- What stands at an address. -/
def cellAt (a : Nat) : Run Cell := do return (← get).cells[a]?.getD default

/-- A new content for an address. -/
def setCell (a : Nat) (c : Cell) : Run Unit :=
  modify fun s => { s with cells := s.cells.setIfInBounds a c }

/-- The cell that a value refers to. -/
def cell? : Value → Run (Option (Nat × Cell))
  | .cell a => do return some (a, ← cellAt a)
  | _ => return none

mutual

/-- A value whose containers have been moved into the store. -/
def keep : Value → Run Value
  | .list xs => do allocate (.list (← keepAll xs))
  | .tuple xs => do return .tuple (← keepAll xs)
  | .set xs => allocate (.set xs)
  | .dict es => do allocate (.dict (← keepEntries es))
  | .row item place => do return .row (← keep item) place
  | v => return v

/-- Values whose containers have been moved into the store. -/
def keepAll : List Value → Run (List Value)
  | [] => return []
  | x :: xs => do return (← keep x) :: (← keepAll xs)

/-- Entries whose containers have been moved into the store. -/
def keepEntries : List (Value × Value) → Run (List (Value × Value))
  | [] => return []
  | (k, v) :: es => do return (k, ← keep v) :: (← keepEntries es)

end

/-- A value of which the outermost container is taken out of the store. -/
def seen (v : Value) : Run Value := do
  match ← cell? v with
  | some (_, .list xs) => return .list xs
  | some (_, .dict es) => return .dict es
  | some (_, .set xs) => return .set xs
  | some (_, .group key items) => return .tuple [key, items]
  | _ => match v with
    | .view kind of => match ← cell? of with
      | some (_, .dict es) => return .view kind (.dict es)
      | _ => return v
    | _ => return v

/-- A value with all its containers taken out of the store, down to a depth. -/
def wholeTo : Nat → Value → Run Value
  | 0, v => return v
  | n + 1, v => do
    match ← seen v with
    | .list xs => return .list (← xs.mapM (wholeTo n))
    | .tuple xs => return .tuple (← xs.mapM (wholeTo n))
    | .set xs => return .set xs
    | .dict es => return .dict (← es.mapM fun (k, x) => do return (k, ← wholeTo n x))
    | .view kind x => return .view kind (← wholeTo n x)
    | .row item place => return .row (← wholeTo n item) place
    | x => return x

/-- How deeply containers are taken out of the store. -/
def wholeDepth : Nat := 500

/-- A value with all its containers taken out of the store. -/
def whole (v : Value) : Run Value := wholeTo wholeDepth v

/-! ### What values are -/

/-- The name of the kind of a value. -/
def kindOf (v : Value) : Run Text := do
  match ← cell? v with
  | some (_, .list _) => return "list"
  | some (_, .dict _) => return "dict"
  | some (_, .set _) => return "set"
  | some (_, .fields _) => return "Namespace"
  | some (_, .iterator ..) => return "generator"
  | some (_, .cycler ..) => return "Cycler"
  | some (_, .joiner ..) => return "Joiner"
  | some (_, .group ..) => return "_GroupTuple"
  | some (_, .definition _) => return "Macro"
  | some (_, .loop _) => return "LoopContext"
  | none => return v.typeName

/-- The name of the kind of a value, with the part of the system that it belongs to. -/
def ownerOf (v : Value) : Run Text := do
  let kind ← kindOf v
  let home : Text :=
    match v with
    | .position .. | .row .. => "htmlkit.templates.loop."
    | .markup _ => "markupsafe."
    | .self | .block .. => "jinja2.runtime."
    | .cell _ =>
      if kind == "Macro".toList || kind == "LoopContext".toList then "jinja2.runtime."
      else if kind == "Namespace".toList || kind == "Cycler".toList || kind == "Joiner".toList then
        "jinja2.utils."
      else []
    | _ => []
  match v with
  | .none => return "None"
  | _ => return home ++ kind ++ " object"

/-- Whether a value counts as true. -/
def truthOf (v : Value) : Run Bool := do
  match ← cell? v with
  | some (_, .loop l) => return !l.items.isEmpty
  | _ => return (← seen v).isTrue

/-- A value as it is printed. -/
def printed (v : Value) : Run Text := do
  match ← cell? v with
  | some (_, .definition d) =>
    return "<Macro " ++ (match d.name with
      | some n => Text.quoted n
      | none => "anonymous") ++ ">"
  | some (_, .loop l) =>
    return "<LoopContext " ++ Text.ofNat (l.index + 1) ++ "/" ++ Text.ofNat l.items.length ++ ">"
  | some (_, .fields es) => do
    let v ← whole (.dict es)
    return "<Namespace " ++ v.text ++ ">"
  | _ => return (← whole v).text

/-! ### Items -/

/-- The items of an iterator, which is used up, and what goes wrong behind them. -/
def drain (v : Value) : Run (Option (List Value × Option Fault)) := do
  match ← cell? v with
  | some (a, .iterator items fault) =>
    setCell a (.iterator [] none)
    return some (items, fault)
  | _ => return none

/-- The items of a value. -/
def itemsOf (v : Value) : Run (List Value) := do
  match ← drain v with
  | some (items, none) => return items
  | some (_, some fault) => throw fault
  | none => match ← cell? v with
    | some (_, .loop l) => return l.items.drop (l.index + 1)
    | _ => match ← seen v with
      | .cell _ => throw (.notIterable (← kindOf v))
      | w => pureRun w.items?

/-- The number of items of a value. -/
def lengthOf (v : Value) : Run Nat := do
  match ← cell? v with
  | some (_, .loop l) => return l.items.length
  | _ => match ← seen v with
    | .list xs | .tuple xs | .set xs => return xs.length
    | .dict es | .view _ (.dict es) => return es.length
    | .str t | .markup t => return t.length
    | .range a b s => return Value.rangeLength a b s
    | .undefined .. => return 0
    | _ => throw (.noLength (← kindOf v))

/-- A new iterator. -/
def iterator (items : List Value) (fault : Option Fault := none) : Run Value :=
  allocate (.iterator items fault)

/-! ### Missing names -/

/-- The value that stands for a missing part of a value. -/
def missingPart (of name : Value) : Run Value := do
  return .undefined name (some (← ownerOf of)) none

/-- Refuses a missing name. -/
def present (v : Value) : Run Unit := pureRun (Value.present v)

/-! ### Variables -/

/-- Opens a scope with some variables. -/
def openFrame (f : Frame) : Run Nat := do
  let s ← get
  set { s with frames := s.frames.push f }
  return s.frames.size

/-- The value of a variable in a scope: none if the scope has no such name. -/
def Frame.find? (n : Text) : Frame → Option (Option Value)
  | [] => none
  | (m, v) :: f => if m == n then some v else Frame.find? n f

/-- A scope with a variable set. -/
def Frame.assign (n : Text) (v : Option Value) : Frame → Frame
  | [] => [(n, v)]
  | (m, w) :: f => if m == n then (m, v) :: f else (m, w) :: Frame.assign n v f

/-- The value of a name in some open scopes: none if none of them has the name. -/
def lookupFrames (frames : Array Frame) (n : Text) : List Nat → Option (Option Value)
  | [] => none
  | i :: is =>
    match (frames[i]?.getD []).find? n with
    | some v => some v
    | none => lookupFrames frames n is

/-- Sets a variable in the innermost scope; at the top of the template it becomes visible to
blocks. -/
def assign (s : Setting) (n : Text) (v : Value) : Run Unit := do
  match s.frames with
  | [] => return
  | i :: _ =>
    modify fun st =>
      { st with
        frames := st.frames.modify i (Frame.assign n (some v))
        exported := if s.top then (n, v) :: st.exported.filter (fun (m, _) => m != n)
          else st.exported }

end Pagewright.Template
