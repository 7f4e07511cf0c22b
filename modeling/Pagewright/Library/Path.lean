import Pagewright.Text.Basic

/-! # Paths

A logical path names a template below a root; a disk path names a file.  Both consist of components
between slashes.  Two full stops as a component lead to the component before.

Main definitions: `Path.normal` (a logical path in normal form), `DiskPath` with `ofText`, `shown`,
`join`, `name`, `suffix` and `parent`. -/

namespace Pagewright

open Text

namespace Path

/-- The components of a path, without empty ones and single full stops. -/
def parts (t : Text) : List Text := (splitOn "/" t).filter fun c => c ≠ [] ∧ c ≠ ['.']

/-- The component that leads back. -/
def up : Text := ['.', '.']

/-- The reversed components of a path after one more component.  What leads back takes the last name
with it; at the top it stays, unless the path starts at the root. -/
def step (rooted : Bool) (done : List Text) (c : Text) : List Text :=
  if c = up then
    match done with
    | [] => if rooted then [] else [up]
    | d :: rest => if d = up then up :: d :: rest else rest
  else c :: done

/-- The components of a path with every way back taken. -/
def reduce (rooted : Bool) (cs : List Text) : List Text := (cs.foldl (step rooted) []).reverse

/-- The slashes that a path in normal form starts with: two are kept, three or more count as one. -/
def lead : Text → Text
  | '/' :: '/' :: '/' :: _ => ['/']
  | '/' :: '/' :: _ => ['/', '/']
  | '/' :: _ => ['/']
  | _ => []

/-- A path in normal form; the empty path is a single full stop. -/
def normal (t : Text) : Text :=
  let r := lead t ++ join "/" (reduce (t.head? = some '/') (parts t))
  if r.isEmpty then ['.'] else r

end Path

/-- A path of a file: the slashes it starts with and its components. -/
structure DiskPath where
  lead : Text := []
  parts : List Text := []
  deriving DecidableEq, Repr

namespace DiskPath

/-- The disk path that a text names; it keeps what leads back. -/
def ofText (t : Text) : DiskPath := ⟨Path.lead t, Path.parts t⟩

/-- Whether a path starts at the root. -/
def isRooted (p : DiskPath) : Bool := !p.lead.isEmpty

/-- A disk path as it is written. -/
def shown (p : DiskPath) : Text :=
  let r := p.lead ++ join "/" p.parts
  if r.isEmpty then ['.'] else r

/-- One path below another; a path from the root stands alone. -/
def join (p q : DiskPath) : DiskPath := if q.isRooted then q else ⟨p.lead, p.parts ++ q.parts⟩

/-- The last component of a path. -/
def name (p : DiskPath) : Text := (p.parts.getLast?).getD []

/-- The path without its last component. -/
def parent (p : DiskPath) : DiskPath := ⟨p.lead, p.parts.dropLast⟩

/-- The part of the name from its last full stop on, if there is something on both sides of it. -/
def suffix (p : DiskPath) : Text :=
  match cutAtLast? ['.'] p.name with
  | some (before, after) => if before.isEmpty || after.isEmpty then [] else '.' :: after
  | none => []

end DiskPath

end Pagewright
