import Pagewright.Failure
import Pagewright.Library.Tree
import Pagewright.Problem
import Pagewright.Text.Named
import Pagewright.Text.Similarity

/-! # Libraries

A library holds the layouts and partials that pages refer to.  It is a shelf of texts in memory or a
folder of a file tree.  A reference never leads out of a library.

Main definitions: `Shelf`, `Folder`, `Library`, `Library.locate`, `Library.read`. -/

namespace Pagewright

open Text

/-- Templates in memory under their paths in normal form. -/
structure Shelf where
  templates : List (Text × Text) := []

namespace Shelf

/-- A shelf with a template put under a path as it is, in place of the one that was there. -/
def put (s : Shelf) (path t : Text) : Shelf := ⟨Named.put path t s.templates⟩

/-- The shelf with given templates, of which the later of two under one path counts. -/
def ofTemplates (ts : List (Text × Text)) : Shelf :=
  ts.foldl (fun s (path, t) => s.put (Path.normal path) t) ⟨[]⟩

/-- What stands for the shelf in a message. -/
def label : Text := "<memory>"

/-- The path to which a reference leads.  Backslashes count as slashes. -/
def locate (scope reference : Text) : Except Problem Text :=
  let p := Path.normal (replaceAll "\\" "/" reference)
  if p.head? = some '/' ∨ p = Path.up ∨ (Path.up ++ ['/']).isPrefixOf p then
    .error (.outside reference label scope)
  else .ok p

/-- The text under a path. -/
def text? (s : Shelf) (path : Text) : Option Text := s.templates.lookup path

/-- The paths of all templates, in the order of their characters. -/
def names (s : Shelf) : List Text := Text.sorted (s.templates.map Prod.fst)

end Shelf

/-- Templates that are files below a directory of a file tree. -/
structure Folder where
  tree : Tree := {}
  root : DiskPath

namespace Folder

/-- The path below the root to which a reference leads by its components alone. -/
def locate (f : Folder) (scope reference : Text) : Except Halt Text :=
  let target := f.root.join (.ofText reference)
  if f.root.shown.contains '\x00' || reference.contains '\x00' then .error (.failure .nulInPath)
  else
    match dropParts? (f.tree.absolute f.root) (f.tree.absolute target) with
    | none => .error (.problem (.outside reference f.root.shown scope))
    | some [] => .ok ['.']
    | some cs => .ok (Text.join "/" cs)
where
  /-- The components that follow those of the root. -/
  dropParts? : List Text → List Text → Option (List Text)
    | [], cs => some cs
    | _ :: _, [] => none
    | r :: rs, c :: cs => if r = c then dropParts? rs cs else none

/-- The text of the file at a path below the root. -/
def text? (f : Folder) (path : Text) : Option Text := f.tree.text? (f.root.join (.ofText path))

/-- The paths of all files below the root, in the order of their characters. -/
def names (f : Folder) : List Text := f.tree.below f.root

end Folder

/-- Where layouts and partials are taken from. -/
inductive Library where
  | shelf (s : Shelf)
  | folder (f : Folder)

namespace Library

/-- The path to which a reference leads. -/
def locate (scope reference : Text) : Library → Except Halt Text
  | .shelf _ => (Shelf.locate scope reference).mapError .problem
  | .folder f => f.locate scope reference

/-- The text under a path. -/
def text? (path : Text) : Library → Option Text
  | .shelf s => s.text? path
  | .folder f => f.text? path

/-- Whether there is a template under a path. -/
def holds (l : Library) (path : Text) : Bool := (l.text? path).isSome

/-- The paths of all templates, in the order of their characters. -/
def names : Library → List Text
  | .shelf s => s.names
  | .folder f => f.names

/-- The problem of a template that is not there, with names like the one asked for. -/
def absence (l : Library) (path scope : Text) : Problem :=
  .absent path scope (closeMatches 3 path l.names)

/-- The text under a path that has to be there. -/
def read (l : Library) (path scope : Text) : Except Problem Text :=
  match l.text? path with
  | some t => .ok t
  | none => .error (l.absence path scope)

end Library

end Pagewright
