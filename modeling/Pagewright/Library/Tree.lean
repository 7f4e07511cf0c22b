import Pagewright.Failure
import Pagewright.Library.Path

/-! # File trees

A file tree holds the texts of files below the root directory and knows the directory from which
relative paths start.  Directories are there because files lie in them.

Main definitions: `Tree`, `Tree.absolute` (the place of a path by its components alone),
`Tree.walk` (the place that is reached by going from directory to directory), `Tree.read`,
`Tree.isDirectory`, `Tree.below`, `Tree.write`. -/

namespace Pagewright

open Text

/-- Files with their texts under the components of their paths, and the directory from which
relative paths start. -/
structure Tree where
  home : List Text := ["site"]
  files : List (List Text × Text) := []

namespace Tree

/-- The tree with given files below the directory from which relative paths start. -/
def ofFiles (files : List (Text × Text)) (home : List Text := ["site"]) : Tree :=
  ⟨home, files.map fun (path, t) => (home ++ Path.parts path, t)⟩

/-- The place of a path by its components alone, whether it exists or not. -/
def absolute (tree : Tree) (p : DiskPath) : List Text :=
  Path.reduce true (if p.isRooted then p.parts else tree.home ++ p.parts)

/-- Whether a place is a directory. -/
def isDirectoryAt (tree : Tree) (place : List Text) : Bool :=
  place.isPrefixOf tree.home ||
    tree.files.any fun (p, _) => place.isPrefixOf p && decide (place.length < p.length)

/-- Whether a place is a file. -/
def isFileAt (tree : Tree) (place : List Text) : Bool := tree.files.any fun (p, _) => p == place

/-- The place that is reached from a directory by going through the components of a path, each of
them from a directory; `shown` is the path in messages. -/
def walkFrom (tree : Tree) (shown : Text) : List Text → List Text → Except Failure (List Text)
  | place, [] => .ok place
  | place, c :: cs =>
    if tree.isDirectoryAt place then
      walkFrom tree shown (if c = Path.up then place.dropLast else place ++ [c]) cs
    else if tree.isFileAt place then .error (.fileOnTheWay shown)
    else .error (.noFile shown)

/-- The place that is reached by going through the components of a path. -/
def walk (tree : Tree) (p : DiskPath) : Except Failure (List Text) :=
  if p.shown.contains '\x00' then .error .nulInPath
  else walkFrom tree p.shown (if p.isRooted then [] else tree.home) p.parts

/-- Line ends of all kinds turned into line feeds. -/
def plainLines : Text → Text
  | '\r' :: '\n' :: r => '\n' :: plainLines r
  | '\r' :: r => '\n' :: plainLines r
  | c :: r => c :: plainLines r
  | [] => []

/-- The text of a file as it is stored. -/
def stored (tree : Tree) (p : DiskPath) : Except Failure Text := do
  let place ← tree.walk p
  match tree.files.find? fun (q, _) => q == place with
  | some (_, t) => return t
  | none =>
    .error (if tree.isDirectoryAt place then .directoryInstead p.shown else .noFile p.shown)

/-- The text of a file, with plain line ends. -/
def read (tree : Tree) (p : DiskPath) : Except Failure Text := (tree.stored p).map plainLines

/-- The text of a file, if there is one. -/
def text? (tree : Tree) (p : DiskPath) : Option Text := (tree.read p).toOption

/-- Whether a path leads to a file. -/
def isFile (tree : Tree) (p : DiskPath) : Bool := (tree.text? p).isSome

/-- Whether a path leads to a directory. -/
def isDirectory (tree : Tree) (p : DiskPath) : Bool :=
  (tree.walk p).toOption.any tree.isDirectoryAt

/-- The paths of the files in a directory and below it, relative to it, in the order of their
characters. -/
def below (tree : Tree) (p : DiskPath) : List Text :=
  match tree.walk p with
  | .error _ => []
  | .ok place =>
    let inside := tree.files.filterMap fun (q, _) =>
      if place.isPrefixOf q && decide (place.length < q.length) then
        some (Text.join "/" (q.drop place.length))
      else none
    Text.sorted inside

/-- The first place on the way to a place that is a file, as the number of its components. -/
def fileOnTheWay? (tree : Tree) (place : List Text) : Option Nat :=
  (List.range (place.length + 1)).find? fun n => tree.isFileAt (place.take n)

/-- A tree with a file written at a path, in place of the file that was there.  Directories that are
missing are made. -/
def write (tree : Tree) (p : DiskPath) (t : Text) : Except Failure Tree :=
  let place := tree.absolute p
  let parent := tree.absolute p.parent
  match tree.fileOnTheWay? parent with
  | some n =>
    .error (if n = parent.length then .fileInstead p.parent.shown else .fileOnTheWay p.parent.shown)
  | none =>
    if tree.isDirectoryAt place then .error (.directoryInstead p.shown)
    else .ok { tree with files := (tree.files.filter fun (q, _) => q != place) ++ [(place, t)] }

end Tree

end Pagewright
