import Pagewright.Library.Path
import Pagewright.Lowering.Transform
import Pagewright.Memo
import Pagewright.Value.Basic

/-! # Settings

What can be set for a project, with the values that hold where nothing is set.

Main definitions: `MemoSettings`, `Settings`, `Settings.partialsPath`. -/

namespace Pagewright

/-- The settings of the memo for rewritten templates. -/
structure MemoSettings where
  capacity : Int := 100
  lifetime : Lifetime := .whole 300
  /-- Whether the memo is shared between projects. -/
  shared : Bool := false

/-- The settings of a project. -/
structure Settings where
  /-- The directory from which other relative paths start. -/
  root : DiskPath := {}
  /-- The directory of layouts and partials. -/
  partials : Text := "partials"
  /-- How many layouts may follow each other, and how deeply partials may be nested. -/
  maxDepth : Int := 50
  /-- Data for every template. -/
  data : List (Value × Value) := []
  /-- Files with further data. -/
  dataFiles : List Text := []
  delimiters : Delimiters := {}
  memo : MemoSettings := {}
  sandbox : Bool := true
  trimBlocks : Bool := false
  lstripBlocks : Bool := false
  debug : Bool := false

/-- The path of the directory of layouts and partials. -/
def Settings.partialsPath (s : Settings) : DiskPath := s.root.join (.ofText s.partials)

end Pagewright
