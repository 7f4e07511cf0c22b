import Pagewright.Text.Quoted

/-! # Failures

Failures that end an operation, as opposed to the problems of a composition, which are reported
and leave a placeholder in the page.

Main definitions: `Failure` (the causes) and `Failure.message` (their wording). -/

namespace Pagewright

/-- Why an operation ended without a result. -/
inductive Failure where
  /-- A numbered place of a list that does not exist was asked for. -/
  | noSuchPlace
  /-- An element was taken from an empty list. -/
  | takenFromEmpty
  /-- A path of a file holds the character zero. -/
  | nulInPath
  /-- A file does not exist. -/
  | noFile (path : Text)
  /-- A directory stands where a file was asked for. -/
  | directoryInstead (path : Text)
  /-- A file stands where a directory was asked for. -/
  | fileInstead (path : Text)
  /-- A path goes through a file as if it were a directory. -/
  | fileOnTheWay (path : Text)
  /-- Work was to be shared by nobody. -/
  | noWorkers
  deriving DecidableEq, Repr

/-- The wording of a failure. -/
def Failure.message : Failure → Text
  | .noSuchPlace => "list index out of range"
  | .takenFromEmpty => "pop from empty list"
  | .nulInPath => "embedded null byte"
  | .noFile path => "[Errno 2] No such file or directory: " ++ Text.quoted path
  | .directoryInstead path => "[Errno 21] Is a directory: " ++ Text.quoted path
  | .fileInstead path => "[Errno 17] File exists: " ++ Text.quoted path
  | .fileOnTheWay path => "[Errno 20] Not a directory: " ++ Text.quoted path
  | .noWorkers => "max_workers must be greater than 0"

end Pagewright
