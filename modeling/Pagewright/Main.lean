import Pagewright.Console.Command

/-! # The program

Reads the files below the current directory and below absolute paths on the command line, runs the
command, and carries out what it leaves: files that are new, what is printed, and the exit code.

Main definition: `main`. -/

open Pagewright

/-- The texts of the files below a place, under the components of their paths.  What cannot be read
as text is passed over. -/
partial def filesBelow (place : List Text) : IO (List (List Text × Text)) := do
  let path := (← IO.currentDir) / ("/" ++ String.ofList (Text.join "/" place))
  if ← path.isDir then
    let mut found := []
    for entry in ← path.readDir do
      found := found ++ (← filesBelow (place ++ [entry.fileName.toList]))
    return found
  else
    try
      return [(place, (← IO.FS.readFile path).toList)]
    catch _ => return []

/-- The file tree that a command line can see. -/
def visibleTree (args : List Text) : IO Tree := do
  let home := Path.parts (← IO.currentDir).toString.toList
  let roots := (args.map DiskPath.ofText).filter DiskPath.isRooted
  let mut files ← filesBelow home
  for p in roots do
    files := files ++ (← filesBelow (Path.reduce true p.parts))
  return { home, files }

/-- The environment variables that the files of a tree refer to. -/
def environmentOf (tree : Tree) : IO (List (Text × Text)) := do
  let names := tree.files.flatMap fun (_, t) =>
    (Text.hits Substitution.reference? t).map VariableReference.name
  let mut env := []
  for name in debugVariable :: names do
    if let some value ← IO.getEnv (String.ofList name) then
      env := (name, value.toList) :: env
  return env

/-- Sixteen hexadecimal digits that nobody can guess. -/
def freshNonce : IO Text := do
  return (← IO.getRandomBytes 8).toList.flatMap fun b => Text.hexDigits 2 b.toNat

/-- Writes the files of a tree that are not in another one. -/
def writeNew (old new : Tree) : IO Unit := do
  for (place, t) in new.files do
    unless old.files.contains (place, t) do
      let path := (← IO.currentDir) / ("/" ++ String.ofList (Text.join "/" place))
      if let some parent := path.parent then IO.FS.createDirAll parent
      IO.FS.writeFile path (String.ofList t)

/-- Runs the program. -/
def main (args : List String) : IO UInt32 := do
  let args := args.map String.toList
  let tree ← visibleTree args
  let out := Console.run tree (← environmentOf tree) (← freshNonce) args
  writeNew tree out.tree
  IO.print (String.ofList out.printed)
  IO.eprint (String.ofList out.said)
  if let some b := out.brokeOff then IO.eprintln (String.ofList b.message)
  if out.code = 2 then IO.eprint (String.ofList Console.usage)
  return out.code.toUInt32
