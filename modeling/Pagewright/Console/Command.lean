import Pagewright.Console.Arguments
import Pagewright.Console.Table
import Pagewright.Kit
import Pagewright.Settings.Load

/-! # Commands

Three commands: one prints a page or writes it to a file, one checks pages and says what is wrong
with them, and one lists the directives.

Main definitions: `Command`, `Invocation` (what a command line asks for), `invocation?`, `Outcome`,
`run`. -/

namespace Pagewright.Console

open Text

/-- The name of the program. -/
def programName : Text := "htmlkit"

/-- The version of the program. -/
def programVersion : Text := "0.1.0"

/-- A command for pages, or for nothing but its own text. -/
inductive Command where
  | render (page : DiskPath) (output : Option DiskPath)
  | check (pages : List DiskPath) (workers : Int)
  | directives

/-- What a command line asks for. -/
inductive Invocation where
  | run (command : Command) (overrides : Overrides)
  | help
  | version
  /-- The command line is not understood. -/
  | misuse

/-! ### Reading the command line -/

/-- An option with its spellings. -/
def form (name : String) (takesValue : Bool) (spellings : List String) : OptionForm :=
  ⟨spellings.map String.toList, name.toList, takesValue⟩

/-- The options in front of a command. -/
def programForms : List OptionForm :=
  [form "verbose" false ["--verbose", "-v"], form "version" false ["--version"],
    form "help" false ["--help"]]

/-- The options of the commands for pages. -/
def pageForms : List OptionForm :=
  [form "config" true ["--config", "-c"], form "root" true ["--root"],
    form "partials" true ["--partials"], form "data" true ["--data", "-d"],
    form "max-depth" true ["--max-depth"], form "help" false ["--help"]]

/-- What stands at a path as it is written: a file, a directory or nothing.  A slash at the end asks
for a directory. -/
def kindAt (tree : Tree) (t : Text) : Option Bool :=
  let p := DiskPath.ofText t
  if t.isEmpty then none
  else if tree.isDirectory p then some false
  else if tree.isFile p then
    if t.getLast? = some '/' ∨ (dropTail? "/." t).isSome then none else some true
  else none

/-- A path that has to lead to a file. -/
def existingFile? (tree : Tree) (t : Text) : Option DiskPath :=
  if kindAt tree t = some true then some (.ofText t) else none

/-- A path that must not lead to a directory. -/
def possibleFile? (tree : Tree) (t : Text) : Option DiskPath :=
  if kindAt tree t = some false then none else some (.ofText t)

/-- A path that must not lead to a file. -/
def possibleDirectory? (tree : Tree) (t : Text) : Option DiskPath :=
  if kindAt tree t = some true then none else some (.ofText t)

/-- A value that may be missing, read by a function that may fail. -/
def optional {α : Type} (read : Text → Option α) : Option Text → Option (Option α)
  | none => some none
  | some t => (read t).map some

/-- What the options of a command for pages set over a settings file. -/
def overrides? (tree : Tree) (l : Line) : Option Overrides := do
  let file ← optional (existingFile? tree) (l.value? "config")
  let root ← optional (possibleDirectory? tree) (l.value? "root")
  let dataFiles ← (l.values "data").mapM (existingFile? tree)
  let maxDepth ← optional Number.readInt? (l.value? "max-depth")
  return { file, root, partials := l.value? "partials", dataFiles, maxDepth }

/-- The command `render`. -/
def renderCommand? (tree : Tree) (l : Line) : Option Invocation := do
  let [page] := l.words | none
  let page ← existingFile? tree page
  let output ← optional (possibleFile? tree) (l.value? "output")
  return .run (.render page output) (← overrides? tree l)

/-- The command `check`. -/
def checkCommand? (tree : Tree) (l : Line) : Option Invocation := do
  if l.words.isEmpty then none
  let pages ← l.words.mapM (existingFile? tree)
  let workers ← optional Number.readInt? (l.value? "workers")
  return .run (.check pages (workers.getD 4)) (← overrides? tree l)

/-- What the words of a command ask for. -/
def commandInvocation? (tree : Tree) (name : Text) (words : List Text) : Option Invocation := do
  let asked := fun (forms : List OptionForm) (read : Line → Option Invocation) => do
    let l ← readLine? forms true words
    if l.has "help" then return .help else read l
  if name = "render" then
    asked (form "output" true ["--output", "-o"] :: pageForms) (renderCommand? tree)
  else if name = "check" then
    asked (form "workers" true ["--workers"] :: pageForms) (checkCommand? tree)
  else if name = "directives" then
    asked [form "help" false ["--help"]] fun l =>
      if l.words.isEmpty then some (.run .directives {}) else none
  else none

/-- What a command line asks for.  The file tree tells whether the files that it names are there. -/
def invocation (tree : Tree) (args : List Text) : Invocation :=
  let asked : Option Invocation := do
    let l ← readLine? programForms false args
    match l.options.find? fun (k, _) => k = "version".toList ∨ k = "help".toList with
    | some (k, _) => return if k = "version".toList then .version else .help
    | none =>
      match l.words with
      | [] => none
      | name :: words => commandInvocation? tree name words
  asked.getD .misuse

/-! ### Running -/

/-- Why a command broke off. -/
inductive BreakOff where
  | load (f : LoadFault)
  | failure (f : Failure)
  /-- A line for the console has faulty markup. -/
  | markup (wording : Text)

/-- What a command leaves: the exit code, what it printed, what it said to the user beside that, the
file tree, and why it broke off, if it did. -/
structure Outcome where
  code : Nat
  printed : Text := []
  said : Text := []
  tree : Tree
  brokeOff : Option BreakOff := none

/-- The wording of what broke off a command. -/
def BreakOff.message : BreakOff → Text
  | .load f => f.message
  | .failure f => f.message
  | .markup wording => wording

/-- Whether a fault of loading is reported to the user, instead of breaking off the command. -/
def isReported : LoadFault → Bool
  | .yaml (.integer ..) => true
  | .yaml (.decimal _) => true
  | .yaml _ => false
  | .variable .. => false
  | .fieldsNotText => false
  | _ => true

/-- The outcome of a command without settings. -/
def withoutSettings (tree : Tree) (f : LoadFault) : Outcome :=
  if isReported f then
    { code := 1, said := "Error loading configuration: " ++ f.message ++ ['\n'], tree }
  else { code := 1, tree, brokeOff := some (.load f) }

/-- The outcome of a line printed on the console. -/
def printLine (tree : Tree) (code : Nat) (before line : Text) : Outcome :=
  match plainMarkup? line with
  | .ok t => { code, printed := before ++ t ++ ['\n'], tree }
  | .error wording => { code := 1, printed := before, tree, brokeOff := some (.markup wording) }

/-- The lines that tell the user what was noticed. -/
def noticeLines (ns : List Notice) : Text :=
  ns.flatMap fun n => (match n with
    | .problem p => p.line
    | .remark t => t) ++ ['\n']

/-- The kit for settings. -/
def kitFor (tree : Tree) (s : Settings) : Kit :=
  Kit.make s (Kit.libraryOf s tree) (if s.memo.shared then {} else Kit.memoOf s)

/-- Prints a page, or writes it to a file. -/
def runRender (tree : Tree) (nonce : Text) (s : Settings) (page : DiskPath)
    (output : Option DiskPath) : Outcome :=
  match ((kitFor tree s).renderFile tree 0 nonce page []).1 with
  | .error f => { code := 1, tree, brokeOff := some (.failure f) }
  | .ok r =>
    let said := noticeLines r.notices
    match output with
    | none => { code := 0, printed := r.text, said, tree }
    | some path =>
      match tree.write path r.text with
      | .error f => { code := 1, said, tree, brokeOff := some (.failure f) }
      | .ok tree =>
        let done := "[green]✓ Rendered " ++ page.shown ++ " -> " ++ path.shown ++ "[/green]"
        { printLine tree 0 [] done with said }

/-- Checks pages: all is well if nothing is reported. -/
def runCheck (tree : Tree) (nonce : Text) (s : Settings) (pages : List DiskPath)
    (workers : Int) : Outcome :=
  let jobs := pages.map fun p (k : Kit) => k.renderFile tree 0 nonce p []
  match ((kitFor tree s).renderAll workers jobs).1 with
  | .error f => { code := 1, tree, brokeOff := some (.failure f) }
  | .ok results =>
    let problems := results.flatMap PageResult.problems
    if problems.isEmpty then
      printLine tree 0 [] ("[green]✓ " ++ ofNat results.length ++
        " page(s) rendered without diagnostics[/green]")
    else
      let flagged := (results.filter fun r => !r.problems.isEmpty).map PageResult.path
      let table := join "\n" (problemTable problems).drawn ++ ['\n']
      printLine tree 1 table ("[red]✗ " ++ ofNat problems.length ++ " diagnostic(s) in: " ++
        join ", " flagged ++ "[/red]")

/-- Runs a command. -/
def runCommand (tree : Tree) (env : List (Text × Text)) (nonce : Text) (o : Overrides) :
    Command → Outcome
  | .directives => { code := 0, printed := join "\n" directiveTable.drawn ++ ['\n'], tree }
  | .render page output =>
    match buildSettings tree env o with
    | .error f => withoutSettings tree f
    | .ok s => runRender tree nonce s page output
  | .check pages workers =>
    match buildSettings tree env o with
    | .error f => withoutSettings tree f
    | .ok s => runCheck tree nonce s pages workers

/-- How the program is used. -/
def usage : Text := join "\n" (List.map String.toList
  ["Usage: htmlkit [OPTIONS] COMMAND [ARGS]...", "",
    "  htmlkit - Blade-style directive templates for static HTML.", "",
    "Options:", "  --version      Show the version and exit.",
    "  -v, --verbose  Enable debug logging", "  --help         Show this message and exit.", "",
    "Commands:", "  check       Render PAGES and report diagnostics, exiting 1 if there are...",
    "  directives  List the supported directive syntax.",
    "  render      Render PAGE and print the result or write it to --output.", ""])

/-- Runs the program with a command line, in a file tree and an environment. -/
def run (tree : Tree) (env : List (Text × Text)) (nonce : Text) (args : List Text) : Outcome :=
  match invocation tree args with
  | .misuse => { code := 2, tree }
  | .help => { code := 0, printed := usage, tree }
  | .version =>
    { code := 0, printed := programName ++ ", version " ++ programVersion ++ ['\n'], tree }
  | .run command o => runCommand tree env nonce o command

end Pagewright.Console
