import Pagewright.Json.Read
import Pagewright.Library.Tree
import Pagewright.Settings.Check
import Pagewright.Settings.Substitution
import Pagewright.Value.Compare
import Pagewright.Yaml.Data

/-! # Loading settings and data

Settings are loaded from a YAML file and data from YAML and JSON files.  Paths in a settings file
start from its directory.

Main definitions: `LoadFault`, `loadData`, `mergeData`, `settingsOf`, `loadSettings`,
`Overrides`, `buildSettings`. -/

/-! ## Merging mappings

Main definition: `deepMerge` (two mappings as one, entry by entry and level by level). -/

namespace Pagewright.Value

mutual

/-- What stands under a key for which there is a new value: mappings are merged, and in all other
cases the new value wins. -/
def merged (old : Option Value) : Value → Value
  | .dict new =>
    match old with
    | some (.dict es) => .dict (deepMerge es new)
    | _ => .dict new
  | new => new

/-- The entries of a mapping with those of another one, which win.  Keys that are there keep their
places. -/
def deepMerge (base : List (Value × Value)) : List (Value × Value) → List (Value × Value)
  | [] => base
  | (k, v) :: es => deepMerge (insert k (merged (lookup? k base) v) base) es

end

end Pagewright.Value

namespace Pagewright

open Text

/-- Why settings or data cannot be loaded. -/
inductive LoadFault where
  | file (f : Failure)
  | noDataFile (path : Text)
  | noSettingsFile (path : Text)
  | unknownSuffix (suffix : Text)
  | noMappingInData (path : Text)
  | noMappingInSettings (path : Text)
  | yaml (f : Yaml.Fault)
  | json (document : Text) (e : Json.ReadError)
  /-- A reference to an environment variable of a settings file has no value. -/
  | variable (path : Text) (f : SubstitutionFault)
  /-- The name of a field is not a text. -/
  | fieldsNotText
  | invalid (complaints : List Complaint)

/-- The wording of a fault, in its first line. -/
def LoadFault.message : LoadFault → Text
  | .file f => f.message
  | .noDataFile path => "Data file not found: " ++ path ++
      ". Suggestion: Check the path relative to the configuration file."
  | .noSettingsFile path => "Configuration file not found: " ++ path ++
      ". Suggestion: Create it or pass --config with a valid path."
  | .unknownSuffix suffix => "Unsupported data file extension: " ++ suffix ++
      ". Suggestion: Use one of .json, .yaml, .yml"
  | .noMappingInData path => "Data file " ++ path ++ " must contain a mapping at the top level"
  | .noMappingInSettings path => "Configuration file " ++ path ++ " must contain a mapping"
  | .yaml f => f.message
  | .json document e => e.message document
  | .variable path f =>
    "Environment variable substitution failed in " ++ path ++ ": " ++ f.message
  | .fieldsNotText => "keywords must be strings"
  | .invalid _ => "Configuration validation failed:"

/-- The result of loading. -/
abbrev Load (α : Type) := Except LoadFault α

/-! ### Data -/

/-- The value in a JSON document, which has no byte order mark. -/
def readJson (t : Text) : Load Value := (Json.read t).mapError (.json t)

/-- The value in a YAML document. -/
def readYaml (t : Text) : Load Value := (Yaml.read t).mapError .yaml

/-- The mapping in a data file, which is read as its suffix says. -/
def loadData (tree : Tree) (p : DiskPath) : Load (List (Value × Value)) :=
  match tree.text? p with
  | none => .error (.noDataFile p.shown)
  | some t => do
    let suffix := lower p.suffix
    let v ←
      if suffix = ".json" then readJson t
      else if suffix = ".yaml" ∨ suffix = ".yml" then readYaml t
      else .error (.unknownSuffix p.suffix)
    match v with
    | .none => return []
    | .dict es => return es
    | _ => .error (.noMappingInData p.shown)

/-- Data with the mappings of files merged into it in order, the later ones winning. -/
def mergeData (tree : Tree) (data : List (Value × Value)) :
    List DiskPath → Load (List (Value × Value))
  | [] => .ok data
  | p :: ps => do
    let more ← loadData tree p
    mergeData tree (Value.deepMerge data more) ps

/-! ### Settings -/

/-- Settings from a mapping; relative paths in it start from a directory, if one is given, and its
data files are merged into its data. -/
def settingsOf (tree : Tree) (env : List (Text × Text)) (base : Option DiskPath)
    (es : List (Value × Value)) : Load Settings := do
  if es.any fun (k, _) => k.text?.isNone then .error .fieldsNotText
  let s ← (settings? env es).mapError .invalid
  let placed : DiskPath → DiskPath := fun p => match base with
    | some base => base.join p
    | none => p
  let data ← mergeData tree s.data (s.dataFiles.map fun f => placed (.ofText f))
  return { s with root := placed s.root, data := data }

/-- How the references in a settings file are read: not at all, or with defaults, or strictly. -/
inductive References where
  | ignored
  | lenient
  | strict
  deriving DecidableEq, Repr

/-- Settings from a file. -/
def loadSettings (tree : Tree) (env : List (Text × Text)) (references : References)
    (p : DiskPath) : Load Settings :=
  match tree.text? p with
  | none => .error (.noSettingsFile p.shown)
  | some t => do
    let v ← readYaml t
    let es ← (match v with
      | .dict es => .ok es
      | v => if v.isTrue then .error (.noMappingInSettings p.shown) else .ok [])
    let es ←
      if references = .ignored then .ok es
      else (substituteEntries env (references = .strict) es).mapError (.variable p.shown)
    settingsOf tree env (some p.parent) es

/-- What a command line sets over a settings file. -/
structure Overrides where
  file : Option DiskPath := none
  root : Option DiskPath := none
  partials : Option Text := none
  dataFiles : List DiskPath := []
  maxDepth : Option Int := none

/-- Settings from a file, if there is one, with what a command line sets over it. -/
def buildSettings (tree : Tree) (env : List (Text × Text)) (o : Overrides) : Load Settings := do
  let s ← match o.file with
    | some p => loadSettings tree env .lenient p
    | none => settingsOf tree env none []
  let data ← mergeData tree s.data o.dataFiles
  return { s with
    root := o.root.getD s.root
    partials := o.partials.getD s.partials
    maxDepth := o.maxDepth.getD s.maxDepth
    data := data }

end Pagewright
