import Pagewright.Yaml.Tag
import Pagewright.Yaml.Token

/-! # Nodes of YAML documents

A document is one node: a scalar, a sequence or a mapping, each with a tag.  An alias stands for the
node that its anchor names.

Main definitions: `Node`, `Reader`, `Reader.node`, `document?` (the node of a document). -/

namespace Pagewright.Yaml

open Text

/-- A node. -/
inductive Node where
  | scalar (tag t : Text)
  | sequence (tag : Text) (items : List Node)
  | mapping (tag : Text) (entries : List (Node × Node))

/-- A node without any text. -/
def Node.empty : Node := .scalar (plainTag []) []

/-- What is known while nodes are read: the tokens that follow, the nodes under their anchors, with
none for a node that is not complete, and what handles stand for. -/
structure ReadState where
  tokens : List Token
  anchors : List (Text × Option Node) := []
  handles : List (Text × Text)

/-- A computation that takes tokens. -/
abbrev Reader := StateT ReadState (Except Fault)

namespace Reader

/-- The next token. -/
def next? : Reader (Option Token) := do return (← get).tokens.head?

/-- Passes over the next token. -/
def skip : Reader Unit := modify fun s => { s with tokens := s.tokens.drop 1 }

/-- Whether one of some tokens comes next. -/
def isNext (ts : List Token) : Reader Bool := do
  match ← next? with
  | some t => return ts.contains t
  | none => return false

/-- Passes over a token that has to come next. -/
def expect (t : Token) : Reader Unit := do
  if ← isNext [t] then skip else throw .malformed

/-- The anchor that comes next. -/
def anchor? : Reader (Option Text) := do
  match ← next? with
  | some (.anchor name) =>
    skip
    return some name
  | _ => return none

/-- The tag that comes next, with its handle replaced by what it stands for. -/
def tag? : Reader (Option Text) := do
  match ← next? with
  | some (.tag none suffix) =>
    skip
    return some suffix
  | some (.tag (some handle) suffix) =>
    skip
    match (← get).handles.lookup handle with
    | some lead => return some (lead ++ suffix)
    | none => throw .malformed
  | _ => return none

/-- The anchor and the tag that come next, in either order. -/
def properties : Reader (Option Text × Option Text) := do
  match ← anchor? with
  | some name => return (some name, ← tag?)
  | none =>
    let tag ← tag?
    return (← anchor?, tag)

/-- The tag of a collection or a scalar; an exclamation mark alone is no tag of its own. -/
def tagOr (default : Text) : Option Text → Text
  | none => default
  | some tag => if tag = ['!'] then default else tag

/-- The tag of a scalar as it was written. -/
def scalarTag (tag : Option Text) (t : Text) (isPlain : Bool) : Text :=
  tagOr (if isPlain || tag.isSome then plainTag t else standardTag "str") tag

/-- Keeps a node under an anchor, once for every anchor. -/
def anchored (name : Option Text) (work : Reader Node) : Reader Node := do
  match name with
  | none => work
  | some name =>
    if (← get).anchors.any fun (k, _) => k == name then throw .malformed
    modify fun s => { s with anchors := (name, none) :: s.anchors }
    let n ← work
    modify fun s => { s with anchors := (name, some n) :: s.anchors }
    return n

/-- The node that an alias stands for. -/
def aliased (name : Text) : Reader Node := do
  match (← get).anchors.lookup name with
  | some (some n) => return n
  | _ => throw .malformed

/-- A node, or an empty one if one of some tokens comes next. -/
def emptyOr (ts : List Token) (work : Reader Node) : Reader Node := do
  if ← isNext ts then return .empty else work

mutual

/-- A node; collections without brackets may start where `inBlock` says so, and items without
indentation where `bare` says so. -/
def node (inBlock bare : Bool) : Nat → Reader Node
  | 0 => throw .malformed
  | fuel + 1 => do
    match ← next? with
    | some (.alias name) =>
      skip
      aliased name
    | _ =>
      let (name, tag) ← properties
      anchored name (content inBlock bare (name.isSome || tag.isSome) tag fuel)

/-- The content of a node with a tag; it may be missing where `optional` says so. -/
def content (inBlock bare optional : Bool) (tag : Option Text) : Nat → Reader Node
  | 0 => throw .malformed
  | fuel + 1 => do
    let sequence := fun items => Node.sequence (tagOr (standardTag "seq") tag) items
    let mapping := fun entries => Node.mapping (tagOr (standardTag "map") tag) entries
    let missing : Reader Node :=
      if optional then return .scalar (scalarTag tag [] true) [] else throw .malformed
    match ← next? with
    | some .hyphen => if bare then return sequence (← bareItems fuel) else missing
    | some (.scalar t isPlain) =>
      skip
      return .scalar (scalarTag tag t isPlain) t
    | some .flowSequence =>
      skip
      return sequence (← flowItems true fuel)
    | some .flowMapping =>
      skip
      return mapping (← flowEntries true fuel)
    | some .blockSequence =>
      if inBlock then
        skip
        return sequence (← blockItems fuel)
      else missing
    | some .blockMapping =>
      if inBlock then
        skip
        return mapping (← blockEntries fuel)
      else missing
    | _ => missing

/-- The items of a sequence, up to its end. -/
def blockItems : Nat → Reader (List Node)
  | 0 => throw .malformed
  | fuel + 1 => do
    if ← isNext [.hyphen] then
      skip
      let n ← emptyOr [.hyphen, .blockEnd] (node true false fuel)
      return n :: (← blockItems fuel)
    else
      expect .blockEnd
      return []

/-- The items of a sequence that is not indented, which ends where no item follows. -/
def bareItems : Nat → Reader (List Node)
  | 0 => throw .malformed
  | fuel + 1 => do
    if ← isNext [.hyphen] then
      skip
      let n ← emptyOr [.hyphen, .key, .value, .blockEnd] (node true false fuel)
      return n :: (← bareItems fuel)
    else return []

/-- The entries of a mapping, up to its end. -/
def blockEntries : Nat → Reader (List (Node × Node))
  | 0 => throw .malformed
  | fuel + 1 => do
    if ← isNext [.key] then
      skip
      let k ← emptyOr [.key, .value, .blockEnd] (node true true fuel)
      let v ← blockValue fuel
      return (k, v) :: (← blockEntries fuel)
    else
      expect .blockEnd
      return []

/-- The value of an entry, which may be missing. -/
def blockValue : Nat → Reader Node
  | 0 => throw .malformed
  | fuel + 1 => do
    if ← isNext [.value] then
      skip
      emptyOr [.key, .value, .blockEnd] (node true true fuel)
    else return .empty

/-- The items of a sequence in brackets; each but the first stands behind a comma. -/
def flowItems (first : Bool) : Nat → Reader (List Node)
  | 0 => throw .malformed
  | fuel + 1 => do
    if ← isNext [.flowSequenceEnd] then
      skip
      return []
    if !first then expect .comma
    if ← isNext [.flowSequenceEnd] then
      skip
      return []
    if ← isNext [.key] then
      skip
      let k ← emptyOr [.value, .comma, .flowSequenceEnd] (node false false fuel)
      let v ← flowValue .flowSequenceEnd fuel
      return .mapping (standardTag "map") [(k, v)] :: (← flowItems false fuel)
    else
      let n ← node false false fuel
      return n :: (← flowItems false fuel)

/-- The entries of a mapping in brackets; each but the first stands behind a comma. -/
def flowEntries (first : Bool) : Nat → Reader (List (Node × Node))
  | 0 => throw .malformed
  | fuel + 1 => do
    if ← isNext [.flowMappingEnd] then
      skip
      return []
    if !first then expect .comma
    if ← isNext [.flowMappingEnd] then
      skip
      return []
    if ← isNext [.key] then
      skip
      let k ← emptyOr [.value, .comma, .flowMappingEnd] (node false false fuel)
      let v ← flowValue .flowMappingEnd fuel
      return (k, v) :: (← flowEntries false fuel)
    else
      let k ← node false false fuel
      return (k, .empty) :: (← flowEntries false fuel)

/-- The value of an entry in brackets, which may be missing. -/
def flowValue (stop : Token) : Nat → Reader Node
  | 0 => throw .malformed
  | fuel + 1 => do
    if ← isNext [.value] then
      skip
      emptyOr [.comma, stop] (node false false fuel)
    else return .empty

end

/-! ### Documents -/

/-- Passes over the directives in front of a document.  There is at most one version, and every
handle is set at most once. -/
def headings : Nat → Bool → Reader Unit
  | 0, _ => throw .malformed
  | fuel + 1, versioned => do
    match ← next? with
    | some (.heading .unknown) =>
      skip
      headings fuel versioned
    | some (.heading (.version major)) =>
      if versioned || major != 1 then throw .malformed
      skip
      headings fuel true
    | some (.heading (.handle name lead)) =>
      if (← get).handles.any fun (k, _) => k == name then throw .malformed
      skip
      modify fun s => { s with handles := (name, lead) :: s.handles }
      headings fuel versioned
    | _ => return ()

/-- The handles that need not be set. -/
def usualHandles : List (Text × Text) := [(['!'], ['!']), (['!', '!'], standardTag [])]

/-- Passes over marks at the end of a document. -/
def skipEnds : Reader Unit :=
  modify fun s => { s with tokens := s.tokens.dropWhile (· == .documentEnd) }

/-- Whether a document starts without a mark. -/
def startsAtOnce : Reader Bool := do
  match ← next? with
  | some (.heading _) => return false
  | some .documentStart => return false
  | _ => return true

/-- Whether a directive, a mark or the end comes next. -/
def atDocumentEnd : Reader Bool := do
  match ← next? with
  | none => return true
  | some (.heading _) => return true
  | some t => return [Token.documentStart, .documentEnd].contains t

/-- The only document, if there is one. -/
def single (fuel : Nat) : Reader (Option Node) := do
  if (← next?).isNone then return none
  let n ← if ← startsAtOnce then
      modify fun s => { s with handles := usualHandles }
      node true false fuel
    else
      headings fuel false
      modify fun s => { s with handles := s.handles ++ usualHandles }
      expect .documentStart
      if ← atDocumentEnd then pure .empty else node true false fuel
  skipEnds
  if (← next?).isSome then throw .malformed
  return some n

end Reader

/-- The node of a document, if it holds anything.  There is not more than one document. -/
def document? (t : Text) : Except Fault (Option Node) := do
  let ts ← tokens t
  -- Every token is taken at most once, and between two tokens there are at most four steps.
  let (n, _) ← (Reader.single (4 * ts.length + 8)).run { tokens := ts, handles := [] }
  return n

end Pagewright.Yaml
