import Pagewright.Assembly.IncludeTag
import Pagewright.Assembly.Inheritance
import Pagewright.Assembly.Section

/-! # Inclusion of partials

An include tag is expanded to the finished output of a partial, which is set aside: the text around
it gets a token and never the output itself.  A tag that fails leaves a comment in its place.

Main definitions: `expression?`, `locate`, `partialFor`, `expandTag`, `resolve`, `fallback`. -/

namespace Pagewright.Assembly

open Text

/-- Data in layers, of which later ones win. -/
def layered (layers : List (List (Value × Value))) : List (Value × Value) :=
  layers.foldl (fun all layer => layer.foldl (fun all (k, v) => Value.insert k v all) all) []

/-! ### Attributes of a tag -/

/-- A closing delimiter with nothing but white space behind it. -/
def lastDelimiter? (stop : Text) : Recogniser Unit := fun t => do
  let rest ← dropLead? stop t
  if isBlank rest then return ((), stop.length) else none

/-- The inside of a text that is one output expression, after `skip` blanks at most. -/
def expressionAfter? (ds : Delimiters) (t : Text) (skip : Nat) : Option Text := do
  let rest ← dropLead? ds.start (t.drop skip)
  let (n, _) ← firstHit? (lastDelimiter? ds.stop) (rest.drop 1)
  if rest.isEmpty then none else return strip (rest.take (n + 1))

/-- The expression in a text that is one output expression and blanks around it. -/
def expression? (ds : Delimiters) (t : Text) : Option Text :=
  (List.range (runLength isSpace t + 1)).reverse.findSome? (expressionAfter? ds t)

/-- The data that an attribute gives to a partial.  An expression gives its value; one that cannot
be evaluated gives its own text. -/
def attributeValue (site : Site) (data : List (Value × Value)) (page : Text)
    (a : Text × Text) : Work (Value × Value) := do
  match expression? site.delimiters a.2 with
  | none => return (.str a.1, .str a.2)
  | some e =>
    let value ← (Work.evaluate e data page false).orElse fun p => do
      Work.update fun s => s.remark ("Keeping raw value for attribute '" ++ a.1 ++ "' in " ++ page ++
        ": " ++ p.message)
      return .str a.2
    return (.str a.1, value)

/-- Data with the entries of the mapping that an expression gives for a partial; nothing is passed
over in silence, and what is no mapping with a remark. -/
def withExtra (data locals : List (Value × Value)) (page target e : Text) :
    Work (List (Value × Value)) := do
  match ← Work.evaluate e data page with
  | .dict extra => return layered [locals, extra]
  | .none => return locals
  | _ =>
    Work.update fun s => s.remark ("Ignoring include data for " ++ target ++ " in " ++ page ++
      ": expected a mapping")
    return locals

/-- The data that a tag gives to a partial: that of its own attributes, and that of an expression if
it has one. -/
def localsFor (site : Site) (data : List (Value × Value)) (page target : Text)
    (own : List (Text × Text)) (extra : Option Text) : Work (List (Value × Value)) := do
  let locals ← own.mapM (attributeValue site data page)
  match extra with
  | some e => withExtra data locals page target e
  | none => return locals

/-! ### Expansion -/

/-- The first candidate that the library holds. -/
def firstHeld? (l : Library) : List Text → Except Halt (Option Text)
  | [] => .ok none
  | c :: cs => do
    let target ← l.locate "include" c
    if l.holds target then return some target else firstHeld? l cs

/-- The partial for a tag: the first candidate that there is.  If there is none, an optional tag has
none, and else the first candidate is missed. -/
def locate (l : Library) (src : Text) (others : List Text) (optional : Bool) :
    Except Halt (Option Text) := do
  match ← firstHeld? l (src :: others) with
  | some target => return some target
  | none =>
    if optional then return none
    let missing ← l.locate "include" src
    .error (.problem (l.absence missing "include"))

/-- Whether the condition of a tag, if it has one, has the given truth value. -/
def holdsFor (data : List (Value × Value)) (page : Text) (wanted : Bool) :
    Option Text → Work Bool
  | none => return true
  | some e => return (← Work.evaluate e data page).isTrue == wanted

/-- A partial that is asked for: its path, its text with the slots filled, and its data. -/
structure Partial where
  path : Text
  text : Text
  data : List (Value × Value)

/-- The partial that a tag asks for.  There is none where a condition of the tag does not hold or an
optional partial is missing. -/
def partialFor (site : Site) (data : List (Value × Value)) (page : Text) (tag : IncludeTag) :
    Work (Option Partial) := do
  let attributes := parseAttributes tag.attributes
  let src := strip ((attributes.lookup "src".toList).getD [])
  if src.isEmpty then
    Work.problem (.malformed "Include tag without a src attribute" (some page) [])
  let reserved : Text → Option Text := fun name => attributes.lookup (reservedLead ++ name)
  let own := attributes.filter fun (name, _) => name ≠ "src".toList && !reservedLead.isPrefixOf name
  if !(← holdsFor data page true (reserved "when")) then return none
  if !(← holdsFor data page false (reserved "unless")) then return none
  let others := (splitOn "|" ((reserved "first").getD [])).filter fun name => !name.isEmpty
  let some target ← Work.ofExcept
    (locate site.library src others (reserved "optional" = some "true".toList)) | return none
  let locals ← localsFor site data page target own (reserved "with")
  let text ← Work.ofProblem (site.library.read target "include")
  return some
    { path := target
      text := fillSlots text (extractSlots (tag.body.getD []))
      data := layered [site.data, data, locals] }

/-- The output of the partial for a tag; `next` resolves the text of the partial in turn. -/
def renderTag (site : Site) (next : Text → List (Value × Value) → Text → Work Text)
    (data : List (Value × Value)) (page : Text) (tag : IncludeTag) : Work Text := do
  let some p ← partialFor site data page tag | return []
  let resolved ← next p.text p.data p.path
  Work.stash (← Work.splice (← Work.print resolved p.data p.path))

/-- What takes the place of a tag: the token of its output, or of a comment if the tag fails. -/
def expandTag (site : Site) (next : Text → List (Value × Value) → Text → Work Text)
    (data : List (Value × Value)) (page : Text) (tag : IncludeTag) : Work Text :=
  (renderTag site next data page tag).orElse (Work.noted page)

/-- A text in engine syntax with its include tags expanded, on one level. -/
def resolveTags (site : Site) (next : Text → List (Value × Value) → Text → Work Text)
    (t : Text) (data : List (Value × Value)) (page : Text) : Work Text :=
  Work.within .inclusion page fun depth => do
    let lowered ← Work.lower site.delimiters t
    let outputs ← (includeTags lowered).mapM (expandTag site next data page)
    if depth = 0 then Work.update fun s => { s with entryOutputs := outputs }
    return replaceTags lowered outputs

/-- A text with its include tags expanded, where at most `room` partials can still be entered below
it. -/
def resolveWithin (site : Site) : Nat → Text → List (Value × Value) → Text → Work Text
  -- Without room the depth limit refuses the text before anything is expanded.
  | 0 => resolveTags site fun t _ _ => pure t
  | room + 1 => resolveTags site (resolveWithin site room)

/-- A text in authoring syntax turned into engine syntax with its include tags expanded. -/
def resolve (site : Site) (t : Text) (data : List (Value × Value)) (page : Text) : Work Text := do
  let s ← Work.session
  resolveWithin site (s.maxDepth + 1 - s.includeStack.length).toNat t data page

/-- A page in authoring syntax with the output of its include tags in place, for a page that cannot
be printed itself. -/
def fallback (t : Text) : Work Text := do
  let (guarded, regions) := Lowering.guardRegions (Lowering.escapeMarkers t) false
  let rebuilt := replaceTags (Lowering.rewriteIncludes guarded) (← Work.session).entryOutputs
  let restored ← Work.ofFailure (Lowering.restoreRegions rebuilt regions)
  Work.splice (replaceAll Lowering.atSentinel "@" restored)

end Pagewright.Assembly
