import Pagewright.Directive.Occurrence
import Pagewright.Lowering.Guard

/-! # Loops

A loop directive becomes an engine loop over rows that pair every item with its position; the
body sees the position as `loop` and the item under the names of the header.  Loops are numbered
in document order, and each is given its depth and the position of the loop around it.

Main definitions: `LoopHeader`, `loopHeader?`, `rewriteLoops`. -/

namespace Pagewright.Lowering

open Text Directive

/-! ### Headers -/

/-- The header of a loop: what is iterated, the names that are bound, and whether keys are bound
beside values. -/
structure LoopHeader where
  collection : Text
  target : Text
  pairs : Bool
  deriving DecidableEq, Repr

/-- The rest of a text after a name. -/
def dropName? (t : Text) : Option Text := (name? t).map fun n => t.drop n.length

/-- Whether a text continues a list of names: commas with optional blanks, each before a name;
`fuel` bounds the number of names. -/
def continuesNames : Nat → Text → Bool
  | _, [] => true
  | 0, _ => false
  | fuel + 1, t =>
    match stripLeft t with
    | ',' :: r =>
      match dropName? (stripLeft r) with
      | some rest => continuesNames fuel rest
      | none => false
    | _ => false

/-- Whether a text is a name or a list of names separated by commas. -/
def isLoopTarget (t : Text) : Bool :=
  match dropName? t with
  | some rest => continuesNames rest.length rest
  | none => false

/-- A loop variable without a declaration word in front of it. -/
def dropDeclaration (t : Text) : Text :=
  let without := fun word =>
    match dropLead? word t with
    | some (c :: r) => if isSpace c then some (stripLeft r) else none
    | _ => none
  ((without "let") <|> (without "const") <|> (without "var")).getD t

/-- The header `x in xs` or `x of xs` with the given keyword between blanks. -/
def keywordHeader? (keyword e : Text) : Option (Text × Text) :=
  match splitTop keyword e with
  | first :: second :: more =>
    some (join keyword (second :: more), dropDeclaration first)
  | _ => none

/-- The header written in a loop directive: `items as item`, `map as key => value`,
`item of items` or `item in items`. -/
def loopHeader? (args : Text) : Option LoopHeader := do
  let e : Text := join " " (words args)
  let parts := splitTop " as " e
  let header ←
    match parts.reverse with
    | target :: before :: earlier =>
      let collection : Text := join " as " (before :: earlier).reverse
      match splitTop "=>" target with
      | [key, value] => some ⟨collection, key ++ ", " ++ value, true⟩
      | _ => some ⟨collection, target, false⟩
    | _ =>
      (keywordHeader? " of " e <|> keywordHeader? " in " e).map fun (collection, target) =>
        ⟨collection, target, false⟩
  if header.collection.isEmpty || !isLoopTarget header.target then none
  return header

/-! ### Directives -/

/-- The directives of loops. -/
def loopNames : List Text := ["foreach", "endforeach", "forelse", "empty", "endforelse"]

/-- A loop that is still open: whether it may have an empty branch, whether its header was
understood, and whether the empty branch has begun. -/
structure OpenLoop where
  mayBeEmpty : Bool
  valid : Bool
  emptied : Bool := false

/-- How many loops have been rewritten, and the loops still open, innermost first. -/
structure Loops where
  count : Nat := 0
  frames : List OpenLoop := []

/-- The tags that open loop number `n` inside `outer` valid loops. -/
def loopOpening (n outer : Nat) (h : LoopHeader) : Text :=
  let row : Text := "_hk_row_" ++ ofNat n
  tag ("for " ++ row ++ " in _hk_iterate((" ++ h.collection ++ "), " ++
      (if outer = 0 then ("none" : Text) else "loop") ++ ", " ++ ofNat (outer + 1) ++ ", " ++
      (if h.pairs then ("true" : Text) else "false") ++ ")") ++
    tag ("with loop = " ++ row ++ ".meta") ++
    tag ("set " ++ h.target ++ " = " ++ row ++ ".value")

/-- The engine tags for a directive of a loop. -/
def loopTag? (s : Loops) (d : Directive) : Option Text × Loops :=
  if d.name = "foreach" ∨ d.name = "forelse" then
    let header := match d.args with
      | none | some [] => none
      | some args => loopHeader? args
    let frame : OpenLoop := { mayBeEmpty := d.name = "forelse", valid := header.isSome }
    match header with
    | none => (none, { s with frames := frame :: s.frames })
    | some h =>
      let outer := (s.frames.filter OpenLoop.valid).length
      (some (loopOpening (s.count + 1) outer h), ⟨s.count + 1, frame :: s.frames⟩)
  else if d.name = "empty" then
    if d.args.isSome then (none, s)
    else match s.frames with
      | frame :: outer =>
        if frame.mayBeEmpty ∧ frame.valid then
          (some (tag "endwith" ++ tag "else"),
            { s with frames := { frame with emptied := true } :: outer })
        else (none, s)
      | [] => (none, s)
  else
    match s.frames with
    | [] => (none, s)
    | frame :: outer =>
      let s := { s with frames := outer }
      if !frame.valid then (none, s)
      else if frame.emptied then (some (tag "endfor"), s)
      else (some (tag "endwith" ++ tag "endfor"), s)

/-- A text with its loop directives turned into engine tags. -/
def rewriteLoops (t : Text) : Text := (replaceWith loopNames loopTag? {} t).1

end Pagewright.Lowering
