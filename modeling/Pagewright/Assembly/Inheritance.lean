import Pagewright.Assembly.Section
import Pagewright.Desk

/-! # Layout inheritance

A page may extend a layout, which may extend a further one.  The page is replaced by the layout with
its yields filled from the sections; only its stack and once blocks are carried over.  Where a hop
fails, a comment and the page itself take the place of the layout.

Main definitions: `Site` (what pages are put together from), `fillYields`, `hop`, `flatten`. -/

namespace Pagewright

/-- What pages are put together from: the library of their layouts and partials, the delimiters of
output expressions, and data for every page. -/
structure Site where
  library : Library := .shelf {}
  delimiters : Delimiters := {}
  data : List (Value × Value) := []

namespace Assembly

open Text Directive

/-- What takes the place of a yield: the first section of its name, or its default; a default that
is no string literal becomes an output expression. -/
def yielded? (ds : Delimiters) (sections : List (List (Text × Text))) (d : Directive) :
    Option Text := do
  let name ← d.argumentList.head?.bind literal?
  match sections.findSome? fun s => s.lookup name with
  | some body => return body
  | none =>
    match d.argumentList with
    | _ :: default :: _ =>
      return (literal? default).getD (ds.start ++ ' ' :: default ++ ' ' :: ds.stop)
    | _ => return []

/-- A layout with its yields filled from the first of several collections that has a section of the
name. -/
def fillYields (ds : Delimiters) (sections : List (List (Text × Text))) (t : Text) : Text :=
  replace ["yield"] (yielded? ds sections) t

/-- The layout that a directive refers to. -/
def layoutReference (page : Text) (d : Directive) : Except Problem Text :=
  match d.argumentList.head?.bind literal? with
  | some reference => .ok reference
  | none => .error (.malformed ("@extends expects a quoted layout path, got '" ++
      d.args.getD "None" ++ "'") (some page) [])

/-- The page `t` with the directive `d` replaced by its layout; `next` resolves the layout in
turn. -/
def extend (site : Site) (next : Text → Text → List (Text × Text) → Work Text)
    (t page : Text) (inherited : List (Text × Text)) (d : Directive) : Work Text := do
  let reference ← Work.ofProblem (layoutReference page d)
  let target ← Work.ofExcept (site.library.locate "layout" reference)
  Work.within .layout target fun _ => do
    let layout := Lowering.stripComments (← Work.ofProblem (site.library.read target "layout"))
    let (sections, rest) := extractSections (t.take d.start ++ t.drop d.stop)
    let own := (extractSections layout).1
    let resolved ← next layout target (Named.putAll inherited sections)
    let bare := (extractSections resolved).2
    return (carriedBlocks rest).flatten ++
      fillYields site.delimiters [sections, inherited, own] bare

/-- One hop of a page to its layout, if it extends one. -/
def hop (site : Site) (next : Text → Text → List (Text × Text) → Work Text)
    (t page : Text) (inherited : List (Text × Text)) : Work Text :=
  match (named ["extends"] (directives t)).head? with
  | none => pure t
  | some d => (extend site next t page inherited d).orElse fun p => do
    return (← Work.noted page p) ++ unwrapSections t

/-- A page with its chain of layouts, of which at most `room` can still be entered. -/
def flattenWithin (site : Site) : Nat → Text → Text → List (Text × Text) → Work Text
  -- Without room the depth limit refuses the hop before anything follows it.
  | 0 => hop site fun t _ _ => pure t
  | room + 1 => hop site (flattenWithin site room)

/-- A page with its chain of layouts as one text, still in authoring syntax. -/
def flatten (site : Site) (t page : Text) : Work Text := do
  let s ← Work.session
  flattenWithin site (s.maxDepth - s.layoutStack.length).toNat (Lowering.stripComments t) page []

end Assembly

end Pagewright
