import Pagewright.Directive.Block
import Pagewright.Text.Named

/-! # Sections

A page declares sections, as blocks or in a short form with the value as second argument.  Sections
are taken out of a page that extends a layout; where the layout cannot be had, they are left in
place.

Main definitions: `extractSections`, `unwrapSections`. -/

namespace Pagewright.Assembly

open Text Directive

/-- The name that the first argument of a block gives it. -/
def blockName? (b : Block) : Option Text := b.opener.argumentList.head?.bind literal?

/-- Whether a directive is complete without a closer, as it has a second argument. -/
def isShort (d : Directive) : Bool := decide (2 ≤ d.argumentList.length)

/-- The sections of a text as blocks. -/
def sectionBlocks (t : Text) : List Block := blocks "section" "endsection" isShort t

/-- What a section holds: its trimmed content, or its second argument; `raw` tells what an argument
that is no string literal stands for. -/
def sectionBody? (raw : Text → Text) (b : Block) : Option Text :=
  match b.closer with
  | some _ => some (strip (b.content.getD []))
  | none =>
    match b.opener.argumentList with
    | _ :: value :: _ => some ((literal? value).getD (raw value))
    | _ => none

/-- The section that a block declares: its name and body.  An argument that is no string literal
stands for itself. -/
def section? (b : Block) : Option (Text × Text) := do
  return (← blockName? b, ← sectionBody? id b)

/-- The sections that a text declares, and the text without them.  Of two sections with one name the
later counts. -/
def extractSections (t : Text) : List (Text × Text) × Text :=
  let found := (sectionBlocks t).filterMap fun b => (section? b).map fun s => (b, s)
  (Named.putAll [] (found.map Prod.snd),
    applyEdits t (found.map fun (b, _) => ⟨b.start, b.stop, []⟩))

/-- A text with the bodies of its sections in place, and without what it extends. -/
def unwrapSections (t : Text) : Text :=
  let t := replace ["extends"] (fun _ => some []) t
  applyEdits t ((sectionBlocks t).filterMap fun b =>
    (sectionBody? (fun _ => []) b).map fun body => ⟨b.start, b.stop, body⟩)

end Pagewright.Assembly

/-! ## Slots

The body of an include tag defines slots, and the partial has places for them with defaults.

Main definitions: `extractSlots`, `fillSlots`. -/

namespace Pagewright.Assembly

open Text Directive

/-- The slots that the body of a tag defines, with their trimmed contents. -/
def extractSlots (t : Text) : List (Text × Text) :=
  Named.putAll [] ((blocks "slot" "endslot" (fun _ => false) t).filterMap fun b => do
    let name ← blockName? b
    let _ ← b.closer
    return (name, strip (b.content.getD [])))

/-- What the place of a slot holds when the caller does not define the slot. -/
def slotDefault (b : Block) : Text :=
  match b.closer with
  | some _ => b.content.getD []
  | none =>
    match b.opener.argumentList with
    | _ :: default :: _ => (literal? default).getD []
    | _ => []

/-- A partial with the places of its slots filled. -/
def fillSlots (t : Text) (slots : List (Text × Text)) : Text :=
  applyEdits t ((blocks "slot" "endslot" isShort t).filterMap fun b =>
    (blockName? b).map fun name =>
      ⟨b.start, b.stop, (slots.lookup name).getD (slotDefault b)⟩)

end Pagewright.Assembly
