import Pagewright.Lowering.Marker

/-! # Collecting once blocks and stacks

In the printed page, markers surround once blocks and the fragments for stacks.  Of the once blocks
with one key the first is kept.  Fragments are cut out and put where the marker of their stack
stands: first those that were prepended, then those that were pushed, each in the order in which
they open.

Main definitions: `applyOnce`, `capture`, `flushStacks`, `collect`. -/

namespace Pagewright.Assembly

open Text Lowering

/-- The name in a marker and the text behind it, after the lead of the marker. -/
def markerRest? (t : Text) : Option (Text × Text) := do
  -- The hyphens of the end of the marker may be part of names too, so they are taken off.
  let run := t.takeWhile isMarkerChar
  let name ← dropTail? "--" run
  let rest ← dropLead? ">" (t.drop run.length)
  if name.isEmpty then none else return (name, rest)

/-! ### Once blocks -/

/-- A once block: its key and body. -/
def once? : Recogniser (Text × Text) := fun t => do
  let (key, rest) ← markerRest? (← dropLead? "<!--hk:once:" t)
  let (body, rest) ← cutAt? (marker "endonce" key) rest
  return ((key, body), t.length - rest.length)

/-- The text of scanned pieces with the first once block of every key kept and the others dropped,
and the keys that were seen. -/
def keepFirst : List Text → List (Piece (Text × Text)) → Text × List Text
  | seen, [] => ([], seen)
  | seen, .char c :: ps =>
    let (t, seen) := keepFirst seen ps
    (c :: t, seen)
  | seen, .hit (key, body) _ _ :: ps =>
    if seen.contains key then keepFirst seen ps
    else
      let (t, seen) := keepFirst (seen ++ [key]) ps
      (body ++ t, seen)

/-- A text without once blocks, which are looked for again as long as there were any; `fuel` bounds
the passes. -/
def applyOnceFor : Nat → Text → List Text → Text × List Text
  | 0, t, seen => (t, seen)
  | fuel + 1, t, seen =>
    if (hits once? t).isEmpty then (t, seen)
    else
      let (t, seen) := keepFirst seen (pieces once? t)
      applyOnceFor fuel t seen

/-- A text in which the first once block of every key is kept and the others are dropped, and the
keys that were seen.  Every pass over the text makes it shorter, so its length is fuel enough. -/
def applyOnce (t : Text) (seen : List Text) : Text × List Text := applyOnceFor t.length t seen

/-! ### Stacks -/

/-- A fragment marker: whether it closes, whether the fragment is prepended, and the stack. -/
structure FragmentMarker where
  closing : Bool
  prepended : Bool
  name : Text
  deriving DecidableEq, Repr

/-- A fragment marker as it is written. -/
def FragmentMarker.shown (m : FragmentMarker) : Text :=
  marker ((if m.closing then "end" else "") ++ (if m.prepended then "prepend" else "push")) m.name

/-- A fragment marker at the beginning of a text. -/
def fragmentMarker? : Recogniser FragmentMarker := fun t => do
  let rest ← dropLead? "<!--hk:" t
  let (closing, rest) := match dropLead? "end" rest with
    | some rest => (true, rest)
    | none => (false, rest)
  let (prepended, rest) ← (match dropLead? "prepend:" rest with
    | some rest => some (true, rest)
    | none => (dropLead? "push:" rest).map fun rest => (false, rest))
  let (name, rest) ← markerRest? rest
  return (⟨closing, prepended, name⟩, t.length - rest.length)

/-- A fragment for a stack; it has no content as long as it is open. -/
structure Fragment where
  prepended : Bool
  name : Text
  content : Option Text := none
  deriving DecidableEq, Repr

/-- A fragment that is open: its marker, its number and the content so far. -/
structure OpenFragment where
  opening : FragmentMarker
  number : Nat
  content : Text := []
  deriving DecidableEq, Repr

/-- Fragments while they are cut out: the text outside, the open fragments from the innermost on,
and all fragments in the order in which they open. -/
structure Capture where
  outside : Text := []
  opened : List OpenFragment := []
  fragments : List Fragment := []
  deriving DecidableEq, Repr

namespace Capture

/-- Text put behind what is there, in the innermost open fragment or outside. -/
def write (c : Capture) (t : Text) : Capture :=
  match c.opened with
  | [] => { c with outside := c.outside ++ t }
  | f :: fs => { c with opened := { f with content := f.content ++ t } :: fs }

/-- A marker put behind what is there.  A closing marker that does not belong to the innermost open
fragment is text. -/
def mark (c : Capture) (m : FragmentMarker) : Capture :=
  if m.closing then
    match c.opened with
    | f :: fs =>
      if f.opening.prepended = m.prepended ∧ f.opening.name = m.name then
        { c with
          opened := fs
          fragments := c.fragments.modify f.number fun g => { g with content := some f.content } }
      else c.write m.shown
    | [] => c.write m.shown
  else
    { c with
      opened := ⟨m, c.fragments.length, []⟩ :: c.opened
      fragments := c.fragments ++ [⟨m.prepended, m.name, none⟩] }

/-- Scanned pieces put behind what is there. -/
def run (c : Capture) : List (Piece FragmentMarker) → Capture
  | [] => c
  | .char x :: ps => run (c.write [x]) ps
  | .hit m _ _ :: ps => run (c.mark m) ps

/-- What stands outside at the end: the opening markers of fragments that were never closed are
text, each with what follows it. -/
def remainder (c : Capture) : Text :=
  c.outside ++ (c.opened.reverse.flatMap fun f => f.opening.shown ++ f.content)

end Capture

/-- A text without the fragments for stacks, and the fragments in the order in which they open. -/
def capture (t : Text) : Text × List Fragment :=
  let c := Capture.run {} (pieces fragmentMarker? t)
  (c.remainder, c.fragments.filter fun f => f.content.isSome)

/-- The marker of the place of a stack. -/
def stackPlace? : Recogniser Text := fun t => do
  let (name, rest) ← markerRest? (← dropLead? "<!--hk:stack:" t)
  return (name, t.length - rest.length)

/-- The content of a stack. -/
def stackContent (fragments : List Fragment) (name : Text) : Text :=
  let mine := fragments.filter fun f => f.name = name
  (mine.filter Fragment.prepended ++ mine.filter fun f => !f.prepended).flatMap fun f =>
    f.content.getD []

/-- A text with its fragments moved to the places of their stacks.  Fragments without a place are
dropped. -/
def flushStacks (t : Text) : Text :=
  let (rest, fragments) := capture t
  replaceHits stackPlace? (stackContent fragments) rest

/-- A printed page with once blocks and stacks collected, and the keys that were seen. -/
def collect (t : Text) (seen : List Text) : Text × List Text :=
  let (t, seen) := applyOnce t seen
  (flushStacks t, seen)

end Pagewright.Assembly
