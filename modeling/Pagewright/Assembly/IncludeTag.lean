import Pagewright.Html.Unescape
import Pagewright.Lowering.Guard
import Pagewright.Text.Named

/-! # Include tags

An include tag stands alone or encloses a body.  Tags in a body belong to the body; tags in raw and
verbatim regions are text.

Main definitions: `IncludeTag`, `includeTags` (the outermost tags of a text), `parseAttributes`. -/

namespace Pagewright

/-- An include tag with the text of its attributes, and its body if it has one. -/
structure IncludeTag where
  start : Nat
  stop : Nat
  attributes : Text
  body : Option Text
  deriving DecidableEq, Repr

namespace Assembly

open Text

/-! ### Boundaries -/

/-- The beginning of an opening tag, or a closing tag. -/
structure Boundary where
  start : Nat
  stop : Nat
  closing : Bool
  deriving DecidableEq, Repr

/-- Whether a character is a letter of a name that is compared without regard to case.  The dotted
capital and the dotless small letter count as forms of the same letter. -/
def isLetter (letter c : Char) : Bool :=
  c == letter || lowerForm c == [letter] ||
    (letter == 'i' && (c.toNat == 0x130 || c.toNat == 0x131))

/-- The text after a name that is compared without regard to case. -/
def dropName? : Text → Text → Option Text
  | [], t => some t
  | _ :: _, [] => none
  | l :: ls, c :: cs => if isLetter l c then dropName? ls cs else none

/-- The beginning of an opening tag, or a closing tag; the value says whether it is closing. -/
def boundary? : Recogniser Bool := fun t =>
  match t with
  | '<' :: '/' :: r => do
    let rest := stripLeft (← dropName? "include" r)
    let rest ← dropLead? ">" rest
    return (true, t.length - rest.length)
  | '<' :: r => do
    let rest ← dropName? "include" r
    if (rest.head?.map isWord).getD false then none
    return (false, 8)
  | _ => none

/-- The boundaries of a text outside its raw and verbatim regions. -/
def boundaries (t : Text) : List Boundary :=
  let spans := Lowering.protectedSpans t
  (pieces boundary? t).filterMap fun
    | .char _ => none
    | .hit closing start stop =>
      if spans.any fun (a, b) => decide (a ≤ start) && decide (start < b) then none
      else some ⟨start, stop, closing⟩

/-! ### Tags -/

/-- The length of the attributes of a tag, up to the bracket that ends it outside of quotes. -/
def attributesLength? : Option Char → Text → Option Nat
  | _, [] => none
  | some q, c :: r => (attributesLength? (if c = q then none else some q) r).map (· + 1)
  | none, c :: r =>
    if c = '>' then some 0
    else (attributesLength? (if c = '"' ∨ c = '\'' then some c else none) r).map (· + 1)

/-- The offset of the bracket that ends a tag whose attributes start at an offset. -/
def tagEnd? (t : Text) (start : Nat) : Option Nat :=
  (attributesLength? none (t.drop start)).map (start + ·)

/-- The attributes of a tag that stands alone, without the slash at their end. -/
def selfClosed? (attributes : Text) : Option Text :=
  let t := stripRight attributes
  if t.getLast? = some '/' then some t.dropLast else none

/-- The boundary that closes a tag, among those from offset `pos` on; `depth` inner tags are open.
There is none behind a tag that never ends. -/
def closing? (t : Text) : Nat → Nat → List Boundary → Option Boundary
  | _, _, [] => none
  | depth, pos, b :: bs =>
    if b.start < pos then closing? t depth pos bs
    else if b.closing then
      match depth with
      | 0 => some b
      | depth + 1 => closing? t depth b.stop bs
    else
      match tagEnd? t b.stop with
      | none => none
      | some e =>
        let inner := if (selfClosed? (slice t b.stop e)).isSome then 0 else 1
        closing? t (depth + inner) (e + 1) bs

/-- The outermost tags that the boundaries from offset `pos` on begin.  A tag that is not closed
stands alone. -/
def tagsFrom (t : Text) : Nat → List Boundary → List IncludeTag
  | _, [] => []
  | pos, b :: bs =>
    if b.start < pos then tagsFrom t pos bs
    else if b.closing then tagsFrom t b.stop bs
    else
      match tagEnd? t b.stop with
      | none => []
      | some e =>
        let attributes := slice t b.stop e
        match selfClosed? attributes with
        | some attributes => ⟨b.start, e + 1, attributes, none⟩ :: tagsFrom t (e + 1) bs
        | none =>
          match closing? t 0 (e + 1) bs with
          | none => ⟨b.start, e + 1, attributes, none⟩ :: tagsFrom t (e + 1) bs
          | some c =>
            ⟨b.start, c.stop, attributes, some (slice t (e + 1) c.start)⟩ :: tagsFrom t c.stop bs

/-- The outermost include tags of a text, in order. -/
def includeTags (t : Text) : List IncludeTag := tagsFrom t 0 (boundaries t)

/-- A text with its outermost include tags replaced, one after the other; tags without a replacement
are dropped. -/
def replaceTags (t : Text) (new : List Text) : Text :=
  let tags := includeTags t
  applyEdits t (tags.zipIdx.map fun (tag, i) => ⟨tag.start, tag.stop, (new[i]?).getD []⟩)

/-! ### Attributes -/

/-- A character that may continue the name of an attribute. -/
def isAttributeChar (c : Char) : Bool := isWord c || c == ':' || c == '.' || c == '-'

/-- An attribute: a name, an equals sign and a quoted value. -/
def attribute? : Recogniser (Text × Text) := fun t =>
  match t with
  | [] => none
  | c :: r => do
    if !(isAsciiLetter c || c == '_') then none
    let name := c :: r.takeWhile isAttributeChar
    let rest ← dropLead? "=" (stripLeft (t.drop name.length))
    match stripLeft rest with
    | [] => none
    | q :: rest =>
      if q != '"' && q != '\'' then none
      let (value, rest) ← cutAt? [q] rest
      return ((name, value), t.length - rest.length)

/-- The beginning of the names of reserved attributes. -/
def reservedLead : Text := "hk:"

/-- The attributes of a tag.  Character references are resolved in the source and in reserved
attributes only. -/
def parseAttributes (t : Text) : List (Text × Text) :=
  Named.putAll [] ((hits attribute? t).map fun (name, value) =>
    (name, if name = "src" ∨ reservedLead.isPrefixOf name then Html.unescape value else value))

end Assembly

end Pagewright
