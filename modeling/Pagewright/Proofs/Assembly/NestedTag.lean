import Pagewright.Proofs.Assembly.Boundary

/-! # A tag with tags in its body

Tags are told apart by counting: the body of a tag ends where its own closing tag stands, whatever
tags stand in it (`includeTags_nesting`).  The slots of the body are looked for in another way and
take in those of the tags in it (`slots_of_tags`).

Main definitions: `AttributeText`, `Nesting.Tagged`, `Nesting.bounds`. -/

namespace Pagewright.Assembly

open Text Directive

/-! ### The attributes of a tag -/

/-- A text that is read as the attributes of a tag up to the bracket that ends the tag. -/
structure AttributeText (a : Text) : Prop where
  bare : '<' ∉ a
  parted : (a.head?.map isWord).getD false = false
  closes : attributesLength? none (a ++ ['>']) = some a.length

namespace AttributeText

variable {a : Text}

theorem opens (h : AttributeText a) : Opens a := ⟨h.parted, h.closes⟩

/-- Nothing begins in the attributes of a tag. -/
theorem boundsFrom_opening (h : AttributeText a) (pos : Nat) :
    boundsFrom pos (tagOpening a) = [⟨pos, pos + 8, false⟩] := by
  have bare : '<' ∉ a ++ ['>'] := by
    rw [List.mem_append, not_or]
    exact ⟨h.bare, by decide⟩
  have inside := boundsFrom_bare bare (pos + 8) []
  rw [List.append_nil] at inside
  rw [h.opens.boundsFrom_tag, inside]
  rfl

/-- A tag begins where it is written. -/
theorem boundsFrom_tag (h : AttributeText a) (pos : Nat) (r : Text) :
    boundsFrom pos (tagOpening a ++ r) =
      ⟨pos, pos + 8, false⟩ :: boundsFrom (pos + (tagOpening a).length) r := by
  rw [boundsFrom_append (.inl (getLast?_tagOpening a)), h.boundsFrom_opening, List.singleton_append]

end AttributeText

/-! ### Boundaries of a body -/

namespace Nesting

/-- Whether a body begins with text. -/
def startsText : Nesting → Bool
  | part (.text _) _ => true
  | _ => false

/-- Tags are written as such, and nowhere else is the boundary of a tag. -/
def Tagged : Nesting → Prop
  | nil => True
  | part (.text t) rest => Nowhere boundary? t ∧ rest.startsText = false ∧ rest.Tagged
  | part p rest => '<' ∉ p.shown ∧ rest.Tagged
  | slot gap h content rest =>
    '<' ∉ (Part.call "slot" gap h.args).shown ∧ content.Tagged ∧ rest.Tagged
  | tag attributes body rest =>
    AttributeText attributes ∧ selfClosed? attributes = none ∧ body.Tagged ∧ rest.Tagged
  | single attributes rest => AttributeText (attributes ++ ['/']) ∧ rest.Tagged

theorem Tagged.rest {p : Part} {rest : Nesting} (h : (part p rest).Tagged) : rest.Tagged :=
  match p, h with
  | .text _, h => h.2.2
  | .word _, h => h.2
  | .call .., h => h.2

/-- The boundaries of the tags in a body that starts at an offset. -/
def bounds : Nat → Nesting → List Boundary
  | _, nil => []
  | pos, part p rest => rest.bounds (pos + p.shown.length)
  | pos, slot gap h content rest =>
    let inside := pos + (Part.call "slot" gap h.args).shown.length
    let stop := inside + (shownAll content.parts).length
    content.bounds inside ++ rest.bounds (stop + (Part.word "endslot").shown.length)
  | pos, tag attributes body rest =>
    let inside := pos + (tagOpening attributes).length
    let stop := inside + (shownAll body.parts).length
    ⟨pos, pos + 8, false⟩ :: (body.bounds inside ++ ⟨stop, stop + 10, true⟩ ::
      rest.bounds (stop + tagClosing.length))
  | pos, single attributes rest =>
    ⟨pos, pos + 8, false⟩ :: rest.bounds (pos + (tagAlone attributes).length)

/-- A text that begins with a tag or a directive, if it is not empty. -/
def Fenced (r : Text) : Prop := ∀ c ∈ r.head?, c = '@' ∨ c = '<'

theorem fenced_shown {r : Text} (hr : Fenced r) : ∀ {b : Nesting}, b.startsText = false →
    Fenced (shownAll b.parts ++ r)
  | nil, _ => hr
  | part (.text _) _, h => by cases h
  | part (.word _) _, _ => fun _ hc => .inl (Option.some.inj hc).symm
  | part (.call ..) _, _ => fun _ hc => .inl (Option.some.inj hc).symm
  | slot .., _ => fun _ hc => .inl (Option.some.inj hc).symm
  | tag .., _ => fun _ hc => .inr (Option.some.inj hc).symm
  | single .., _ => fun _ hc => .inr (Option.some.inj hc).symm

/-- A text without boundaries stays so in front of a fence. -/
theorem boundsFrom_text {t r : Text} (h : Nowhere boundary? t) (hr : Fenced r) (pos : Nat) :
    boundsFrom pos (t ++ r) = boundsFrom (pos + t.length) r := by
  refine boundsFrom_quiet pos fun c v hv => ?_
  cases r with
  | nil =>
    rw [List.append_nil]
    exact h _ hv
  | cons x r =>
    have edge : Edge x := by
      obtain rfl | rfl := hr x rfl
      · decide
      · decide
    rw [boundary?_edge edge (List.cons_ne_nil c v)]
    exact h _ hv

theorem boundsFrom_nesting : ∀ {b : Nesting}, b.Tagged → ∀ {r : Text}, Fenced r → ∀ (pos : Nat),
    boundsFrom pos (shownAll b.parts ++ r) =
      b.bounds pos ++ boundsFrom (pos + (shownAll b.parts).length) r
  | nil, _, _, _, _ => rfl
  | part (.text t) rest, h, r, hr, pos => by
    obtain ⟨ht, starts, h⟩ := h
    rw [parts, shownAll_cons, List.append_assoc, Part.shown,
      boundsFrom_text ht (fenced_shown hr starts), boundsFrom_nesting h hr, List.length_append,
      ← Nat.add_assoc]
    rfl
  | part (.word n) rest, h, r, hr, pos => by
    rw [parts, shownAll_cons, List.append_assoc, boundsFrom_bare h.1, boundsFrom_nesting h.2 hr,
      List.length_append, ← Nat.add_assoc]
    rfl
  | part (.call n gap args) rest, h, r, hr, pos => by
    rw [parts, shownAll_cons, List.append_assoc, boundsFrom_bare h.1, boundsFrom_nesting h.2 hr,
      List.length_append, ← Nat.add_assoc]
    rfl
  | slot gap heading content rest, h, r, hr, pos => by
    obtain ⟨ho, hc, hrest⟩ := h
    have closer : '<' ∉ (Part.word "endslot").shown := by decide
    have fence : Fenced ((Part.word "endslot").shown ++ (shownAll rest.parts ++ r)) :=
      fun _ hc => .inl (Option.some.inj hc).symm
    rw [shownAll_slot]
    simp only [List.append_assoc, List.length_append]
    rw [boundsFrom_bare ho, boundsFrom_nesting hc fence, boundsFrom_bare closer,
      boundsFrom_nesting hrest hr, bounds, List.append_assoc]
    simp only [Nat.add_assoc]
  | tag attributes body rest, h, r, hr, pos => by
    obtain ⟨ha, -, hb, hrest⟩ := h
    have fence : Fenced (tagClosing ++ (shownAll rest.parts ++ r)) :=
      fun _ hc => .inr (Option.some.inj hc).symm
    rw [shownAll_tag]
    simp only [List.append_assoc, List.length_append]
    rw [ha.boundsFrom_tag, boundsFrom_nesting hb fence, boundsFrom_closing,
      boundsFrom_nesting hrest hr, bounds, List.cons_append, List.append_assoc, List.cons_append]
    simp only [Nat.add_assoc]
    rfl
  | single attributes rest, h, r, hr, pos => by
    rw [parts, shownAll_cons, List.append_assoc, List.length_append, Part.shown, tagAlone,
      h.1.boundsFrom_tag, boundsFrom_nesting h.2 hr, bounds, List.cons_append, Nat.add_assoc]
    rfl

end Nesting

/-! ### Searches that come through a body -/

/-- The boundaries of a tag around a body that has boundaries of its own. -/
def enclosed (a u : Text) (bounds : Nat → List Boundary) (n : Nat) : List Boundary :=
  let inside := n + (tagOpening a).length
  let stop := inside + u.length
  ⟨n, n + 8, false⟩ :: (bounds inside ++ [⟨stop, stop + 10, true⟩])

theorem bounds_tag (attributes : Text) (body rest : Nesting) (n : Nat) :
    (Nesting.tag attributes body rest).bounds n =
      enclosed attributes (shownAll body.parts) (body.bounds ·) n ++ rest.bounds
        (n + (tagOpening attributes ++ (shownAll body.parts ++ tagClosing)).length) := by
  simp only [Nesting.bounds, enclosed, List.length_append, List.cons_append, List.append_assoc,
    List.nil_append, Nat.add_assoc]

namespace AttributeText

variable {a u : Text} {bounds : Nat → List Boundary}

theorem around_eq (h : AttributeText a) (u : Text) (bounds : Nat → List Boundary) :
    around a u bounds = enclosed a u bounds := by
  funext n
  simp only [around, enclosed, h.boundsFrom_opening, List.singleton_append]

/-- The search for the end of a tag comes through a tag of which it comes through the body. -/
theorem passes_closing? (h : AttributeText a) (hs : selfClosed? a = none)
    (body : ∀ depth, Passes (closing? · depth) (fun _ x => x) u bounds) (depth : Nat) :
    Passes (closing? · depth) (fun _ x => x) (tagOpening a ++ (u ++ tagClosing))
      (enclosed a u bounds) := by
  rw [← h.around_eq]
  exact h.opens.passes_closing? hs body depth

theorem passes_closing?_alone (h : AttributeText (a ++ ['/'])) (depth : Nat) :
    Passes (closing? · depth) (fun _ x => x) (tagOpening (a ++ ['/']))
      fun n => [⟨n, n + 8, false⟩] := by
  have alone : (selfClosed? (a ++ ['/'])).isSome := by rw [selfClosed?_slash, Option.isSome_some]
  have passes := h.opens.passes_closing?_alone alone depth
  simp only [h.boundsFrom_opening] at passes
  exact passes

end AttributeText

namespace Nesting

/-- **The search for the end of a tag comes through the tags of its body.** -/
theorem passes_closing? : ∀ {b : Nesting}, b.Tagged → ∀ depth,
    Passes (closing? · depth) (fun _ x => x) (shownAll b.parts) (b.bounds ·)
  | nil, _, _ => Passes.text _ []
  | part p rest, h, depth => (Passes.text _ p.shown).append (passes_closing? h.rest depth)
  | slot gap heading content rest, ⟨_, hc, hrest⟩, depth => by
    rw [shownAll_slot]
    exact (Passes.text _ _).append ((passes_closing? hc depth).append
      ((Passes.text _ _).append (passes_closing? hrest depth)))
  | tag attributes body rest, ⟨ha, hs, hb, hrest⟩, depth => by
    simp only [shownAll_tag, bounds_tag]
    exact (ha.passes_closing? hs (passes_closing? hb) depth).append (passes_closing? hrest depth)
  | single attributes rest, ⟨ha, hrest⟩, depth =>
    (ha.passes_closing?_alone depth).append (passes_closing? hrest depth)

/-- The boundaries of a body start in it. -/
theorem start_bounds : ∀ {b : Nesting} {pos : Nat}, ∀ x ∈ b.bounds pos,
    x.start < pos + (shownAll b.parts).length
  | part p rest, pos, x, hx => by
    have ih := start_bounds (b := rest) x hx
    rw [parts, shownAll_cons, List.length_append]
    omega
  | slot gap h content rest, pos, x, hx => by
    rw [shownAll_slot]
    simp only [List.length_append]
    obtain hx | hx := List.mem_append.mp hx
    · have ih := start_bounds x hx
      omega
    · have ih := start_bounds x hx
      omega
  | tag attributes body rest, pos, x, hx => by
    have length := length_tagOpening attributes
    rw [shownAll_tag]
    simp only [List.length_append]
    have closing : tagClosing.length = 10 := rfl
    obtain rfl | hx := List.mem_cons.mp hx
    · dsimp only
      omega
    · obtain hx | hx := List.mem_append.mp hx
      · have ih := start_bounds x hx
        omega
      · obtain rfl | hx := List.mem_cons.mp hx
        · dsimp only
          omega
        · have ih := start_bounds x hx
          omega
  | single attributes rest, pos, x, hx => by
    have length := length_tagOpening (attributes ++ ['/'])
    have shown : (shownAll (single attributes rest).parts).length =
        (tagOpening (attributes ++ ['/'])).length + (shownAll rest.parts).length :=
      List.length_append
    rw [shown]
    obtain rfl | hx := List.mem_cons.mp hx
    · dsimp only
      omega
    · have ih : x.start < pos + (tagOpening (attributes ++ ['/'])).length +
        (shownAll rest.parts).length := start_bounds x hx
      omega

end Nesting

/-! ### The tags of a text -/

namespace Nesting

/-- The tags of a text that stand in no other tag, where the text starts at an offset. -/
def tags : Nat → Nesting → List IncludeTag
  | _, nil => []
  | pos, part p rest => rest.tags (pos + p.shown.length)
  | pos, slot gap h content rest =>
    let inside := pos + (Part.call "slot" gap h.args).shown.length
    let stop := inside + content.shown.length
    content.tags inside ++ rest.tags (stop + (Part.word "endslot").shown.length)
  | pos, tag attributes body rest =>
    let stop := pos + (tagOpening attributes).length + body.shown.length
    ⟨pos, stop + 10, attributes, some body.shown⟩ :: rest.tags (stop + tagClosing.length)
  | pos, single attributes rest =>
    let stop := pos + (tagAlone attributes).length
    ⟨pos, stop, attributes, none⟩ :: rest.tags stop

/-- The bodies of the tags that stand in no other tag. -/
def bodies : Nesting → List Nesting
  | nil => []
  | part _ rest => rest.bodies
  | slot _ _ content rest => content.bodies ++ rest.bodies
  | tag _ body rest => body :: rest.bodies
  | single _ rest => rest.bodies

theorem tags_bodies : ∀ {b : Nesting} {pos : Nat},
    (b.tags pos).filterMap IncludeTag.body = b.bodies.map shown
  | nil, _ => rfl
  | part _ rest, _ => tags_bodies (b := rest)
  | slot _ _ content rest, _ => by
    rw [tags, bodies, List.filterMap_append, List.map_append, tags_bodies, tags_bodies]
  | tag _ body rest, _ => by
    rw [tags, bodies, List.filterMap_cons, List.map_cons, tags_bodies]
  | single _ rest, _ => tags_bodies (b := rest)

end Nesting

namespace AttributeText

variable {a u : Text} {bounds : Nat → List Boundary}

/-- The search for tags finds a tag and goes on behind it, if the search for the end of the tag comes
through the body. -/
theorem passes_tagsFrom (h : AttributeText a) (hs : selfClosed? a = none)
    (body : Passes (closing? · 0) (fun _ x => x) u bounds)
    (starts : ∀ n, ∀ x ∈ bounds n, x.start < n + u.length) :
    Passes tagsFrom (fun n tags => ⟨n, n + (tagOpening a).length + u.length + 10, a, some u⟩ :: tags)
      (tagOpening a ++ (u ++ tagClosing)) (enclosed a u bounds) := by
  rw [← h.around_eq]
  exact h.opens.passes_tagsFrom hs body starts

theorem passes_tagsFrom_alone (h : AttributeText (a ++ ['/'])) :
    Passes tagsFrom (fun n tags => ⟨n, n + (tagAlone a).length, a, none⟩ :: tags) (tagAlone a)
      fun n => [⟨n, n + 8, false⟩] := by
  have passes := h.opens.passes_tagsFrom_alone (selfClosed?_slash a)
  simp only [h.boundsFrom_opening] at passes
  exact passes

end AttributeText

namespace Nesting

/-- **The search for tags finds those of a body that stand in no other tag.** -/
theorem passes_tagsFrom : ∀ {b : Nesting}, b.Tagged →
    Passes tagsFrom (fun n tags => b.tags n ++ tags) (shownAll b.parts) (b.bounds ·)
  | nil, _ => Passes.text _ []
  | part p rest, h => (Passes.text _ p.shown).append (passes_tagsFrom h.rest)
  | slot gap heading content rest, ⟨_, hc, hrest⟩ => by
    have passes := (Passes.text tagsFrom (Part.call "slot" gap heading.args).shown).append
      ((passes_tagsFrom hc).append
        ((Passes.text _ (Part.word "endslot").shown).append (passes_tagsFrom hrest)))
    simp only [shownAll_slot, tags, List.append_assoc]
    exact passes
  | tag attributes body rest, ⟨ha, hs, hb, hrest⟩ => by
    have passes := (ha.passes_tagsFrom hs (passes_closing? hb 0) fun _ => start_bounds).append
      (passes_tagsFrom hrest)
    simp only [shownAll_tag, bounds_tag, List.length_append, ← Nat.add_assoc] at passes ⊢
    exact passes
  | single attributes rest, ⟨ha, hrest⟩ =>
    (ha.passes_tagsFrom_alone).append (passes_tagsFrom hrest)

end Nesting

/-- **The body of a tag ends where the tag does**, whatever tags stand in it. -/
theorem includeTags_nesting {b : Nesting} (hb : b.Tagged)
    (unguarded : Lowering.protectedSpans b.shown = []) : includeTags b.shown = b.tags 0 := by
  have all := Nesting.boundsFrom_nesting hb (r := []) nofun 0
  obtain ⟨pos, -, e⟩ := Nesting.passes_tagsFrom hb [] [] 0 [] (Nat.le_refl 0)
  simp only [List.append_nil, List.nil_append, List.length_nil] at all e
  unfold includeTags
  rw [boundaries_unprotected unguarded, Nesting.shown, all]
  refine Eq.trans ?_ (e.trans (List.append_nil _))
  exact congrArg (tagsFrom _ 0) (List.append_nil _)

/-- **The slots of a tag are those that hold no other one**, wherever they stand in its body: in the
slots of the body and in the tags in it, too.  Where all have different names, they are the slots of
the body itself if and only if no slot stands in a tag or in another slot. -/
theorem slots_of_tags {n : Nesting} (hn : n.Tagged)
    (unguarded : Lowering.protectedSpans n.shown = []) :
    (includeTags n.shown).filterMap IncludeTag.body = n.bodies.map Nesting.shown ∧
      ∀ b ∈ n.bodies, b.Plain → Legible b.parts →
        extractSlots b.shown = Named.putAll [] b.innermost ∧
        (b.names.Nodup → (extractSlots b.shown = Named.putAll [] b.direct ↔ b.Flat)) := by
  refine ⟨?_, fun b _ plain legible => ?_⟩
  · rw [includeTags_nesting hn unguarded, Nesting.tags_bodies]
  · exact ⟨extractSlots_nesting plain legible, extractSlots_iff_flat plain legible⟩

/-- A tag whose body is a tag that defines a slot. -/
def borrowed : Nesting :=
  .tag " src=\"b\"" (.slot [] ⟨"'y'", "y", by decide⟩ (.part (.text "bar") .nil) .nil) .nil

/-- A page that asks for a partial with it. -/
def borrowing : Nesting := .tag " src=\"a\"" borrowed .nil

theorem tagged_borrowing : borrowing.Tagged := by
  have attributes (a : Text) (bare : '<' ∉ a) (parted : (a.head?.map isWord).getD false = false)
      (closes : attributesLength? none (a ++ ['>']) = some a.length) : AttributeText a :=
    ⟨bare, parted, closes⟩
  have letters : Nowhere boundary? "bar" := by decide
  exact ⟨attributes _ (by decide) (by decide) (by decide), by decide,
    ⟨attributes _ (by decide) (by decide) (by decide), by decide,
      ⟨by decide, ⟨letters, rfl, trivial⟩, trivial⟩, trivial⟩, trivial⟩

theorem plain_borrowed : borrowed.Plain := ⟨⟨⟨nofun, trivial⟩, trivial⟩, trivial⟩

theorem legible_borrowed : Legible borrowed.parts := by
  have quoted : Balanced "'y'" := (Literal.single "y" (by decide) (by decide)).balanced
  exact ⟨by decide, by decide, by decide, rfl, quoted, by decide, by decide, by decide, by decide,
    .inr (by decide), by decide, trivial⟩

/-- The slot of the inner tag is taken for one of the outer tag, whose body defines none. -/
theorem slots_of_borrowing :
    borrowing.shown =
        "<include src=\"a\"><include src=\"b\">@slot('y')bar@endslot</include></include>".toList ∧
      (includeTags borrowing.shown).filterMap IncludeTag.body = [borrowed.shown] ∧
      extractSlots borrowed.shown = [("y".toList, "bar".toList)] ∧
      extractSlots borrowed.shown ≠ Named.putAll [] borrowed.direct := by
  obtain ⟨bodies, slots⟩ := slots_of_tags tagged_borrowing (by decide +kernel)
  obtain ⟨found, direct⟩ := slots borrowed (List.mem_singleton_self _) plain_borrowed
    legible_borrowed
  have flat : ¬ borrowed.Flat := fun h => List.cons_ne_nil _ _ h.1
  refine ⟨by decide +kernel, bodies, found.trans (by decide +kernel), fun same => flat ?_⟩
  exact (direct (by decide)).mp same

end Pagewright.Assembly
