import Pagewright.Assembly.Section
import Pagewright.Proofs.Assembly.Item
import Pagewright.Proofs.Text.Named

/-! # Slots and tags in each other

The body of an include tag may define slots and hold further tags, which define slots of their own,
nested in each other to any depth.  Slots are looked for without regard to the tags: those that hold
no other slot are found wherever they stand, and no others (`extractSlots_nesting`).  If all slots
have different names, these are the slots of the body itself if and only if no slot stands in a tag
or in another slot (`extractSlots_iff_flat`).

Main definitions: `Nesting`, `Nesting.innermost`, `Nesting.direct`, `Nesting.Flat`. -/

namespace Pagewright.Assembly

open Text Directive

/-- The directives that define slots. -/
def slotNames : List Text := ["slot", "endslot"]

/-- The beginning of an include tag. -/
def tagLead : Text := "<include"

/-- An include tag up to its body. -/
def tagOpening (attributes : Text) : Text := tagLead ++ (attributes ++ ['>'])

/-- The end of an include tag behind its body. -/
def tagClosing : Text := "</include>"

/-- A tag that has no body. -/
def tagAlone (attributes : Text) : Text := tagOpening (attributes ++ ['/'])

/-- The body of an include tag, by what stands in what. -/
inductive Nesting where
  | nil
  | part (p : Part) (rest : Nesting)
  /-- The definition of a slot. -/
  | slot (gap : Text) (h : Heading none) (content rest : Nesting)
  /-- A further tag with a body of its own. -/
  | tag (attributes : Text) (body rest : Nesting)
  /-- A further tag that stands alone. -/
  | single (attributes : Text) (rest : Nesting)

namespace Nesting

/-- The parts of a body. -/
def parts : Nesting → List Part
  | nil => []
  | part p rest => p :: rest.parts
  | slot gap h content rest =>
    .call "slot" gap h.args :: (content.parts ++ .word "endslot" :: rest.parts)
  | tag attributes body rest =>
    .text (tagOpening attributes) :: (body.parts ++ .text tagClosing :: rest.parts)
  | single attributes rest => .text (tagAlone attributes) :: rest.parts

/-- A body as it is written. -/
def shown (b : Nesting) : Text := shownAll b.parts

theorem shownAll_slot (gap : Text) (h : Heading none) (content rest : Nesting) :
    shownAll (slot gap h content rest).parts =
      (Part.call "slot" gap h.args).shown ++
        (shownAll content.parts ++ ((Part.word "endslot").shown ++ shownAll rest.parts)) := by
  rw [parts, shownAll_cons, shownAll_append, shownAll_cons]

theorem shownAll_tag (attributes : Text) (body rest : Nesting) :
    shownAll (tag attributes body rest).parts =
      tagOpening attributes ++ (shownAll body.parts ++ tagClosing) ++ shownAll rest.parts := by
  rw [parts, shownAll_cons, shownAll_append, shownAll_cons, List.append_assoc, List.append_assoc]
  rfl

/-- Slots are defined in the one form only. -/
def Plain : Nesting → Prop
  | nil => True
  | part p rest => (∀ n, p.named? = some n → n ∉ slotNames) ∧ rest.Plain
  | slot _ _ content rest => content.Plain ∧ rest.Plain
  | tag _ body rest => body.Plain ∧ rest.Plain
  | single _ rest => rest.Plain

/-- The names of all slots, in tags and in other slots, too. -/
def names : Nesting → List Text
  | nil => []
  | part _ rest => rest.names
  | slot _ h content rest => h.name :: (content.names ++ rest.names)
  | tag _ body rest => body.names ++ rest.names
  | single _ rest => rest.names

/-- The slots of the body itself, each with all that stands in it. -/
def direct : Nesting → List (Text × Text)
  | nil => []
  | part _ rest => rest.direct
  | slot _ h content rest => (h.name, strip content.shown) :: rest.direct
  | tag _ _ rest => rest.direct
  | single _ rest => rest.direct

/-- The slots that hold no other one, in tags and in other slots, too. -/
def innermost : Nesting → List (Text × Text)
  | nil => []
  | part _ rest => rest.innermost
  | slot _ h content rest =>
    (if content.names.isEmpty then [(h.name, strip content.shown)] else content.innermost) ++
      rest.innermost
  | tag _ body rest => body.innermost ++ rest.innermost
  | single _ rest => rest.innermost

/-- No slot stands in a tag or in another slot. -/
def Flat : Nesting → Prop
  | nil => True
  | part _ rest => rest.Flat
  | slot _ _ content rest => content.names = [] ∧ rest.Flat
  | tag _ body rest => body.names = [] ∧ rest.Flat
  | single _ rest => rest.Flat

end Nesting

/-! ### Slots among directives -/

/-- The slot that a block defines: its name and its trimmed content. -/
def slot? (b : Block) : Option (Text × Text) := do
  let name ← blockName? b
  let _ ← b.closer
  return (name, strip (b.content.getD []))

/-- The slots that directives of a text define. -/
def slotsFrom (t : Text) (ds : List Directive) : List (Text × Text) :=
  (blocksFrom t "slot" "endslot" (fun _ => false) 0 ds).filterMap slot?

theorem extractSlots_eq (t : Text) : extractSlots t = Named.putAll [] (slotsFrom t (directives t)) :=
  rfl

theorem slotsFrom_other (t : Text) {d : Directive} (ds : List Directive)
    (h : d.name ≠ "slot".toList) : slotsFrom t (d :: ds) = slotsFrom t ds :=
  congrArg (List.filterMap slot?) (blocksFrom_other t ds h)

theorem slotsFrom_others (t : Text) (rest : List Directive) : ∀ ds : List Directive,
    (∀ d ∈ ds, d.name ∉ slotNames) → slotsFrom t (ds ++ rest) = slotsFrom t rest
  | [], _ => rfl
  | d :: ds, h => by
    obtain ⟨hd, hs⟩ := List.forall_mem_cons.mp h
    have other : d.name ≠ "slot".toList := fun e => hd (e ▸ List.mem_cons_self)
    rw [List.cons_append, slotsFrom_other t _ other, slotsFrom_others t rest ds hs]

/-- An opener that is closed before another slot is opened defines a slot. -/
theorem slotsFrom_closed (t : Text) {d e : Directive} {between : List Directive}
    (rest : List Directive) (h : Heading none) (hd : d.name = "slot".toList)
    (ha : d.args = some h.args) (hm : d.malformed = false)
    (hb : ∀ x ∈ between, x.name ∉ slotNames) (he : e.name = "endslot".toList) :
    slotsFrom t (d :: (between ++ e :: rest)) =
      (h.name, strip (slice t d.stop e.start)) :: slotsFrom t rest := by
  obtain ⟨a, hargs, hname⟩ := label?_none h.reads
  have list : d.argumentList = [a] := by
    rw [Directive.argumentList, ha]
    exact hargs
  have defined : slot? ⟨d, some e, some (slice t d.stop e.start)⟩ =
      some (h.name, strip (slice t d.stop e.start)) := by
    unfold slot? blockName?
    simp only [list, List.head?_cons, Option.bind_some, hname]
    rfl
  unfold slotsFrom
  rw [blocksFrom_opener t rest hd hm rfl hb (by rw [he]; decide), if_pos he, List.filterMap_cons,
    defined]

/-- An opener behind which another slot is opened first defines none. -/
theorem slotsFrom_alone (t : Text) {d e : Directive} {between : List Directive}
    (rest : List Directive) (hd : d.name = "slot".toList) (hm : d.malformed = false)
    (hb : ∀ x ∈ between, x.name ∉ slotNames) (he : e.name = "slot".toList) :
    slotsFrom t (d :: (between ++ e :: rest)) = slotsFrom t (between ++ e :: rest) := by
  have other : e.name ≠ "endslot".toList := by
    rw [he]
    decide
  have undefined : slot? ⟨d, none, none⟩ = none := by
    unfold slot?
    cases blockName? ⟨d, none, none⟩ <;> rfl
  unfold slotsFrom
  rw [blocksFrom_opener t rest hd hm rfl hb (by rw [he]; decide), if_neg other,
    List.filterMap_cons, undefined]

/-! ### Slots of a body -/

theorem name_not_mem {p : Part} (hp : ∀ n, p.named? = some n → n ∉ slotNames) (pos : Nat) :
    ∀ d ∈ (p.mark? pos).toList, d.name ∉ slotNames := by
  intro d hd
  exact hp d.name (name_mark? (Option.mem_toList.mp hd))

namespace Nesting

/-- Where no slot is defined, there is no directive of one. -/
theorem marks_slotless : ∀ {b : Nesting}, b.Plain → b.names = [] → ∀ (pos : Nat),
    ∀ d ∈ marks pos b.parts, d.name ∉ slotNames
  | nil, _, _, _, _, hd => absurd hd List.not_mem_nil
  | part p rest, h, hn, pos, d, hd => by
    obtain hd | hd := List.mem_append.mp hd
    · exact name_not_mem h.1 pos d hd
    · exact marks_slotless h.2 hn _ d hd
  | tag attributes body rest, h, hn, pos, d, hd => by
    obtain ⟨inside, behind⟩ := List.append_eq_nil_iff.mp hn
    rw [parts, marks, marks_append] at hd
    obtain hd | hd := List.mem_append.mp hd
    · cases hd
    · obtain hd | hd := List.mem_append.mp hd
      · exact marks_slotless h.1 inside _ d hd
      · exact marks_slotless h.2 behind _ d hd
  | single attributes rest, h, hn, pos, d, hd => marks_slotless (b := rest) h hn _ d hd

/-- Where a slot is defined, the first directive of one is an opener. -/
theorem marks_first : ∀ {b : Nesting}, b.Plain → b.names ≠ [] → ∀ (pos : Nat),
    ∃ between e more, marks pos b.parts = between ++ e :: more ∧
      (∀ d ∈ between, d.name ∉ slotNames) ∧ e.name = "slot".toList
  | nil, _, hn, _ => absurd rfl hn
  | part p rest, h, hn, pos => by
    obtain ⟨between, e, more, all, hb, he⟩ := marks_first h.2 hn (pos + p.shown.length)
    refine ⟨(p.mark? pos).toList ++ between, e, more, ?_, ?_, he⟩
    · rw [parts, marks, all, List.append_assoc]
    · exact fun d hd => (List.mem_append.mp hd).elim (name_not_mem h.1 pos d) (hb d)
  | slot gap heading content rest, h, hn, pos => by
    exact ⟨[], _, _, rfl, fun _ hd => absurd hd List.not_mem_nil, rfl⟩
  | tag attributes body rest, h, hn, pos => by
    by_cases inside : body.names = []
    · have behind : rest.names ≠ [] := fun e => hn (by rw [names, inside, e]; rfl)
      have all := marks_slotless h.1 inside (pos + (Part.text (tagOpening attributes)).shown.length)
      obtain ⟨between, e, more, same, hb, he⟩ := marks_first h.2 behind
        (pos + (Part.text (tagOpening attributes)).shown.length + (shownAll body.parts).length +
          (Part.text tagClosing).shown.length)
      refine ⟨marks (pos + (Part.text (tagOpening attributes)).shown.length) body.parts ++ between, e,
        more, ?_, fun d hd => (List.mem_append.mp hd).elim (all d) (hb d), he⟩
      rw [List.append_assoc, ← same, parts, marks, marks_append, marks]
      rfl
    · obtain ⟨between, e, more, same, hb, he⟩ := marks_first h.1 inside
        (pos + (Part.text (tagOpening attributes)).shown.length)
      refine ⟨between, e, more ++ marks (pos + (Part.text (tagOpening attributes)).shown.length +
        (shownAll body.parts).length) (.text tagClosing :: rest.parts), ?_, hb, he⟩
      rw [parts, marks, marks_append, same, List.append_assoc, List.cons_append]
      rfl
  | single attributes rest, h, hn, pos => marks_first (b := rest) h hn _

/-- The slots of a stretch between two texts, and those of the directives behind it. -/
theorem slotsFrom_nesting : ∀ {b : Nesting}, b.Plain → ∀ (pre post : Text) (ds : List Directive),
    slotsFrom (pre ++ (shownAll b.parts ++ post)) (marks pre.length b.parts ++ ds) =
      b.innermost ++ slotsFrom (pre ++ (shownAll b.parts ++ post)) ds
  | nil, _, _, _, _ => rfl
  | part p rest, h, pre, post, ds => by
    have ih := slotsFrom_nesting h.2 (pre ++ p.shown) post ds
    rw [List.length_append, List.append_assoc] at ih
    rw [parts, marks, List.append_assoc, slotsFrom_others _ _ _ (name_not_mem h.1 _), shownAll_cons,
      List.append_assoc, ih]
    rfl
  | slot gap heading content rest, h, pre, post, ds => by
    let opener := Part.call "slot" gap heading.args
    let closer := Part.word "endslot"
    let d : Directive := ⟨"slot", some heading.args, pre.length, pre.length + opener.shown.length,
      false⟩
    let stop := d.stop + (shownAll content.parts).length
    let e : Directive := ⟨"endslot", none, stop, stop + closer.shown.length, false⟩
    let t := pre ++ (shownAll (slot gap heading content rest).parts ++ post)
    have listed : marks pre.length (slot gap heading content rest).parts ++ ds =
        d :: (marks d.stop content.parts ++ e :: (marks e.stop rest.parts ++ ds)) := by
      rw [parts, marks, marks_append, marks]
      simp only [Part.mark?, Option.toList_some, List.cons_append, List.nil_append,
        List.append_assoc]
      rfl
    have source : t = (pre ++ opener.shown) ++ (shownAll content.parts ++
        (closer.shown ++ (shownAll rest.parts ++ post))) := by
      simp only [t, shownAll_slot, List.append_assoc, opener, closer]
    have source' : t = (pre ++ (opener.shown ++ (shownAll content.parts ++ closer.shown))) ++
        (shownAll rest.parts ++ post) := by
      simp only [t, shownAll_slot, List.append_assoc, opener, closer]
    have cut : slice t d.stop e.start = shownAll content.parts := by
      show slice t (pre.length + opener.shown.length)
        (pre.length + opener.shown.length + (shownAll content.parts).length) = _
      rw [source, ← List.length_append, slice_middle]
    have behind := slotsFrom_nesting h.2
      (pre ++ (opener.shown ++ (shownAll content.parts ++ closer.shown))) post ds
    have length : (pre ++ (opener.shown ++ (shownAll content.parts ++ closer.shown))).length =
        e.stop := by
      simp only [e, stop, d, List.length_append, Nat.add_assoc]
    rw [length, ← source'] at behind
    rw [listed, innermost]
    by_cases empty : content.names = []
    · rw [empty, slotsFrom_closed t _ heading rfl rfl rfl (marks_slotless h.1 empty _) rfl, cut,
        behind]
      rfl
    · have inside := slotsFrom_nesting h.1 (pre ++ opener.shown)
        (closer.shown ++ (shownAll rest.parts ++ post)) (e :: (marks e.stop rest.parts ++ ds))
      rw [← source, List.length_append] at inside
      obtain ⟨between, f, more, first, hb, hf⟩ := marks_first h.1 empty d.stop
      have alone := slotsFrom_alone t (d := d)
        (more ++ e :: (marks e.stop rest.parts ++ ds)) rfl rfl hb hf
      have other : e.name ≠ "slot".toList := by
        show "endslot".toList ≠ "slot".toList
        decide
      have same : marks d.stop content.parts ++ e :: (marks e.stop rest.parts ++ ds) =
          between ++ f :: (more ++ e :: (marks e.stop rest.parts ++ ds)) := by
        rw [first, List.append_assoc, List.cons_append]
      rw [← same] at alone
      have closed : content.names.isEmpty = false := by
        rw [Bool.eq_false_iff, Ne, List.isEmpty_iff]
        exact empty
      rw [alone, closed]
      refine inside.trans ?_
      rw [slotsFrom_other t _ other, behind, List.append_assoc]
      rfl
  | tag attributes body rest, h, pre, post, ds => by
    have inside := slotsFrom_nesting h.1 (pre ++ tagOpening attributes)
      (tagClosing ++ (shownAll rest.parts ++ post))
      (marks (pre.length + (tagOpening attributes).length + (shownAll body.parts).length +
        tagClosing.length) rest.parts ++ ds)
    have behind := slotsFrom_nesting h.2
      (pre ++ (tagOpening attributes ++ (shownAll body.parts ++ tagClosing))) post ds
    simp only [List.length_append, List.append_assoc] at inside behind
    have listed : marks pre.length (tag attributes body rest).parts ++ ds =
        marks (pre.length + (tagOpening attributes).length) body.parts ++
          (marks (pre.length + (tagOpening attributes).length + (shownAll body.parts).length +
            tagClosing.length) rest.parts ++ ds) := by
      rw [parts, marks, marks_append, marks]
      simp only [List.append_assoc]
      rfl
    rw [listed]
    simp only [shownAll_tag, List.append_assoc]
    rw [inside, Nat.add_assoc, Nat.add_assoc, behind, innermost, List.append_assoc]
  | single attributes rest, h, pre, post, ds => by
    have ih := slotsFrom_nesting (b := rest) h (pre ++ tagAlone attributes) post ds
    rw [List.length_append, List.append_assoc] at ih
    rw [parts, shownAll_cons, List.append_assoc]
    exact ih

end Nesting

/-- **Slots are found wherever they stand**: all that hold no other one, and no others. -/
theorem extractSlots_nesting {b : Nesting} (h : b.Plain) (hl : Legible b.parts) :
    extractSlots b.shown = Named.putAll [] b.innermost := by
  have found := Nesting.slotsFrom_nesting h [] [] []
  rw [List.append_nil, List.append_nil, List.nil_append, List.length_nil] at found
  rw [extractSlots_eq, Nesting.shown, directives_shownAll hl, found]
  exact congrArg (Named.putAll []) (List.append_nil _)

/-! ### Slots that stand in nothing else -/

/-- The names that a collection holds are those that were put into it. -/
theorem mem_of_lookup_putAll {new : List (Text × Text)} {name : Text} :
    ((Named.putAll [] new).lookup name).isSome ↔ name ∈ new.map Prod.fst := by
  rw [Named.lookup_putAll, List.lookup_nil, Option.or_none, List.lookup_isSome_iff]
  simp only [List.mem_reverse, beq_iff_eq, List.mem_map, @eq_comm Text name]

namespace Nesting

theorem mem_names_of_innermost : ∀ {b : Nesting} {n : Text},
    n ∈ b.innermost.map Prod.fst → n ∈ b.names
  | part _ rest, n, h => mem_names_of_innermost (b := rest) h
  | slot _ heading content rest, n, h => by
    rw [innermost, List.map_append] at h
    obtain h | h := List.mem_append.mp h
    · by_cases empty : content.names.isEmpty = true
      · rw [if_pos empty] at h
        obtain rfl : n = heading.name := List.mem_singleton.mp h
        exact List.mem_cons_self
      · rw [if_neg empty] at h
        exact List.mem_cons_of_mem _ (List.mem_append_left _ (mem_names_of_innermost h))
    · exact List.mem_cons_of_mem _ (List.mem_append_right _ (mem_names_of_innermost h))
  | tag _ body rest, n, h => by
    rw [innermost, List.map_append] at h
    obtain h | h := List.mem_append.mp h
    · exact List.mem_append_left _ (mem_names_of_innermost h)
    · exact List.mem_append_right _ (mem_names_of_innermost h)
  | single _ rest, n, h => mem_names_of_innermost (b := rest) h

theorem mem_names_of_direct : ∀ {b : Nesting} {n : Text},
    n ∈ b.direct.map Prod.fst → n ∈ b.names
  | part _ rest, n, h => mem_names_of_direct (b := rest) h
  | slot _ heading content rest, n, h => by
    obtain rfl | h := List.mem_cons.mp h
    · exact List.mem_cons_self
    · exact List.mem_cons_of_mem _ (List.mem_append_right _ (mem_names_of_direct h))
  | tag _ body rest, n, h => List.mem_append_right _ (mem_names_of_direct h)
  | single _ rest, n, h => mem_names_of_direct (b := rest) h

/-- Where a slot is defined, one of them holds no other. -/
theorem innermost_ne_nil : ∀ {b : Nesting}, b.names ≠ [] → b.innermost ≠ []
  | nil, h => absurd rfl h
  | part _ rest, h => innermost_ne_nil (b := rest) h
  | slot _ heading content rest, _ => by
    intro e
    obtain ⟨e, -⟩ := List.append_eq_nil_iff.mp e
    by_cases empty : content.names = []
    · rw [empty] at e
      cases e
    · rw [if_neg (by rw [List.isEmpty_iff]; exact empty)] at e
      exact innermost_ne_nil empty e
  | tag _ body rest, h => by
    intro e
    obtain ⟨inside, behind⟩ := List.append_eq_nil_iff.mp e
    refine h (List.append_eq_nil_iff.mpr ⟨?_, ?_⟩)
    · by_contra full
      exact innermost_ne_nil full inside
    · by_contra full
      exact innermost_ne_nil full behind
  | single _ rest, h => innermost_ne_nil (b := rest) h

theorem innermost_eq_nil {b : Nesting} (h : b.names = []) : b.innermost = [] := by
  rw [List.eq_nil_iff_forall_not_mem]
  intro e he
  have named := mem_names_of_innermost (List.mem_map_of_mem (f := Prod.fst) he)
  rw [h] at named
  exact absurd named List.not_mem_nil

/-- Where slots stand in nothing else, they are all that are found. -/
theorem innermost_of_flat : ∀ {b : Nesting}, b.Flat → b.innermost = b.direct
  | nil, _ => rfl
  | part _ rest, h => innermost_of_flat (b := rest) h
  | slot _ heading content rest, ⟨empty, h⟩ => by
    rw [innermost, direct, empty, innermost_of_flat h]
    rfl
  | tag _ body rest, ⟨empty, h⟩ => by
    rw [innermost, direct, innermost_eq_nil empty, innermost_of_flat h]
    rfl
  | single _ rest, h => innermost_of_flat (b := rest) h

/-- Slots of different names are found as those of the body itself only if they are. -/
theorem flat_of_names : ∀ {b : Nesting}, b.names.Nodup →
    (∀ n, n ∈ b.innermost.map Prod.fst ↔ n ∈ b.direct.map Prod.fst) → b.Flat
  | nil, _, _ => trivial
  | part _ rest, distinct, same => flat_of_names (b := rest) distinct same
  | slot _ heading content rest, distinct, same => by
    obtain ⟨own, distinct⟩ := List.nodup_cons.mp distinct
    rw [List.mem_append, not_or] at own
    have empty : content.names = [] := by
      -- The name of a slot that holds another one would not be found.
      by_contra full
      have found := (same heading.name).mpr List.mem_cons_self
      rw [innermost, if_neg (by rw [List.isEmpty_iff]; exact full), List.map_append,
        List.mem_append] at found
      exact found.elim (fun h => own.1 (mem_names_of_innermost h))
        fun h => own.2 (mem_names_of_innermost h)
    refine ⟨empty, flat_of_names (List.nodup_append.mp distinct).2.1 fun n => ?_⟩
    have here := same n
    rw [innermost, direct, empty] at here
    simp only [List.isEmpty_nil, if_true, List.singleton_append, List.map_cons, List.mem_cons] at here
    constructor
    · intro h
      obtain rfl | h' := here.mp (Or.inr h)
      · exact absurd (mem_names_of_innermost h) own.2
      · exact h'
    · intro h
      obtain rfl | h' := here.mpr (Or.inr h)
      · exact absurd (mem_names_of_direct h) own.2
      · exact h'
  | tag _ body rest, distinct, same => by
    obtain ⟨-, distinct, apart⟩ := List.nodup_append.mp distinct
    have empty : body.names = [] := by
      -- A slot that stands in the tag would be found with those of the body.
      by_contra full
      obtain ⟨e, he⟩ := List.exists_mem_of_ne_nil _ (innermost_ne_nil full)
      have named := List.mem_map_of_mem (f := Prod.fst) he
      have found := (same e.1).mp (by
        rw [innermost, List.map_append]
        exact List.mem_append_left _ named)
      exact apart _ (mem_names_of_innermost named) _ (mem_names_of_direct (b := rest) found) rfl
    refine ⟨empty, flat_of_names distinct fun n => ?_⟩
    have here := same n
    rw [innermost, direct, innermost_eq_nil empty] at here
    exact here
  | single _ rest, distinct, same => flat_of_names (b := rest) distinct same

end Nesting

/-- **The slots that are found are those of the body itself** if and only if no slot stands in a tag
or in another slot, where no two slots have one name. -/
theorem extractSlots_iff_flat {b : Nesting} (h : b.Plain) (hl : Legible b.parts)
    (distinct : b.names.Nodup) : extractSlots b.shown = Named.putAll [] b.direct ↔ b.Flat := by
  rw [extractSlots_nesting h hl]
  constructor
  · intro same
    refine Nesting.flat_of_names distinct fun n => ?_
    rw [← mem_of_lookup_putAll, ← mem_of_lookup_putAll, same]
  · intro flat
    rw [Nesting.innermost_of_flat flat]

end Pagewright.Assembly
