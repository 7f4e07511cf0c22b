import Pagewright.Proofs.Assembly.Nesting
import Pagewright.Proofs.Directive.Entry

/-! # Filling places

A partial has places for slots: without a default, with a default as second argument, and around a
default.  Each place is filled once, with what the caller defines under its name or with its default,
and nothing that is put there is looked at again (`fillSlots_slotted`).  The body that defines slots
around their contents is read in the same way: the last definition of a name counts
(`extractSlots_defining`).

Main definitions: `Definition`, `Place`, `Slotted`. -/

namespace Pagewright.Assembly

open Text Directive

/-! ### Places -/

/-- A slot that is written around a text. -/
structure Definition where
  gap : Text
  name : Entry
  content : Text

/-- A place for a slot: without a default, with a default as second argument, or around one.  Blanks
may stand between the name of the directive and its arguments. -/
inductive Place where
  | bare (gap : Text) (name : Entry)
  | short (gap : Text) (name default : Entry)
  | block (d : Definition)

namespace Definition

/-- The opener of a slot. -/
def opener (d : Definition) : Part := .call "slot" d.gap (entries [d.name])

/-- The parts that a definition is made of. -/
def parts (d : Definition) : List Part := [d.opener, .text d.content, .word "endslot"]

/-- The content is plain text. -/
def Sound (d : Definition) : Prop := d.gap.all isGap = true ∧ '@' ∉ d.content

end Definition

namespace Place

/-- The parts that a place is made of. -/
def parts : Place → List Part
  | bare gap name => [.call "slot" gap (entries [name])]
  | short gap name default => [.call "slot" gap (entries [name, default])]
  | block d => d.parts

/-- The name of the slot that belongs in a place. -/
def name : Place → Text
  | bare _ name => name.value
  | short _ name _ => name.value
  | block d => d.name.value

/-- What stands in a place when the slot is not defined. -/
def default : Place → Text
  | bare .. => []
  | short _ _ default => default.value
  | block d => d.content

/-- What comes into a place. -/
def fill (slots : List (Text × Text)) (p : Place) : Text := (slots.lookup p.name).getD p.default

/-- A place whose default is plain text, with what stands behind it: plain text that does not go on
with the name of a closer. -/
def Sound : Place → Text → Prop
  | bare gap _, t => gap.all isGap = true ∧ '@' ∉ t
  | short gap _ _, t => gap.all isGap = true ∧ '@' ∉ t
  | block d, t => d.Sound ∧ '@' ∉ t ∧ endsName t = true

end Place

/-- A text with places: what stands in front of the first one, and each place with what stands behind
it. -/
structure Slotted where
  lead : Text
  places : List (Place × Text)

namespace Slotted

/-- The parts of places and of the texts behind them. -/
def partsOf (ps : List (Place × Text)) : List Part := ps.flatMap fun (p, t) => p.parts ++ [.text t]

/-- The parts of a text with places. -/
def parts (s : Slotted) : List Part := .text s.lead :: partsOf s.places

/-- A text with places as it is written. -/
def shown (s : Slotted) : Text := shownAll s.parts

/-- A text with its places filled. -/
def filled (slots : List (Text × Text)) (s : Slotted) : Text :=
  s.lead ++ s.places.flatMap fun (p, t) => p.fill slots ++ t

/-- Nothing is taken for a directive but the places. -/
def Sound (s : Slotted) : Prop := '@' ∉ s.lead ∧ ∀ x ∈ s.places, x.1.Sound x.2

/-- A text that defines slots. -/
def defining (lead : Text) (ds : List (Definition × Text)) : Slotted :=
  ⟨lead, ds.map fun (d, t) => (.block d, t)⟩

end Slotted

/-! ### Reading places -/

theorem partsOf_cons (p : Place) (t : Text) (ps : List (Place × Text)) :
    Slotted.partsOf ((p, t) :: ps) = p.parts ++ .text t :: Slotted.partsOf ps := by
  rw [Slotted.partsOf, List.flatMap_cons, List.append_assoc]
  rfl

theorem head?_shownAll_partsOf : ∀ ps : List (Place × Text),
    ∀ c ∈ (shownAll (Slotted.partsOf ps)).head?, c = '@'
  | [], _, hc => by cases hc
  | (.bare .., _) :: _, _, hc => (Option.some.inj hc).symm
  | (.short .., _) :: _, _, hc => (Option.some.inj hc).symm
  | (.block _, _) :: _, _, hc => (Option.some.inj hc).symm

/-- The first directive of places is an opener. -/
theorem head?_marks_partsOf (pos : Nat) : ∀ ps : List (Place × Text),
    ∀ e ∈ (marks pos (Slotted.partsOf ps)).head?, e.name = "slot".toList
  | [], _, he => by cases he
  | (.bare .., _) :: _, _, he => (Option.some.inj he) ▸ rfl
  | (.short .., _) :: _, _, he => (Option.some.inj he) ▸ rfl
  | (.block _, _) :: _, _, he => (Option.some.inj he) ▸ rfl

theorem readable_partsOf : ∀ {ps : List (Place × Text)}, (∀ x ∈ ps, x.1.Sound x.2) →
    Readable (Slotted.partsOf ps)
  | [], _ => trivial
  | (p, t) :: ps, h => by
    obtain ⟨first, others⟩ := List.forall_mem_cons.mp h
    have ih := readable_partsOf others
    have slot : name? "slot" = some "slot".toList := by decide
    have takes : "slot".toList ∉ bareNames := by decide
    rw [partsOf_cons]
    cases p with
    | bare gap name => exact ⟨slot, takes, first.1, balanced_entries _, first.2, ih⟩
    | short gap name default => exact ⟨slot, takes, first.1, balanced_entries _, first.2, ih⟩
    | block d =>
      obtain ⟨⟨blank, plain⟩, behind, ends⟩ := first
      have closes := endsName_append ends (head?_shownAll_partsOf ps)
      exact ⟨slot, takes, blank, balanced_entries _, plain, by decide, closes, .inl (by decide),
        behind, ih⟩

namespace Slotted

theorem Sound.readable {s : Slotted} (h : s.Sound) : Readable s.parts :=
  ⟨h.1, readable_partsOf h.2⟩

/-- The directives of a text with places are those of its places. -/
theorem directives_shown {s : Slotted} (h : s.Sound) :
    directives s.shown = marks s.lead.length (partsOf s.places) := by
  rw [shown, directives_readable h.readable, parts, marks, Part.shown, Nat.zero_add]
  rfl

end Slotted

/-! ### Blocks of places -/

section

variable (pre rest : Text) (ds : List Directive)

/-- A definition is a block, whatever stands around it. -/
theorem blocksFrom_definition (d : Definition) (isInline : Directive → Bool)
    (single : ∀ e : Directive, e.argumentList.length = 1 → isInline e = false) :
    ∃ opener closer : Directive, opener.argumentList = [d.name.literal.shown] ∧
      opener.start = pre.length ∧ closer.stop = pre.length + (shownAll d.parts).length ∧
      blocksFrom (pre ++ (shownAll d.parts ++ rest)) "slot" "endslot" isInline 0
          (marks pre.length d.parts ++ ds) =
        ⟨opener, some closer, some d.content⟩ ::
          blocksFrom (pre ++ (shownAll d.parts ++ rest)) "slot" "endslot" isInline 0 ds := by
  have cut : slice (pre ++ (shownAll d.parts ++ rest)) (pre.length + d.opener.shown.length)
      (pre.length + d.opener.shown.length + d.content.length) = d.content := by
    have source : pre ++ (shownAll d.parts ++ rest) =
        (pre ++ d.opener.shown) ++ (d.content ++ ((Part.word "endslot").shown ++ rest)) := by
      simp [Definition.parts, Part.shown]
    rw [source, ← List.length_append, slice_middle]
  let opener : Directive := ⟨"slot", some (entries [d.name]), pre.length,
    pre.length + d.opener.shown.length, false⟩
  let closer : Directive := ⟨"endslot", none, pre.length + d.opener.shown.length + d.content.length,
    pre.length + d.opener.shown.length + d.content.length + (Part.word "endslot").shown.length, false⟩
  have arguments : opener.argumentList = [d.name.literal.shown] := arguments_entries [d.name]
  have block := blocksFrom_closed (pre ++ (shownAll d.parts ++ rest)) ds
    (rfl : opener.name = "slot".toList) rfl (single opener (arguments ▸ rfl))
    (rfl : closer.name = "endslot".toList)
  rw [cut] at block
  refine ⟨opener, closer, arguments, rfl, ?_, block⟩
  simp only [closer, Definition.parts, shownAll_cons, shownAll_nil, List.length_append,
    List.append_nil, Nat.add_assoc]
  rfl

/-- What filling asks for in a block. -/
def edit? (slots : List (Text × Text)) (b : Block) : Option Edit :=
  (blockName? b).map fun name => ⟨b.start, b.stop, (slots.lookup name).getD (slotDefault b)⟩

/-- What filling asks for among directives of a text. -/
def fillsFrom (slots : List (Text × Text)) (t : Text) (ds : List Directive) : List Edit :=
  (blocksFrom t "slot" "endslot" isShort 0 ds).filterMap (edit? slots)

theorem fillSlots_eq (t : Text) (slots : List (Text × Text)) :
    fillSlots t slots = editFrom t 0 (fillsFrom slots t (directives t)) := rfl

/-- **A place is filled where it stands**, if an opener comes next. -/
theorem fillsFrom_place (slots : List (Text × Text)) (p : Place)
    (next : ∀ e ∈ ds.head?, e.name = "slot".toList) :
    fillsFrom slots (pre ++ (shownAll p.parts ++ rest)) (marks pre.length p.parts ++ ds) =
      ⟨pre.length, pre.length + (shownAll p.parts).length, p.fill slots⟩ ::
        fillsFrom slots (pre ++ (shownAll p.parts ++ rest)) ds := by
  have whole : ∀ q : Part, q.shown.length = (shownAll [q]).length := fun q => by
    rw [shownAll_cons, shownAll_nil, List.append_nil]
  cases p with
  | bare gap name =>
    let d : Directive := ⟨"slot", some (entries [name]), pre.length,
      pre.length + (Part.call "slot" gap (entries [name])).shown.length, false⟩
    have arguments : d.argumentList = [name.literal.shown] := arguments_entries [name]
    have filled : edit? slots ⟨d, none, none⟩ =
        some ⟨pre.length, d.stop, (Place.bare gap name).fill slots⟩ := by
      unfold edit? blockName? slotDefault
      simp only [arguments, List.head?_cons, Option.bind_some, Literal.literal?_shown]
      rfl
    have apart : "slot".toList ≠ "endslot".toList := by decide
    unfold fillsFrom
    refine (congrArg (List.filterMap _) (blocksFrom_alone _ (d := d) rfl rfl next apart)).trans ?_
    rw [List.filterMap_cons_some filled]
    simp only [d, whole]
    rfl
  | short gap name default =>
    let d : Directive := ⟨"slot", some (entries [name, default]), pre.length,
      pre.length + (Part.call "slot" gap (entries [name, default])).shown.length, false⟩
    have arguments : d.argumentList = [name.literal.shown, default.literal.shown] :=
      arguments_entries [name, default]
    have short : isShort d = true := by rw [isShort, arguments]; rfl
    have filled : edit? slots ⟨d, none, none⟩ =
        some ⟨pre.length, d.stop, (Place.short gap name default).fill slots⟩ := by
      unfold edit? blockName? slotDefault
      simp only [arguments, List.head?_cons, Option.bind_some, Literal.literal?_shown]
      rfl
    unfold fillsFrom
    refine (congrArg (List.filterMap _) (blocksFrom_inline _ ds (d := d) rfl rfl short)).trans ?_
    rw [List.filterMap_cons_some filled]
    simp only [d, whole]
    rfl
  | block d =>
    have single : ∀ e : Directive, e.argumentList.length = 1 → isShort e = false := fun e he => by
      rw [isShort, he]
      rfl
    obtain ⟨opener, closer, arguments, start, stop, block⟩ :=
      blocksFrom_definition pre rest ds d isShort single
    have filled : edit? slots ⟨opener, some closer, some d.content⟩ =
        some ⟨opener.start, closer.stop, (Place.block d).fill slots⟩ := by
      unfold edit? blockName? slotDefault
      simp only [arguments, List.head?_cons, Option.bind_some, Literal.literal?_shown]
      rfl
    unfold fillsFrom
    refine (congrArg (List.filterMap _) block).trans ?_
    rw [List.filterMap_cons_some filled, start, stop]
    rfl

theorem slotsFrom_definition (d : Definition) :
    slotsFrom (pre ++ (shownAll d.parts ++ rest)) (marks pre.length d.parts ++ ds) =
      (d.name.value, strip d.content) :: slotsFrom (pre ++ (shownAll d.parts ++ rest)) ds := by
  obtain ⟨opener, closer, arguments, -, -, block⟩ :=
    blocksFrom_definition pre rest ds d (fun _ => false) fun _ _ => rfl
  have defined : slot? ⟨opener, some closer, some d.content⟩ =
      some (d.name.value, strip d.content) := by
    unfold slot? blockName?
    simp only [arguments, List.head?_cons, Option.bind_some, Literal.literal?_shown]
    rfl
  unfold slotsFrom
  rw [block, List.filterMap_cons_some defined]

end

/-! ### All places -/

theorem marks_partsOf (pos : Nat) (p : Place) (t : Text) (ps : List (Place × Text)) :
    marks pos (Slotted.partsOf ((p, t) :: ps)) =
      marks pos p.parts ++
        marks (pos + (shownAll p.parts).length + t.length) (Slotted.partsOf ps) := by
  rw [partsOf_cons, marks_append, marks]
  rfl

theorem shownAll_partsOf (p : Place) (t : Text) (ps : List (Place × Text)) :
    shownAll (Slotted.partsOf ((p, t) :: ps)) =
      shownAll p.parts ++ (t ++ shownAll (Slotted.partsOf ps)) := by
  rw [partsOf_cons, shownAll_append, shownAll_cons, Part.shown]

/-- The places behind the text `pre` are filled one after the other, from `last` on. -/
theorem editFrom_partsOf (slots : List (Text × Text)) : ∀ (ps : List (Place × Text)) (pre : Text)
    (last : Nat), last ≤ pre.length →
    editFrom (pre ++ shownAll (Slotted.partsOf ps)) last
        (fillsFrom slots (pre ++ shownAll (Slotted.partsOf ps))
          (marks pre.length (Slotted.partsOf ps))) =
      pre.drop last ++ ps.flatMap fun (p, t) => p.fill slots ++ t
  | [], pre, last, _ => by
    show (pre ++ []).drop last = pre.drop last ++ []
    rw [List.append_nil, List.append_nil]
  | (p, t) :: ps, pre, last, hl => by
    let behind := pre ++ (shownAll p.parts ++ t)
    have length : pre.length + (shownAll p.parts).length + t.length = behind.length := by
      simp only [behind, List.length_append, Nat.add_assoc]
    have source : pre ++ shownAll (Slotted.partsOf ((p, t) :: ps)) =
        behind ++ shownAll (Slotted.partsOf ps) := by
      simp only [behind, shownAll_partsOf, List.append_assoc]
    have filled := fillsFrom_place pre (t ++ shownAll (Slotted.partsOf ps))
      (marks behind.length (Slotted.partsOf ps)) slots p (head?_marks_partsOf _ ps)
    rw [← shownAll_partsOf, ← length, ← marks_partsOf, source, length] at filled
    have inside : pre.length + (shownAll p.parts).length ≤ behind.length := by omega
    have ih := editFrom_partsOf slots ps behind (pre.length + (shownAll p.parts).length) inside
    have front : slice (behind ++ shownAll (Slotted.partsOf ps)) last pre.length = pre.drop last := by
      rw [← source, slice_before _ hl]
    have rest : behind.drop (pre.length + (shownAll p.parts).length) = t := by
      simp only [behind]
      rw [← List.length_append, ← List.append_assoc, List.drop_left]
    rw [source, filled, editFrom, front, ih, rest, List.flatMap_cons, List.append_assoc,
      List.append_assoc]

/-- **Places are filled at once**: each with what is defined under its name or with its default. -/
theorem fillSlots_slotted {s : Slotted} (h : s.Sound) (slots : List (Text × Text)) :
    fillSlots s.shown slots = s.filled slots := by
  rw [fillSlots_eq, Slotted.directives_shown h]
  exact editFrom_partsOf slots s.places s.lead 0 (Nat.zero_le _)

theorem slotsFrom_defining : ∀ (ds : List (Definition × Text)) (pre : Text),
    slotsFrom (pre ++ shownAll (Slotted.partsOf (Slotted.defining pre ds).places))
        (marks pre.length (Slotted.partsOf (Slotted.defining pre ds).places)) =
      ds.map fun (d, _) => (d.name.value, strip d.content)
  | [], _ => rfl
  | (d, t) :: ds, pre => by
    let behind := pre ++ (shownAll d.parts ++ t)
    let later := Slotted.partsOf (Slotted.defining behind ds).places
    have length : pre.length + (shownAll d.parts).length + t.length = behind.length := by
      simp only [behind, List.length_append, Nat.add_assoc]
    have source : pre ++ (shownAll d.parts ++ (t ++ shownAll later)) = behind ++ shownAll later := by
      simp only [behind, List.append_assoc]
    have found := slotsFrom_definition pre (t ++ shownAll later) (marks behind.length later) d
    rw [source, slotsFrom_defining ds behind] at found
    have first : (Slotted.defining pre ((d, t) :: ds)).places =
        (.block d, t) :: (Slotted.defining behind ds).places := rfl
    rw [first, shownAll_partsOf, marks_partsOf]
    refine Eq.trans ?_ found
    rw [← source, ← length]
    rfl

theorem extractSlots_defining {lead : Text} {ds : List (Definition × Text)}
    (h : (Slotted.defining lead ds).Sound) : extractSlots (Slotted.defining lead ds).shown =
      Named.putAll [] (ds.map fun (d, _) => (d.name.value, strip d.content)) := by
  rw [extractSlots_eq, Slotted.directives_shown h]
  exact congrArg (Named.putAll []) (slotsFrom_defining ds lead)

/-- **Filling slots is substitution**: in a partial, each place gives way to what is defined under its
name, whatever that holds, or to its default, and nothing else changes.  What a body defines are the
names of its slots, each with the trimmed content of the last one of that name. -/
theorem slots_substituted :
    (∀ s : Slotted, s.Sound → ∀ slots, fillSlots s.shown slots = s.filled slots) ∧
      ∀ (lead : Text) (ds : List (Definition × Text)), (Slotted.defining lead ds).Sound →
        ((extractSlots (Slotted.defining lead ds).shown).map Prod.fst).Nodup ∧
        ∀ name, (extractSlots (Slotted.defining lead ds).shown).lookup name =
          (ds.reverse.find? fun (d, _) => d.name.value = name).map fun (d, _) => strip d.content := by
  refine ⟨fun s h slots => fillSlots_slotted h slots, fun lead ds h => ?_⟩
  rw [extractSlots_defining h]
  refine ⟨Named.nodup_putAll _ List.nodup_nil, fun name => ?_⟩
  rw [Named.lookup_putAll, List.lookup_nil, Option.or_none, ← List.map_reverse]
  exact Named.lookup_map _ _ name ds.reverse

/-- A name that reads like an argument list, and a plain one. -/
def headName : Entry := .tight (.single "a, @slot(\"b\")" (by decide) (by decide))

def bodyName : Entry := ⟨" ", .single "body" (by decide) (by decide), "\n", rfl, rfl⟩

/-- A partial with places of all forms. -/
def frameOfSlots : Slotted where
  lead := "<h1>"
  places :=
    [(.bare [] headName, "</h1>"), (.short " " headName bodyName, ".x"),
      (.block ⟨"\t", bodyName, " none, (yet) "⟩, "! "),
      (.short [] (.tight (.single "foot" (by decide) (by decide))) headName, [])]

theorem sound_frameOfSlots : frameOfSlots.Sound := by
  refine ⟨by decide, List.forall_mem_cons.mpr ⟨⟨by decide, by decide⟩, ?_⟩⟩
  refine List.forall_mem_cons.mpr ⟨⟨by decide, by decide⟩, ?_⟩
  refine List.forall_mem_cons.mpr ⟨⟨⟨by decide, by decide⟩, by decide, by decide⟩, ?_⟩
  exact List.forall_mem_singleton.mpr ⟨by decide, by decide⟩

/-- Definitions, two of them of one name. -/
def redefined : List (Definition × Text) :=
  [(⟨[], bodyName, " one "⟩, " - "), (⟨" ", headName, []⟩, []), (⟨[], bodyName, "\ttwo (2)\n"⟩, ")")]

theorem sound_redefined : (Slotted.defining "." redefined).Sound := by
  refine ⟨by decide, List.forall_mem_cons.mpr ⟨⟨⟨by decide, by decide⟩, by decide, by decide⟩, ?_⟩⟩
  refine List.forall_mem_cons.mpr ⟨⟨⟨by decide, by decide⟩, by decide, by decide⟩, ?_⟩
  exact List.forall_mem_singleton.mpr ⟨⟨by decide, by decide⟩, by decide, by decide⟩

/-- What is put into a place may hold places: they stay as they are. -/
theorem slots_substituted_strange :
    frameOfSlots.Sound ∧
      fillSlots frameOfSlots.shown
          [(headName.value, "@slot('body')".toList), ("body".toList, "@slot('x')@endslot @@".toList)] =
        "<h1>@slot('body')</h1>@slot('body').x@slot('x')@endslot @@! a, @slot(\"b\")".toList ∧
      (Slotted.defining "." redefined).Sound ∧
      (extractSlots (Slotted.defining "." redefined).shown).lookup "body".toList =
        some "two (2)".toList := by
  obtain ⟨filled, defined⟩ := slots_substituted
  refine ⟨sound_frameOfSlots, (filled _ sound_frameOfSlots _).trans (by decide +kernel),
    sound_redefined, ?_⟩
  exact ((defined "." redefined sound_redefined).2 "body".toList).trans (by decide +kernel)

end Pagewright.Assembly
