import Pagewright.Assembly.Section
import Pagewright.Proofs.Directive.Block

/-! # Templates with sections and yields

A template is put together from items: sections in their two forms, yields, and other parts.  Taking
the sections out of a template gives what its items declare and the template of the other items
(`extractSections_items`).

Main definitions: `Heading` (arguments that are read as a name and a value), `Item`, `parts`,
`sections`, `bare`. -/

namespace Pagewright.Assembly

open Text Directive

/-- The name and the value that arguments give, if these are string literals; there need be no
value. -/
def label? (args : Text) : Option (Text × Option Text) :=
  match arguments args with
  | [] => none
  | [a] => (literal? a).map (·, none)
  | a :: b :: _ => (literal? a).bind fun name => (literal? b).map fun v => (name, some v)

/-- Arguments that give a name and a certain value. -/
structure Heading (value : Option Text) where
  args : Text
  name : Text
  reads : label? args = some (name, value)

/-- A piece of a template.  Blanks may stand between the name of a directive and its arguments. -/
inductive Item where
  | other (p : Part)
  | yield (default : Option Text) (gap : Text) (h : Heading default)
  | block (gap : Text) (h : Heading none) (body : Text)
  | short (value : Text) (gap : Text) (h : Heading (some value))

/-- The directives that stand for sections and for yields. -/
def sectionNames : List Text := ["section", "yield"]

namespace Item

/-- The parts that an item is made of. -/
def parts : Item → List Part
  | .other p => [p]
  | .yield _ gap h => [.call "yield" gap h.args]
  | .block gap h body => [.call "section" gap h.args, .text body, .word "endsection"]
  | .short _ gap h => [.call "section" gap h.args]

/-- The section that an item declares: its name and body. -/
def section? : Item → Option (Text × Text)
  | .block _ h body => some (h.name, strip body)
  | .short value _ h => some (h.name, value)
  | _ => none

/-- Bodies and defaults are plain text, and nothing else is taken for a section or a yield. -/
def Sound : Item → Prop
  | .other p => p.Harmless sectionNames
  | .yield default _ _ => ∀ v ∈ default, '@' ∉ v
  | .block _ _ body => '@' ∉ body
  | .short value _ _ => '@' ∉ value

end Item

/-- The parts of a template. -/
def parts (items : List Item) : List Part := items.flatMap Item.parts

/-- The sections that a template declares, in order. -/
def sections (items : List Item) : List (Text × Text) := items.filterMap Item.section?

/-- A template without its sections. -/
def bare (items : List Item) : List Item := items.filter fun i => i.section?.isNone

/-- A template whose items do not run together. -/
structure Written (items : List Item) : Prop where
  sound : ∀ i ∈ items, i.Sound
  legible : Legible (parts items)

/-! ### Arguments -/

theorem label?_none {args name : Text} (h : label? args = some (name, none)) :
    ∃ a, arguments args = [a] ∧ literal? a = some name := by
  unfold label? at h
  split at h
  · cases h
  · next a e =>
    obtain ⟨v, hv, hn⟩ := Option.map_eq_some_iff.mp h
    exact ⟨a, e, by rw [hv, (Prod.mk.inj hn).1]⟩
  · obtain ⟨m, -, h⟩ := Option.bind_eq_some_iff.mp h
    obtain ⟨v, -, hn⟩ := Option.map_eq_some_iff.mp h
    cases (Prod.mk.inj hn).2

theorem label?_some {args name value : Text} (h : label? args = some (name, some value)) :
    ∃ a b rest, arguments args = a :: b :: rest ∧ literal? a = some name ∧
      literal? b = some value := by
  unfold label? at h
  split at h
  · cases h
  · obtain ⟨v, -, hn⟩ := Option.map_eq_some_iff.mp h
    cases (Prod.mk.inj hn).2
  · next a b rest e =>
    obtain ⟨m, hm, h⟩ := Option.bind_eq_some_iff.mp h
    obtain ⟨v, hv, hn⟩ := Option.map_eq_some_iff.mp h
    obtain ⟨rfl, hn⟩ := Prod.mk.inj hn
    cases hn
    exact ⟨a, b, rest, e, hm, hv⟩

/-! ### Sections among the directives of a template -/

/-- The sections among directives of a text, with their blocks. -/
def found (t : Text) (ds : List Directive) : List (Block × (Text × Text)) :=
  (blocksFrom t "section" "endsection" isShort 0 ds).filterMap fun b => (section? b).map (b, ·)

theorem found_mark (t : Text) (ds : List Directive) {p : Part} (h : p.Harmless sectionNames)
    (pos : Nat) : found t ((p.mark? pos).toList ++ ds) = found t ds := by
  cases hp : p.mark? 0 with
  | none =>
      rw [mark?_eq_none hp]
      rfl
  | some d =>
      obtain ⟨e, he, hn, -⟩ := mark?_shift hp pos
      have other : e.name ≠ "section".toList := fun hs =>
        h.2 d hp "section" (by decide) (hn ▸ hs ▸ List.prefix_rfl)
      rw [he]
      exact congrArg (List.filterMap _) (blocksFrom_other t ds other)

theorem found_short (t : Text) (ds : List Directive) {d : Directive} {value : Text}
    (h : Heading (some value)) (hn : d.name = "section".toList) (ha : d.args = some h.args)
    (hm : d.malformed = false) :
    found t (d :: ds) = (⟨d, none, none⟩, (h.name, value)) :: found t ds := by
  obtain ⟨a, b, rest, hargs, hname, hvalue⟩ := label?_some h.reads
  have list : d.argumentList = a :: b :: rest := by
    rw [Directive.argumentList, ha]
    exact hargs
  have short : isShort d = true := by
    rw [isShort, list]
    simp
  have declared : section? ⟨d, none, none⟩ = some (h.name, value) := by
    unfold section? blockName? sectionBody?
    simp only [list, List.head?_cons, Option.bind_some, hname, hvalue]
    rfl
  unfold found
  rw [blocksFrom_inline t ds hn hm short, List.filterMap_cons, declared]
  rfl

theorem found_block (t : Text) (ds : List Directive) {d e : Directive} (h : Heading none)
    (hn : d.name = "section".toList) (ha : d.args = some h.args) (hm : d.malformed = false)
    (he : e.name = "endsection".toList) :
    found t (d :: e :: ds) =
      (⟨d, some e, some (slice t d.stop e.start)⟩, (h.name, strip (slice t d.stop e.start))) ::
        found t ds := by
  obtain ⟨a, hargs, hname⟩ := label?_none h.reads
  have list : d.argumentList = [a] := by
    rw [Directive.argumentList, ha]
    exact hargs
  have short : isShort d = false := by
    rw [isShort, list]
    rfl
  have declared : section? ⟨d, some e, some (slice t d.stop e.start)⟩ =
      some (h.name, strip (slice t d.stop e.start)) := by
    unfold section? blockName? sectionBody?
    simp only [list, List.head?_cons, Option.bind_some, hname]
    rfl
  unfold found
  rw [blocksFrom_closed t ds hn hm short he, List.filterMap_cons, declared]
  rfl

/-- The section of an item is found where the item stands. -/
theorem found_item {i : Item} (hi : i.Sound) (pre rest : Text) (ds : List Directive) :
    (i.section? = none ∧ found (pre ++ (shownAll i.parts ++ rest)) (marks pre.length i.parts ++ ds) =
        found (pre ++ (shownAll i.parts ++ rest)) ds) ∨
      ∃ b s, i.section? = some s ∧ b.start = pre.length ∧
        b.stop = pre.length + (shownAll i.parts).length ∧
        found (pre ++ (shownAll i.parts ++ rest)) (marks pre.length i.parts ++ ds) =
          (b, s) :: found (pre ++ (shownAll i.parts ++ rest)) ds := by
  cases i with
  | other p =>
      refine Or.inl ⟨rfl, ?_⟩
      rw [Item.parts, marks, marks, List.append_nil]
      exact found_mark _ ds hi _
  | yield default gap h =>
      have other : "yield".toList ≠ "section".toList := by decide
      exact Or.inl ⟨rfl, congrArg (List.filterMap _) (blocksFrom_other _ ds other)⟩
  | short value gap h =>
      refine Or.inr ⟨_, (h.name, value), rfl, ?_, ?_, found_short _ ds h rfl rfl rfl⟩
      · rfl
      · simp [Block.stop, Item.parts]
  | block gap h body =>
      let opener := Part.call "section" gap h.args
      have cut : slice (pre ++ (shownAll (Item.block gap h body).parts ++ rest))
          (pre.length + opener.shown.length)
          (pre.length + opener.shown.length + body.length) = body := by
        have e : pre ++ (shownAll (Item.block gap h body).parts ++ rest) =
            (pre ++ opener.shown) ++ (body ++ ((Part.word "endsection").shown ++ rest)) := by
          simp [Item.parts, opener, Part.shown]
        rw [e, ← List.length_append, slice_middle]
      have block := found_block (pre ++ (shownAll (Item.block gap h body).parts ++ rest)) ds
        (d := ⟨"section", some h.args, pre.length, pre.length + opener.shown.length, false⟩)
        (e := ⟨"endsection", none, pre.length + opener.shown.length + body.length,
          pre.length + opener.shown.length + body.length + (Part.word "endsection").shown.length,
          false⟩) h rfl rfl rfl rfl
      rw [cut] at block
      refine Or.inr ⟨_, _, rfl, ?_, ?_, block⟩
      · rfl
      · simp only [Block.stop, Item.parts, shownAll_cons, shownAll_nil, List.length_append,
          List.append_nil, opener, Nat.add_assoc]
        rfl

theorem parts_cons (i : Item) (items : List Item) : parts (i :: items) = i.parts ++ parts items :=
  rfl

/-- The sections of a template behind the text `pre`, and the template without them. -/
theorem found_items : ∀ {items : List Item}, (∀ i ∈ items, i.Sound) → ∀ (pre : Text) (last : Nat),
    last ≤ pre.length →
    (found (pre ++ shownAll (parts items)) (marks pre.length (parts items))).map Prod.snd =
        sections items ∧
      editFrom (pre ++ shownAll (parts items)) last
          ((found (pre ++ shownAll (parts items)) (marks pre.length (parts items))).map
            fun (b, _) => ⟨b.start, b.stop, []⟩) =
        pre.drop last ++ shownAll (parts (bare items))
  | [], _, pre, last, _ => by
      refine ⟨rfl, ?_⟩
      show List.drop last (pre ++ []) = pre.drop last ++ []
      rw [List.append_nil, List.append_nil]
  | i :: items, h, pre, last, hl => by
      obtain ⟨hi, hs⟩ := List.forall_mem_cons.mp h
      have hlen : pre.length + (shownAll i.parts).length = (pre ++ shownAll i.parts).length := by
        rw [List.length_append]
      have source : pre ++ (shownAll i.parts ++ shownAll (parts items)) =
          pre ++ shownAll i.parts ++ shownAll (parts items) := (List.append_assoc ..).symm
      have hl' : last ≤ (pre ++ shownAll i.parts).length := by
        rw [List.length_append]
        omega
      have item := found_item hi pre (shownAll (parts items))
        (marks (pre.length + (shownAll i.parts).length) (parts items))
      rw [parts_cons, marks_append, shownAll_append]
      obtain ⟨plain, e⟩ | ⟨b, s, declared, start, stop, e⟩ := item
      · obtain ⟨ih, ih'⟩ := found_items hs (pre ++ shownAll i.parts) last hl'
        have same : sections (i :: items) = sections items := List.filterMap_cons_none plain
        have kept : bare (i :: items) = i :: bare items :=
          List.filter_cons_of_pos (by rw [plain]; rfl)
        rw [e, source, hlen, ih, ih', kept, same, parts_cons, shownAll_append,
          List.drop_append_of_le_length hl, List.append_assoc]
        exact ⟨rfl, rfl⟩
      · obtain ⟨ih, ih'⟩ := found_items hs (pre ++ shownAll i.parts) (pre ++ shownAll i.parts).length
          (Nat.le_refl _)
        have more : sections (i :: items) = s :: sections items := List.filterMap_cons_some declared
        have dropped : bare (i :: items) = bare items :=
          List.filter_cons_of_neg (by rw [declared]; simp)
        have front : slice (pre ++ shownAll i.parts ++ shownAll (parts items)) last pre.length =
            pre.drop last := by
          rw [List.append_assoc, slice_before _ hl]
        rw [e, source, hlen, List.map_cons, List.map_cons, editFrom, ih, more, dropped]
        simp only [start, stop, hlen, ih', front, List.drop_length, List.append_nil,
          List.nil_append, and_self]

/-- **Taking out the sections** of a template gives what its items declare and the template of the
other items. -/
theorem extractSections_items {items : List Item} (h : Written items) :
    extractSections (shownAll (parts items)) =
      (Named.putAll [] (sections items), shownAll (parts (bare items))) := by
  obtain ⟨declared, rest⟩ := found_items h.sound [] 0 (Nat.le_refl 0)
  rw [List.nil_append, List.length_nil, ← directives_shownAll h.legible, List.drop_nil,
    List.nil_append] at rest
  rw [List.nil_append, List.length_nil, ← directives_shownAll h.legible] at declared
  exact Prod.ext (congrArg (Named.putAll []) declared) rest

end Pagewright.Assembly
