import Pagewright.Assembly.Inheritance
import Pagewright.Proofs.Assembly.Item

/-! # Filling yields

A template of items has its yields filled item by item (`fillYields_items`).  Where sections and
defaults are plain text, nothing that is filled holds a section or a yield again, so that it may
stand behind the carried blocks of a page unchanged (`fillYields_behind`,
`extractSections_behind`).

Main definitions: `filled` (the parts of a template with its yields filled), `Plain`, `Tame`. -/

namespace Pagewright.Assembly

open Text Directive

/-- An item without its section, and with the yield filled by what is chosen for its name. -/
def Item.filled (choose : Text → Option Text) : Item → List Part
  | .other p => [p]
  | .yield default _ h => [.text ((choose h.name).getD (default.getD []))]
  | _ => []

/-- A template without its sections, in which every yield is replaced by what is chosen for its
name, or else by its default. -/
def filled (choose : Text → Option Text) (items : List Item) : List Part :=
  items.flatMap (Item.filled choose)

/-- What several collections of sections have for a name: the section of the first that has one. -/
def choice (collections : List (List (Text × Text))) (name : Text) : Option Text :=
  collections.findSome? fun s => s.lookup name

/-- Sections whose bodies are plain text. -/
def Plain (s : List (Text × Text)) : Prop := ∀ e ∈ s, '@' ∉ e.2

/-- A part that neither is nor becomes a section, and stays so when it is filled. -/
def Tame (p : Part) : Prop :=
  p.Harmless sectionNames ∨ ∃ default gap, ∃ h : Heading default,
    p = .call "yield" gap h.args ∧ ∀ v ∈ default, '@' ∉ v

variable (ds : Delimiters) (collections : List (List (Text × Text)))

/-! ### One yield -/

theorem yielded?_heading {default : Option Text} (h : Heading default) {d : Directive}
    (ha : d.args = some h.args) :
    yielded? ds collections d = some ((choice collections h.name).getD (default.getD [])) := by
  have list : d.argumentList = arguments h.args := by rw [Directive.argumentList, ha]; rfl
  unfold yielded? choice
  cases default with
  | none =>
      obtain ⟨a, hargs, hname⟩ := label?_none h.reads
      rw [list, hargs]
      simp only [List.head?_cons, Option.bind_eq_bind, Option.bind_some, hname]
      cases collections.findSome? fun s => s.lookup h.name <;> rfl
  | some v =>
      obtain ⟨a, b, rest, hargs, hname, hvalue⟩ := label?_some h.reads
      rw [list, hargs]
      simp only [List.head?_cons, Option.bind_eq_bind, Option.bind_some, hname, hvalue]
      cases collections.findSome? fun s => s.lookup h.name <;> rfl

theorem yielded?_blind (d e : Directive) (_ : d.name = e.name) (ha : d.args = e.args) :
    yielded? ds collections d = yielded? ds collections e := by
  unfold yielded? Directive.argumentList
  rw [ha]

/-- A part with its yield filled, if it is one. -/
def fillPart (p : Part) : Part :=
  (rewritePart ["yield"] (fun (_ : Unit) d => (yielded? ds collections d, ())) () p).1

theorem fillPart_yield {default : Option Text} (gap : Text) (h : Heading default) :
    fillPart ds collections (.call "yield" gap h.args) =
      .text ((choice collections h.name).getD (default.getD [])) := by
  have answer := yielded?_heading ds collections h
    (d := ⟨"yield", some h.args, 0, 0 + (Part.call "yield" gap h.args).shown.length, false⟩) rfl
  exact congrArg Prod.fst (rewritePart_answer rfl rfl (congrArg (·, ()) answer))

theorem fillPart_harmless {p : Part} (h : p.Harmless sectionNames) :
    fillPart ds collections p = p := by
  unfold fillPart
  cases hp : p.mark? 0 with
  | none => rw [rewritePart, hp]
  | some d =>
      have other : ["yield".toList].contains d.name = false := by
        rw [Bool.eq_false_iff, Ne, List.contains_iff_mem, List.mem_singleton]
        exact fun e => h.2 d hp "yield" (by decide) (e ▸ List.prefix_rfl)
      rw [rewritePart_other _ () hp other]

/-! ### Templates -/

theorem walk_unit (f : Unit → Part → Part × Unit) : ∀ ps : List Part,
    (walk f () ps).1 = ps.map fun p => (f () p).1
  | [] => rfl
  | p :: ps => congrArg ((f () p).1 :: ·) (walk_unit f ps)

theorem fillYields_shownAll {ps : List Part} (h : Legible ps) :
    fillYields ds collections (shownAll ps) = shownAll (ps.map (fillPart ds collections)) := by
  rw [fillYields, replace_shownAll _ (yielded?_blind ds collections) h, walk_unit]
  rfl

theorem map_fillPart : ∀ {items : List Item}, (∀ i ∈ items, i.Sound) →
    (parts (bare items)).map (fillPart ds collections) = filled (choice collections) items
  | [], _ => rfl
  | i :: items, h => by
      obtain ⟨hi, hs⟩ := List.forall_mem_cons.mp h
      have ih := map_fillPart hs
      cases i with
      | other p =>
          have e : (parts (bare (.other p :: items))).map (fillPart ds collections) =
              fillPart ds collections p :: (parts (bare items)).map (fillPart ds collections) := rfl
          rw [e, ih, fillPart_harmless ds collections hi]
          rfl
      | yield default gap heading =>
          have e : (parts (bare (.yield default gap heading :: items))).map
              (fillPart ds collections) =
                fillPart ds collections (.call "yield" gap heading.args) ::
                (parts (bare items)).map (fillPart ds collections) := rfl
          rw [e, ih, fillPart_yield]
          rfl
      | block gap h body => exact ih
      | short value gap h => exact ih

/-- **The yields of a template are filled item by item.** -/
theorem fillYields_items {items : List Item} (hs : ∀ i ∈ items, i.Sound)
    (hl : Legible (parts (bare items))) :
    fillYields ds collections (shownAll (parts (bare items))) =
      shownAll (filled (choice collections) items) := by
  rw [fillYields_shownAll ds collections hl, map_fillPart ds collections hs]

/-! ### Behind the carried blocks of a page -/

theorem plain_choice {collections : List (List (Text × Text))} (h : ∀ s ∈ collections, Plain s)
    {name body : Text} (hb : choice collections name = some body) : '@' ∉ body := by
  obtain ⟨s, hs, hl⟩ := List.exists_of_findSome?_eq_some hb
  obtain ⟨a, b, rfl, -⟩ := List.lookup_eq_some_iff.mp hl
  exact h _ hs (name, body) (by simp)

theorem plain_yield {collections : List (List (Text × Text))} (h : ∀ s ∈ collections, Plain s)
    {default : Option Text} (hd : ∀ v ∈ default, '@' ∉ v) (name : Text) :
    '@' ∉ (choice collections name).getD (default.getD []) := by
  cases hc : choice collections name with
  | some body => exact plain_choice h hc
  | none =>
      cases default with
      | none => exact List.not_mem_nil
      | some v => exact hd v rfl

/-- Plain text is harmless. -/
theorem harmless_text {v : Text} (h : '@' ∉ v) (names : List Text) :
    (Part.text v).Harmless names := ⟨h, nofun⟩

theorem harmless_filled {collections : List (List (Text × Text))} (h : ∀ s ∈ collections, Plain s)
    {items : List Item} (hs : ∀ i ∈ items, i.Sound) :
    ∀ p ∈ filled (choice collections) items, p.Harmless sectionNames := by
  intro p hp
  obtain ⟨i, hi, hp⟩ := List.mem_flatMap.mp hp
  have sound := hs i hi
  cases i with
  | other q =>
      obtain rfl := List.mem_singleton.mp hp
      exact sound
  | yield default gap heading =>
      obtain rfl := List.mem_singleton.mp hp
      exact harmless_text (plain_yield h sound heading.name) _
  | block gap heading body => exact absurd hp List.not_mem_nil
  | short value gap heading => exact absurd hp List.not_mem_nil

theorem tame_bare {items : List Item} (hs : ∀ i ∈ items, i.Sound) :
    ∀ p ∈ parts (bare items), Tame p := by
  intro p hp
  obtain ⟨i, hi, hp⟩ := List.mem_flatMap.mp hp
  obtain ⟨hi, none⟩ := List.mem_filter.mp hi
  have sound := hs i hi
  cases i with
  | other q =>
      obtain rfl := List.mem_singleton.mp hp
      exact Or.inl sound
  | yield default gap heading =>
      obtain rfl := List.mem_singleton.mp hp
      exact Or.inr ⟨default, gap, heading, rfl, sound⟩
  | block gap heading body => cases none
  | short value gap heading => cases none

/-- A tame part is harmless once it is filled. -/
theorem Tame.fillPart {p : Part} (h : Tame p) (hc : ∀ s ∈ collections, Plain s) :
    (fillPart ds collections p).Harmless sectionNames := by
  obtain h | ⟨default, gap, heading, rfl, hd⟩ := h
  · rw [fillPart_harmless ds collections h]
    exact h
  · rw [fillPart_yield]
    exact harmless_text (plain_yield hc hd heading.name) _

/-- No tame part is a section. -/
theorem Tame.not_section {p : Part} (h : Tame p) {pos : Nat} {d : Directive}
    (hd : p.mark? pos = some d) : d.name ≠ "section".toList := by
  obtain h | ⟨default, gap, heading, rfl, -⟩ := h
  · cases hp : p.mark? 0 with
    | none =>
        rw [mark?_eq_none hp] at hd
        cases hd
    | some e =>
        obtain ⟨f, hf, hn, -⟩ := mark?_shift hp pos
        rw [hf] at hd
        obtain rfl := Option.some.inj hd
        rw [hn]
        exact fun he => h.2 e hp "section" (by decide) (he ▸ List.prefix_rfl)
  · cases hd
    show "yield".toList ≠ "section".toList
    decide

theorem named_section_tame : ∀ {ps : List Part} (pos : Nat), (∀ p ∈ ps, Tame p) →
    named ["section"] (marks pos ps) = []
  | [], _, _ => rfl
  | p :: ps, pos, h => by
      have ih := named_section_tame (pos + p.shown.length) fun q hq => h q (List.mem_cons_of_mem p hq)
      rw [marks, named, List.filter_append]
      refine List.append_eq_nil_iff.mpr ⟨List.filter_eq_nil_iff.mpr ?_, ih⟩
      intro d hd hc
      have hp := Option.mem_toList.mp hd
      rw [List.contains_iff_mem, List.mem_singleton] at hc
      exact (h p List.mem_cons_self).not_section hp hc

/-- A text in which no section starts declares none and stays as it is. -/
theorem extractSections_eq_self {t : Text} (h : named ["section"] (directives t) = []) :
    extractSections t = ([], t) := by
  have none : sectionBlocks t = [] := by
    refine blocksFrom_eq_nil t _ fun d hd hn => ?_
    have mem : d ∈ named ["section"] (directives t) := by
      refine List.mem_filter.mpr ⟨hd, ?_⟩
      rw [List.contains_iff_mem, List.mem_singleton, hn]
    rw [h] at mem
    cases mem
  unfold extractSections
  rw [none]
  rfl

/-- Carried blocks: legible, tame, and closed by a directive that takes no arguments. -/
structure Carried (cs : List Part) : Prop where
  legible : Legible cs
  tame : ∀ p ∈ cs, Tame p
  closed : cs = [] ∨ ∃ a n, cs = a ++ [.word n] ∧ n ∈ carriedClosers

theorem closer_harmless {n : Text} (hn : n ∈ carriedClosers) :
    (Part.word n).Harmless sectionNames := by
  have all : ∀ n ∈ carriedClosers, name? n = some n ∧ ∀ m ∈ sectionNames, ¬ n <+: m := by decide
  refine ⟨(all n hn).1, fun d hd => ?_⟩
  cases hd
  exact (all n hn).2

theorem free_closer {n : Text} (hn : n ∈ carriedClosers) {us : List Part}
    (hu : ∀ p ∈ us, p.Harmless sectionNames) : Free sectionNames ('@' :: (n ++ shownAll us)) := by
  show Free sectionNames (shownAll (.word n :: us))
  exact free_shownAll (List.forall_mem_cons.mpr ⟨closer_harmless hn, hu⟩)

variable {cs us : List Part}

/-- Carried blocks with harmless parts behind them declare no section. -/
theorem extractSections_behind (hc : Carried cs) (hu : ∀ p ∈ us, p.Harmless sectionNames) :
    extractSections (shownAll cs ++ shownAll us) = ([], shownAll cs ++ shownAll us) := by
  apply extractSections_eq_self
  obtain rfl | ⟨a, n, rfl, hn⟩ := hc.closed
  · exact named_free ((free_shownAll hu).mono (by decide))
  · rw [named_append_free hc.legible ((free_closer hn hu).mono (by decide))]
    exact named_section_tame 0 fun p hp => hc.tame p (List.mem_append_left _ hp)

/-- **Filling the yields of carried blocks** leaves harmless parts behind them as they are. -/
theorem fillYields_behind (hc : Carried cs) (hu : ∀ p ∈ us, p.Harmless sectionNames) :
    fillYields ds collections (shownAll cs ++ shownAll us) =
      fillYields ds collections (shownAll cs) ++ shownAll us := by
  have blind : Blind fun (_ : Unit) d => (yielded? ds collections d, ()) :=
    fun _ d e hn ha => congrArg (·, ()) (yielded?_blind ds collections d e hn ha)
  obtain rfl | ⟨a, n, rfl, hn⟩ := hc.closed
  · exact congrArg Prod.fst (replaceWith_free ((free_shownAll hu).mono (by decide)) ())
  · have other : n ∉ ["yield".toList] := by
      have all : ∀ n ∈ carriedClosers, n ∉ ["yield".toList] := by decide
      exact all n hn
    exact replaceWith_append_free blind () hc.legible other ((free_closer hn hu).mono (by decide))

/-- Carried blocks with their yields filled are harmless. -/
theorem harmless_carried (hc : Carried cs) (hp : ∀ s ∈ collections, Plain s) :
    ∃ fs, fillYields ds collections (shownAll cs) = shownAll fs ∧
      ∀ p ∈ fs, p.Harmless sectionNames := by
  refine ⟨_, fillYields_shownAll ds collections hc.legible, fun p hm => ?_⟩
  obtain ⟨q, hq, rfl⟩ := List.mem_map.mp hm
  exact (hc.tame q hq).fillPart ds collections hp

end Pagewright.Assembly
