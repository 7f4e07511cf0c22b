import Pagewright.Proofs.Assembly.Mute
import Pagewright.Proofs.Text.Words

/-! # Forests of tags

Texts, tags that stand alone and tags around further ones, nested to any depth.  What counts is only
how they are nested: the tags of a forest that is written out are the outermost ones, with their
attributes, and the body of a tag is what stands in it (`includeTags_forest`).  Quoted values may hold
brackets, slashes and even tags.

Main definitions: `WellQuoted`, `Forest`, `Forest.Sound`, `Forest.tags`. -/

namespace Pagewright.Assembly

open Text Directive

/-! ### Texts without the names of tags -/

/-- Whether a text begins with `<include` or `</include`, in any case. -/
def startsNamed : Text → Bool
  | '<' :: '/' :: r => (dropName? "include" r).isSome
  | '<' :: r => (dropName? "include" r).isSome
  | _ => false

/-- Neither `<include` nor `</include` is written in a text, in any case. -/
def Nameless (t : Text) : Prop := ∀ v ∈ t.tails, startsNamed v = false

instance (t : Text) : Decidable (Nameless t) :=
  inferInstanceAs (Decidable (∀ v ∈ t.tails, startsNamed v = false))

theorem boundary?_unnamed {v : Text} (h : startsNamed v = false) : boundary? v = none := by
  unfold startsNamed at h
  split at h
  · next r =>
    rw [Option.isSome_eq_false_iff, Option.isNone_iff_eq_none] at h
    rw [boundary?_closing, h]
    rfl
  · next r solid =>
    have unslashed : r.head? ≠ some '/' := fun e => by
      obtain ⟨w, rfl⟩ := List.head?_eq_some_iff.mp e
      exact solid w rfl
    rw [Option.isSome_eq_false_iff, Option.isNone_iff_eq_none] at h
    rw [boundary?_opening unslashed, h]
    rfl
  · next _ open? =>
    cases v with
    | nil => rfl
    | cons c r => exact boundary?_leads c r fun e => open? r (e ▸ rfl)

theorem Nameless.nowhere {t : Text} (h : Nameless t) : Nowhere boundary? t := fun v hv =>
  boundary?_unnamed (h v ((List.mem_tails v t).mpr hv))

/-! ### Quotes -/

/-- Every quote is closed in a text, and a closing bracket stands in quotes only. -/
inductive WellQuoted : Text → Prop
  | nil : WellQuoted []
  | char {c : Char} {r : Text} (plain : c ∉ ">\"'".toList) (rest : WellQuoted r) : WellQuoted (c :: r)
  | quoted {q : Char} {u r : Text} (quote : q = '"' ∨ q = '\'') (inside : q ∉ u)
      (rest : WellQuoted r) : WellQuoted (q :: (u ++ q :: r))

theorem WellQuoted.goesOn {a : Text} (h : WellQuoted a) : GoesOn a := by
  induction h with
  | nil => exact goesOn_nil
  | char plain _ ih => exact (goesOn_char plain).append ih
  | quoted quote inside _ ih =>
    have both := (goesOn_quoted quote inside).append ih
    rwa [List.cons_append, List.append_assoc, List.singleton_append] at both

/-- What is read up to the bracket behind it is well quoted; in quotes, it is so from their end on. -/
theorem wellQuoted_of_closes : ∀ a : Text,
    (attributesLength? none (a ++ ['>']) = some a.length → WellQuoted a) ∧
      ∀ q, attributesLength? (some q) (a ++ ['>']) = some a.length →
        ∃ u r, a = u ++ q :: r ∧ q ∉ u ∧ WellQuoted r
  | [] => ⟨fun _ => .nil, fun q h => by
      rw [List.nil_append, attributesLength?] at h
      split at h <;> cases h⟩
  | c :: a => by
    obtain ⟨outside, inside⟩ := wellQuoted_of_closes a
    have behind {q : Option Char}
        (h : (attributesLength? q (a ++ ['>'])).map (· + 1) = some (c :: a).length) :
        attributesLength? q (a ++ ['>']) = some a.length := by
      obtain ⟨n, hn, e⟩ := Option.map_eq_some_iff.mp h
      rw [hn, Nat.succ.inj e]
    refine ⟨fun h => ?_, fun q h => ?_⟩
    · rw [List.cons_append, attributesLength?] at h
      split at h
      · exact absurd (Option.some.inj h) (Nat.succ_ne_zero a.length).symm
      · next other =>
        split at h
        · next quote =>
          obtain ⟨u, r, rfl, free, rest⟩ := inside c (behind h)
          exact .quoted quote free rest
        · next plain =>
          refine .char ?_ (outside (behind h))
          simpa [not_or] using And.intro other (not_or.mp plain)
    · rw [List.cons_append, attributesLength?] at h
      split at h
      · next same => exact ⟨[], a, same ▸ rfl, List.not_mem_nil, outside (behind h)⟩
      · next other =>
        obtain ⟨u, r, rfl, free, rest⟩ := inside q (behind h)
        refine ⟨c :: u, r, rfl, fun hm => ?_, rest⟩
        exact (List.mem_cons.mp hm).elim (fun e => other e.symm) free

theorem wellQuoted_iff {a : Text} :
    WellQuoted a ↔ attributesLength? none (a ++ ['>']) = some a.length := by
  refine ⟨fun h => ?_, (wellQuoted_of_closes a).1⟩
  have stop := h.goesOn ['>']
  rwa [attributesLength?, if_pos rfl, Option.map_some, Nat.zero_add] at stop

instance (a : Text) : Decidable (WellQuoted a) := decidable_of_iff _ wellQuoted_iff.symm

/-! ### The attributes of a tag -/

/-- A text that may stand behind the name of a tag. -/
structure TagText (a : Text) : Prop where
  blank : a.head?.any isSpace = true
  quoted : WellQuoted a

instance (a : Text) : Decidable (TagText a) :=
  decidable_of_iff (a.head?.any isSpace = true ∧ WellQuoted a)
    ⟨fun ⟨blank, quoted⟩ => ⟨blank, quoted⟩, fun h => ⟨h.blank, h.quoted⟩⟩

namespace TagText

variable {a : Text}

theorem parted (h : TagText a) (r : Text) : ((a ++ r).head?.map isWord).getD false = false := by
  have blank := h.blank
  cases a with
  | nil => cases blank
  | cons c a => exact isWord_blank blank

theorem opens (h : TagText a) : Opens a := by
  have parted := h.parted []
  rw [List.append_nil] at parted
  exact h.quoted.goesOn.opens parted

theorem opens_alone (h : TagText a) {u : Text} (hu : isBlank u = true) : Opens (a ++ '/' :: u) := by
  have blanks : GoesOn u := goesOn_bare fun c hc hm => by
    have signs : ∀ c ∈ ">\"'".toList, isSpace c = false := forall_mem_text (by decide)
    exact Bool.false_ne_true ((signs c hc).symm.trans (List.all_eq_true.mp hu c hm))
  have slash : GoesOn ['/'] := goesOn_char (by decide)
  exact (h.quoted.goesOn.append (slash.append blanks)).opens (h.parted _)

end TagText

/-! ### Forests -/

/-- Texts and tags, by what stands in what. -/
inductive Forest where
  /-- What stands behind the last tag. -/
  | text (t : Text)
  /-- A tag that stands alone, with the text in front of it and the blanks behind its slash. -/
  | single (gap attributes blanks : Text) (rest : Forest)
  /-- A tag around a forest of its own, with the text in front of it. -/
  | block (gap attributes : Text) (body rest : Forest)

namespace Forest

/-- A forest as it is written. -/
def shown : Forest → Text
  | text t => t
  | single gap a blanks rest => gap ++ (tagOpening (a ++ '/' :: blanks) ++ rest.shown)
  | block gap a body rest => gap ++ (tagOpening a ++ (body.shown ++ tagClosing) ++ rest.shown)

/-- Tags are written as such only; those around a body do not end with a slash. -/
def Sound : Forest → Prop
  | text t => Nameless t
  | single gap a blanks rest => Nameless gap ∧ TagText a ∧ isBlank blanks = true ∧ rest.Sound
  | block gap a body rest =>
    Nameless gap ∧ TagText a ∧ (stripRight a).getLast? ≠ some '/' ∧ body.Sound ∧ rest.Sound

/-- The tags of a forest that stand in no other one, where the forest starts at an offset. -/
def tags : Nat → Forest → List IncludeTag
  | _, text _ => []
  | pos, single gap a blanks rest =>
    let start := pos + gap.length
    let stop := start + (tagOpening (a ++ '/' :: blanks)).length
    ⟨start, stop, a, none⟩ :: rest.tags stop
  | pos, block gap a body rest =>
    let start := pos + gap.length
    let stop := start + (tagOpening a ++ (body.shown ++ tagClosing)).length
    ⟨start, stop, a, some body.shown⟩ :: rest.tags stop

/-! ### Boundaries of a forest -/

theorem boundsFrom_gap {gap a r : Text} (h : Nameless gap) (pos : Nat) :
    boundsFrom pos (gap ++ (tagOpening a ++ r)) =
      boundsFrom (pos + gap.length) (tagOpening a) ++
        boundsFrom (pos + gap.length + (tagOpening a).length) r := by
  have bracket : ∀ c ∈ (tagOpening a ++ r).head?, c = '<' := fun _ hc => (Option.some.inj hc).symm
  rw [boundsFrom_append (.inr bracket), boundsFrom_nowhere h.nowhere, List.nil_append,
    boundsFrom_append (.inl (getLast?_tagOpening a))]

theorem boundsFrom_single {gap : Text} (h : Nameless gap) (a blanks : Text) (rest : Forest)
    (pos : Nat) : boundsFrom pos (single gap a blanks rest).shown =
      boundsFrom (pos + gap.length) (tagOpening (a ++ '/' :: blanks)) ++
        boundsFrom (pos + gap.length + (tagOpening (a ++ '/' :: blanks)).length) rest.shown :=
  boundsFrom_gap h pos

theorem boundsFrom_block {gap : Text} (h : Nameless gap) (a : Text) (body rest : Forest) (pos : Nat) :
    boundsFrom pos (block gap a body rest).shown =
      around a body.shown (boundsFrom · body.shown) (pos + gap.length) ++
        boundsFrom (pos + gap.length + (tagOpening a ++ (body.shown ++ tagClosing)).length)
          rest.shown := by
  have bracket : ∀ c ∈ (tagClosing ++ rest.shown).head?, c = '<' := fun _ hc =>
    (Option.some.inj hc).symm
  rw [shown, List.append_assoc, boundsFrom_gap h, List.append_assoc, boundsFrom_append (.inr bracket),
    boundsFrom_closing, around]
  simp only [List.length_append, List.append_assoc, List.cons_append, List.nil_append, Nat.add_assoc]
  rfl

/-- **The search for the end of a tag comes through every forest.** -/
theorem passes_closing? : ∀ {f : Forest}, f.Sound → ∀ depth,
    Passes (closing? · depth) (fun _ x => x) f.shown (boundsFrom · f.shown)
  | text t, h, depth => by
    have none_ : (fun n => boundsFrom n t) = fun _ => [] := funext (boundsFrom_nowhere h.nowhere)
    rw [shown, none_]
    exact Passes.text _ t
  | single gap a blanks rest, ⟨hg, ha, hb, hrest⟩, depth => by
    have alone : (selfClosed? (a ++ '/' :: blanks)).isSome := by
      rw [selfClosed?_blank a hb, Option.isSome_some]
    have tag := (ha.opens_alone hb).passes_closing?_alone alone depth
    simp only [boundsFrom_single hg]
    exact (Passes.text _ gap).append (tag.append (passes_closing? hrest depth))
  | block gap a body rest, ⟨hg, ha, hs, hbody, hrest⟩, depth => by
    have bodied : selfClosed? a = none := if_neg hs
    have tag := ha.opens.passes_closing? bodied (passes_closing? hbody) depth
    simp only [boundsFrom_block hg]
    exact (Passes.text _ gap).append (tag.append (passes_closing? hrest depth))

/-- **The search for tags finds those that stand in no other one.** -/
theorem passes_tagsFrom : ∀ {f : Forest}, f.Sound →
    Passes tagsFrom (fun n tags => f.tags n ++ tags) f.shown (boundsFrom · f.shown)
  | text t, h => by
    have none_ : (fun n => boundsFrom n t) = fun _ => [] := funext (boundsFrom_nowhere h.nowhere)
    rw [shown, none_]
    exact Passes.text _ t
  | single gap a blanks rest, ⟨hg, ha, hb, hrest⟩ => by
    have tag := (ha.opens_alone hb).passes_tagsFrom_alone (selfClosed?_blank a hb)
    simp only [boundsFrom_single hg]
    exact (Passes.text _ gap).append (tag.append (passes_tagsFrom hrest))
  | block gap a body rest, ⟨hg, ha, hs, hbody, hrest⟩ => by
    have bodied : selfClosed? a = none := if_neg hs
    have tag := ha.opens.passes_tagsFrom bodied (passes_closing? hbody 0) fun _ => start_boundsFrom
    have all := (Passes.text tagsFrom gap).append (tag.append (passes_tagsFrom hrest))
    have stop : ∀ n, n + (tagOpening a ++ (body.shown ++ tagClosing)).length =
        n + (tagOpening a).length + body.shown.length + 10 := fun n => by
      have ten : tagClosing.length = 10 := rfl
      simp only [List.length_append, ten, Nat.add_assoc]
    simp only [boundsFrom_block hg, tags, stop] at all ⊢
    exact all

end Forest

/-- **The tags of a forest are those that stand in no other one**, with their attributes, and with
their children as they are written. -/
theorem includeTags_forest {f : Forest} (sound : f.Sound)
    (unguarded : Lowering.protectedSpans f.shown = []) : includeTags f.shown = f.tags 0 := by
  obtain ⟨pos, -, e⟩ := Forest.passes_tagsFrom sound [] [] 0 [] (Nat.le_refl 0)
  simp only [List.append_nil, List.nil_append, List.length_nil] at e
  unfold includeTags
  rw [boundaries_unprotected unguarded]
  exact e.trans (List.append_nil _)

/-- Tags in a tag, with brackets, slashes and tags in quotes, among texts that nearly are tags. -/
def grove : Forest :=
  .block "<in <" " src=\"a>b\" title='<include \"/>'"
    (.single "</includ" "\n src='/'" " \t" (.block "<" " x=\"</include>\"" (.text "/>\"") (.text "</")))
    (.single "'>" " Src=b/" [] (.text "<INCLUD"))

theorem sound_grove : grove.Sound := by
  have plain (t : Text) (h : Nameless t) : (Forest.text t).Sound := h
  have inner : (Forest.block "<" " x=\"</include>\"" (.text "/>\"") (.text "</")).Sound :=
    ⟨by decide, by decide, by decide, plain _ (by decide), plain _ (by decide)⟩
  exact ⟨by decide, by decide, by decide, ⟨by decide, by decide, rfl, inner⟩,
    by decide, by decide, rfl, plain _ (by decide)⟩

theorem includeTags_grove :
    grove.Sound ∧ Lowering.protectedSpans grove.shown = [] ∧
      includeTags grove.shown = grove.tags 0 ∧
      (includeTags grove.shown).map (fun tag => (tag.attributes, tag.body)) =
        [(" src=\"a>b\" title='<include \"/>'".toList,
            some ("</includ<include\n src='/'/ \t><<include x=\"</include>\">/>\"</include></").toList),
          (" Src=b/".toList, none)] := by
  have unguarded : Lowering.protectedSpans grove.shown = [] := by decide +kernel
  have read := includeTags_forest sound_grove unguarded
  exact ⟨sound_grove, unguarded, read, read ▸ by decide +kernel⟩

end Pagewright.Assembly
