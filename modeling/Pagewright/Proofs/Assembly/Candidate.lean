import Pagewright.Proofs.Assembly.Acyclic
import Pagewright.Proofs.Assembly.Mute
import Pagewright.Proofs.Directive.Entry
import Pagewright.Proofs.Directive.Rewrite

/-! # Lists of candidates

An `@includeFirst` lists candidates as string literals.  The tag that it becomes asks for the first of
them that there is, but it hands them on in two attributes: the first name loses the blanks at its ends,
and the others are split again at every bar (`candidates_includeFirst`).  So the candidates are those
that were written if and only if the first name has no such blanks and the others hold no bar.

Main definitions: `Candidates`, `firstOf`. -/

namespace Pagewright.Assembly

open Text Directive Lowering

/-- A text that is one directive with an answer is the answer when it is replaced. -/
theorem replace_single {names : List Text} {handler : Directive → Option Text} {p : Part}
    (readable : Readable [p]) {d : Directive} (hp : p.mark? 0 = some d)
    (hn : names.contains d.name = true) {new : Text} (answer : handler d = some new) :
    replace names handler p.shown = new := by
  have alone : shownAll [p] = p.shown := List.append_nil p.shown
  have listed : directives p.shown = [d] := by
    rw [← alone, directives_readable readable, marks, hp]
    rfl
  obtain ⟨e, shifted, -, -, start, stop, whole⟩ := mark?_shift hp 0
  obtain rfl : e = d := Option.some.inj (shifted.symm.trans hp)
  have front : slice p.shown 0 0 = [] := rfl
  have behind : p.shown.drop (0 + p.shown.length) = [] :=
    List.drop_eq_nil_of_le (Nat.le_of_eq (Nat.zero_add _).symm)
  unfold replace replaceWith named
  simp only [listed, List.filter_cons, hn, if_true, List.filter_nil, editsOf, whole,
    Bool.false_eq_true, if_false, answer, applyEdits, editFrom, start, stop, front, behind,
    List.nil_append, List.append_nil]

/-! ### The tag of a list -/

/-- A list of candidates as it is written: blanks stand around the names and their brackets. -/
structure Candidates where
  gap : Text
  lead : Text
  first : Entry
  others : List Entry
  trail : Text
  gap_blank : gap.all isGap = true
  lead_blank : isBlank lead = true
  trail_blank : isBlank trail = true

namespace Candidates

variable (c : Candidates)

/-- The directive of a list. -/
def part : Part := .call "includeFirst" c.gap (c.lead ++ (bracketed (c.first :: c.others) ++ c.trail))

/-- The names of a list, in order. -/
def names : List Text := (c.first :: c.others).map Entry.value

/-- What the tag of a list says beyond its source. -/
def attributes : List Attribute :=
  match c.others with
  | [] => [⟨"hk:optional", "true"⟩]
  | others => [⟨"hk:first", join "|" (others.map Entry.value)⟩, ⟨"hk:optional", "true"⟩]

theorem readable : Readable [c.part] := by
  have balanced := (balanced_blank c.lead_blank).append
    ((balanced_bracketed (c.first :: c.others)).append (balanced_blank c.trail_blank))
  exact ⟨by decide, by decide, c.gap_blank, balanced, trivial⟩

theorem rewriteIncludes_part : rewriteIncludes c.part.shown =
    includeTag c.first.value c.attributes := by
  let d : Directive := ⟨"includeFirst", some (c.lead ++ (bracketed (c.first :: c.others) ++ c.trail)),
    0, 0 + c.part.shown.length, false⟩
  have arguments : d.argumentList = [bracketed (c.first :: c.others)] :=
    arguments_bracketed _ c.lead_blank c.trail_blank
  have request : includeRequest? d = some ⟨c.first.value, c.attributes, []⟩ := by
    have literals := literals?_bracketed (c.first :: c.others)
    have own : d.name = "includeFirst".toList := rfl
    unfold includeRequest? attributes
    simp only [arguments, own, if_true, literals, List.map_cons]
    cases c.others with
    | nil => rfl
    | cons e es => rfl
  have answer : includeTag? d = some (includeTag c.first.value c.attributes) := by
    rw [includeTag?, request]
    rfl
  have known : includeNames.contains d.name = true :=
    (by decide : includeNames.contains "includeFirst".toList = true)
  exact replace_single c.readable rfl known answer

theorem reserved : ∀ a ∈ c.attributes, ReservedName a.name := by
  have name (rest : Text) (h : ∀ x ∈ rest, isAttributeChar x = true) :
      ReservedName (reservedLead ++ rest) := ⟨rest, rfl, h⟩
  have first := name "first" (forall_mem_text (by decide))
  have optional := name "optional" (forall_mem_text (by decide))
  unfold attributes
  cases c.others with
  | nil => exact List.forall_mem_singleton.mpr optional
  | cons e es => exact List.forall_mem_cons.mpr ⟨first, List.forall_mem_singleton.mpr optional⟩

theorem distinct : (c.attributes.map Attribute.name).Nodup := by
  have two : ["hk:first".toList, "hk:optional".toList].Nodup := by decide
  unfold attributes
  cases c.others with
  | nil => exact List.nodup_singleton _
  | cons e es => exact two

/-- The tag that a list becomes. -/
def tag : IncludeTag :=
  ⟨0, (includeTag c.first.value c.attributes).length,
    writtenAttributes c.first.value c.attributes, none⟩

theorem includeTags_part : includeTags (rewriteIncludes c.part.shown) = [c.tag] := by
  have bare : BareNames c.attributes := fun a ha => (c.reserved a ha).attributeName.bare
  rw [rewriteIncludes_part, tag, includeTag_eq]
  exact includeTags_tagAlone (attributeText_written c.first.value bare)

/-! ### Candidates of a tag -/

theorem parseAttributes_tag : parseAttributes c.tag.attributes =
    ("src".toList, c.first.value) :: c.attributes.map fun a => (a.name, a.value) :=
  parseAttributes_written c.first.value c.reserved c.distinct

/-- The first name is trimmed, and the others are split at their bars. -/
theorem candidates_tag : c.tag.candidates = strip c.first.value ::
    (c.others.flatMap fun e => splitOn "|" e.value).filter fun n => !n.isEmpty := by
  have pieces : splitOn "|" (((("src".toList, c.first.value) ::
      c.attributes.map fun a => (a.name, a.value)).lookup (reservedLead ++ "first")).getD []) =
        if c.others = [] then [[]] else c.others.flatMap fun e => splitOn "|" e.value := by
    unfold attributes
    cases c.others with
    | nil => rfl
    | cons e es =>
      have joined := splitOn_join '|' e.value (es.map Entry.value)
      rw [← List.map_cons, List.flatMap_map] at joined
      exact joined
  unfold IncludeTag.candidates
  rw [parseAttributes_tag]
  refine congrArg _ ((congrArg (List.filter _) pieces).trans ?_)
  split
  · next none_ =>
    rw [none_]
    rfl
  · rfl

/-- **The names are handed on as they are written** if the first one has no blanks at its ends and the
others hold no bar, and only then. -/
theorem candidates_eq_iff (named : ∀ n ∈ c.names, n ≠ []) : c.tag.candidates = c.names ↔
    strip c.first.value = c.first.value ∧ ∀ e ∈ c.others, '|' ∉ e.value := by
  rw [candidates_tag, names, List.map_cons, List.cons.injEq]
  refine and_congr_right fun _ => ⟨fun same e he hm => ?_, fun free => ?_⟩
  · have handed : e.value ∈ (c.others.flatMap fun e => splitOn "|" e.value).filter
        fun n => !n.isEmpty := same ▸ List.mem_map_of_mem he
    obtain ⟨f, -, piece⟩ := List.mem_flatMap.mp (List.mem_filter.mp handed).1
    exact not_mem_of_mem_splitOn piece hm
  · have whole : ∀ e ∈ c.others, splitOn "|" e.value = [e.value] := fun e he =>
      splitOn_of_not_mem (free e he)
    have single : (c.others.flatMap fun e => splitOn "|" e.value) = c.others.map Entry.value := by
      rw [List.flatMap_def, List.map_congr_left whole, ← List.flatMap_def]
      exact List.map_eq_flatMap.symm
    have kept : ∀ n ∈ c.others.map Entry.value, (!n.isEmpty) = true := fun n hn => by
      have given := named n (List.mem_cons_of_mem _ hn)
      rw [Bool.not_eq_true', Bool.eq_false_iff, Ne, List.isEmpty_iff]
      exact given
    rw [single, List.filter_eq_self.mpr kept]

end Candidates

/-- The partial that candidates ask for: the first one that there is, with no slots and no data of its
own. -/
def firstOf (site : Site) (data : List (Value × Value)) : List Text → Work (Option Partial)
  | [] => return none
  | src :: others => do
    let some target ← Work.ofExcept (locate site.library src others true) | return none
    let text ← Work.ofProblem (site.library.read target "include")
    return some ⟨target, fillSlots text [], layered [site.data, data, []]⟩

/-- A tag asks for the first of its candidates that there is; without a name of the first one it asks
for nothing. -/
theorem Candidates.partialFor_tag (c : Candidates) (site : Site) (data : List (Value × Value))
    (page : Text) (d : Desk) : (partialFor site data page c.tag).outcome d =
      if strip c.first.value = [] then
        (.error (.problem (.malformed "Include tag without a src attribute" (some page) [])), d)
      else (firstOf site data c.tag.candidates).outcome d := by
  have source : strip (((parseAttributes c.tag.attributes).lookup "src".toList).getD []) =
      strip c.first.value := by
    rw [c.parseAttributes_tag]
    rfl
  split
  · next blank => exact partialFor_sourceless site data page (source.trans blank) d
  · next given =>
    have conditions : Unconditional (parseAttributes c.tag.attributes) := by
      rw [c.parseAttributes_tag]
      unfold Candidates.attributes
      cases c.others with
      | nil => exact ⟨rfl, rfl, rfl⟩
      | cons e es => exact ⟨rfl, rfl, rfl⟩
    have optional : (parseAttributes c.tag.attributes).lookup (reservedLead ++ "optional") =
        some "true".toList := by
      rw [c.parseAttributes_tag]
      unfold Candidates.attributes
      cases c.others with
      | nil => rfl
      | cons e es => rfl
    have own : ownAttributes (parseAttributes c.tag.attributes) = [] := by
      rw [c.parseAttributes_tag]
      unfold Candidates.attributes
      cases c.others with
      | nil => rfl
      | cons e es => rfl
    have asked := partialFor_unconditional site data page rfl conditions source given d
    rw [own, optional] at asked
    rw [asked, IncludeTag.candidates, source]
    rfl

/-- **An `@includeFirst` asks for the first of its candidates that there is.**  The candidates are the
names as they are written if and only if the first one has no blanks at its ends and the others hold no
bar; else the first is trimmed, the others are torn at their bars, and a blank first name is refused. -/
theorem candidates_includeFirst (c : Candidates) (named : ∀ n ∈ c.names, n ≠ []) :
    ∃ tag, includeTags (rewriteIncludes c.part.shown) = [tag] ∧
      (∀ site data page d, (partialFor site data page tag).outcome d =
        if strip c.first.value = [] then
          (.error (.problem (.malformed "Include tag without a src attribute" (some page) [])), d)
        else (firstOf site data tag.candidates).outcome d) ∧
      tag.candidates = strip c.first.value ::
        (c.others.flatMap fun e => splitOn "|" e.value).filter (fun n => !n.isEmpty) ∧
      (tag.candidates = c.names ↔
        strip c.first.value = c.first.value ∧ ∀ e ∈ c.others, '|' ∉ e.value) :=
  ⟨c.tag, c.includeTags_part, c.partialFor_tag, c.candidates_tag, c.candidates_eq_iff named⟩

/-- A list of two names, one of them with a bar. -/
def barred : Candidates where
  gap := " "
  lead := "\n  "
  first := .tight (.single "draft" (by decide) (by decide))
  others := [.tight (.single "a|b" (by decide) (by decide))]
  trail := "\n "
  gap_blank := rfl
  lead_blank := rfl
  trail_blank := rfl

/-- The name with a bar is torn into two. -/
theorem candidates_includeFirst_barred :
    barred.part.shown = "@includeFirst (\n  ['draft','a|b']\n )".toList ∧
      (∀ n ∈ barred.names, n ≠ []) ∧
      ∃ tag, includeTags (rewriteIncludes barred.part.shown) = [tag] ∧
        tag.candidates = ["draft".toList, "a".toList, "b".toList] ∧ tag.candidates ≠ barred.names := by
  have named : ∀ n ∈ barred.names, n ≠ [] := by decide
  obtain ⟨tag, only, -, handed, same⟩ := candidates_includeFirst barred named
  refine ⟨by decide, named, tag, only, handed.trans (by decide), fun e => ?_⟩
  exact absurd (same.mp e).2 (by decide)

end Pagewright.Assembly
