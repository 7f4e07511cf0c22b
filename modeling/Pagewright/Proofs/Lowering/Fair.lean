import Pagewright.Html.Escape
import Pagewright.Proofs.Directive.Split
import Pagewright.Proofs.Lowering.Genuine
import Pagewright.Proofs.Text.Words

/-! # Fair texts

A text is fair when it is genuine as one that no author wrote (`Fair`).  What the passes do to the
arguments of a directive keeps them fair: stripping, cutting at separators, words, brackets and
string literals, joining with fixed texts in between, and escaping for an attribute.

Main definitions: `Fair`, `Mortar`. -/

namespace Pagewright.Lowering

open Text Directive

variable {loose : Bool} {regions : List Text}

/-- A text in which whatever begins like a token is one. -/
def Fair (loose : Bool) (regions : List Text) (t : Text) : Prop :=
  Genuine loose regions (generated t)

theorem generated_append (t u : Text) : generated (t ++ u) = generated t ++ generated u :=
  List.map_append

instance (m : Marked) : Decidable (Clear m) :=
  inferInstanceAs (Decidable (∀ c ∈ m.head?, c.1 ≠ 'h' ∧ c.1 ≠ 'k'))

/-- A text that can stand between any two fair ones. -/
structure Mortar (t : Text) : Prop where
  bland : bland t = true
  given : t ≠ []
  clear : Clear (generated t)

instance (t : Text) : Decidable (Mortar t) :=
  decidable_of_iff (Lowering.bland t = true ∧ t ≠ [] ∧ Clear (generated t))
    ⟨fun ⟨a, b, c⟩ => ⟨a, b, c⟩, fun ⟨a, b, c⟩ => ⟨a, b, c⟩⟩

theorem Mortar.clear_append {t : Text} (h : Mortar t) (m : Marked) : Clear (generated t ++ m) := by
  obtain ⟨c, r, rfl⟩ := List.exists_cons_of_ne_nil h.given
  exact h.clear

/-! ### Putting together -/

theorem fair_of_bland {t : Text} (h : bland t = true) : Fair loose regions t := by
  have fair := (genuine_nil : Genuine loose regions []).behind h
  rwa [List.append_nil] at fair

theorem Fair.behind {t u : Text} (hu : Fair loose regions u) (ht : bland t = true) :
    Fair loose regions (t ++ u) := by
  rw [Fair, generated_append]
  exact Genuine.behind hu ht

theorem Fair.append {t u : Text} (ht : Fair loose regions t) (hu : Fair loose regions u)
    (clear : Clear (generated u)) : Fair loose regions (t ++ u) := by
  rw [Fair, generated_append]
  exact Genuine.append ht hu clear

/-- Fair texts with mortar in between are fair. -/
theorem Fair.join_mortar {t q u : Text} (ht : Fair loose regions t) (hq : Mortar q)
    (hu : Fair loose regions u) : Fair loose regions (t ++ (q ++ u)) := by
  refine ht.append (hu.behind hq.bland) ?_
  rw [generated_append]
  exact hq.clear_append _

theorem Fair.mortar {t q : Text} (ht : Fair loose regions t) (hq : Mortar q) :
    Fair loose regions (t ++ q) :=
  ht.append (fair_of_bland hq.bland) hq.clear

theorem fair_join {sep : Text} (hsep : Mortar sep) {ts : List Text}
    (h : ∀ t ∈ ts, Fair loose regions t) : Fair loose regions (join sep ts) := by
  induction ts with
  | nil => exact fair_of_bland (t := []) rfl
  | cons t ts ih =>
    obtain ⟨first, others⟩ := List.forall_mem_cons.mp h
    cases ts with
    | nil => simpa [join, List.intercalate] using first
    | cons u ts =>
      rw [join_cons_cons]
      exact first.join_mortar hsep (ih others)

/-! ### Taking apart -/

theorem Fair.of_suffix {t u : Text} (h : Fair loose regions t) (hu : u <:+ t) :
    Fair loose regions u := by
  obtain ⟨v, rfl⟩ := hu
  rw [Fair, generated_append] at h
  exact Genuine.of_suffix h (List.suffix_append _ _)

/-- A character at which a text may be cut. -/
def Parting (loose : Bool) (c : Char) : Prop :=
  stray c = true ∧ (loose = true → isSpace c = false)

theorem Fair.cut {t u : Text} {c : Char} (h : Fair loose regions (t ++ c :: u))
    (hc : Parting loose c) : Fair loose regions t := by
  rw [Fair, generated_append] at h
  exact Genuine.cut (c := (c, false)) h hc.1 (Or.inl hc.2)

/-- A stretch in front of the end or of a character at which a text may be cut is fair. -/
theorem Fair.stretch {x t y : Text} (h : Fair loose regions (x ++ (t ++ y)))
    (hy : ∀ c ∈ y.head?, Parting loose c) : Fair loose regions t := by
  have behind := h.of_suffix (List.suffix_append x _)
  cases y with
  | nil => rwa [List.append_nil] at behind
  | cons c y => exact behind.cut (hy c rfl)

theorem Fair.stripRight {t : Text} (h : Fair loose regions t) :
    Fair loose regions (Text.stripRight t) := by
  induction t using List.reverseRecOn with
  | nil => exact h
  | append_singleton t c ih =>
    by_cases blank : isSpace c = true
    · have less : Text.stripRight (t ++ [c]) = Text.stripRight t := by
        rw [Text.stripRight, List.reverse_append, List.reverse_singleton, List.singleton_append,
          List.dropWhile_cons_of_pos blank]
        rfl
      rw [less]
      rw [Fair, generated_append] at h
      exact ih (Genuine.cut (c := (c, false)) h (stray_of_isSpace blank) (Or.inr rfl))
    · have same : Text.stripRight (t ++ [c]) = t ++ [c] := by
        rw [Text.stripRight, List.reverse_append, List.reverse_singleton, List.singleton_append,
          List.dropWhile_cons_of_neg blank]
        simp
      rwa [same]

theorem Fair.strip {t : Text} (h : Fair loose regions t) : Fair loose regions (Text.strip t) :=
  (h.of_suffix (List.dropWhile_suffix isSpace)).stripRight

/-- Pieces between separators at which a text may be cut are fair. -/
theorem Fair.splitTop {t : Text} (h : Fair loose regions t) {c : Char} (hc : Parting loose c)
    (sep : Text) : ∀ p ∈ Directive.splitTop (c :: sep) t, Fair loose regions p := by
  intro p hp
  obtain ⟨x, q, y, rfl, ends, rfl⟩ := exists_of_mem_splitTop (List.cons_ne_nil c sep) hp
  refine (h.stretch fun d hd => ?_).strip
  obtain rfl | ⟨v, rfl⟩ := ends
  · cases hd
  · obtain rfl := Option.some.inj hd
    exact hc

theorem parting_comma : Parting loose ',' := ⟨by decide, fun _ => by decide⟩

theorem parting_arrow : Parting loose '=' := ⟨by decide, fun _ => by decide⟩

theorem Fair.arguments {t : Text} (h : Fair loose regions t) :
    ∀ p ∈ Directive.arguments t, Fair loose regions p := by
  intro p hp
  rw [Directive.arguments] at hp
  split at hp
  · cases hp
  · exact h.splitTop parting_comma [] p hp

/-- Words are fair where tokens are not spaced out. -/
theorem Fair.words {t : Text} (h : Fair false regions t) :
    ∀ w ∈ Text.words t, Fair false regions w := by
  intro w hw
  obtain ⟨x, y, rfl, ends⟩ := exists_of_mem_words hw
  exact h.stretch fun c hc => ⟨stray_of_isSpace (ends c hc), nofun⟩

theorem Fair.between {t inner : Text} {opener closer : Char} (h : Fair loose regions t)
    (hc : Parting loose closer) (hi : between? opener closer t = some inner) :
    Fair loose regions inner := by
  unfold between? at hi
  split at hi
  · next c rest =>
    split at hi
    · next ends =>
      obtain rfl := Option.some.inj hi
      obtain ⟨v, rfl⟩ := List.getLast?_eq_some_iff.mp ends.2
      rw [List.dropLast_concat]
      exact (h.of_suffix (List.suffix_cons c _)).cut hc
    · cases hi
  · cases hi

/-! ### Literals and attributes -/

/-- Reading a literal takes away backslashes, behind which neither of the two letters stands. -/
theorem revised_unescape {q : Char} {t v : Text} (h : Fair loose regions t)
    (e : unescape? q t = some v) :
    Revised (Fitting loose regions) (generated t) (generated v) := by
  fun_induction unescape? q t generalizing v with
  | case1 =>
    obtain rfl := Option.some.inj e
    exact Revised.nil
  | case2 c r ih =>
    obtain ⟨w, hw, rfl⟩ := Option.map_eq_some_iff.mp e
    have behind := h.of_suffix (List.suffix_cons '\\' (c :: r))
    have rest := ih (behind.of_suffix (List.suffix_cons c r)) hw
    have gone : Fitting loose regions [('\\', false)] (generated (c :: r)) [] :=
      ⟨⟨_, _, rfl, by decide, fun _ => by decide⟩, (h _ List.suffix_rfl).escape _ _ rfl,
        fun k _ _ hk => hk⟩
    exact Revised.change gone (Revised.keep (c, false) rest)
  | case3 => cases e
  | case4 c r _ _ ih =>
    obtain ⟨w, hw, rfl⟩ := Option.map_eq_some_iff.mp e
    exact Revised.keep (c, false) (ih (h.of_suffix (List.suffix_cons c r)) hw)

theorem Fair.literal {t v : Text} (h : Fair loose regions t) (hv : literal? t = some v) :
    Fair loose regions v := by
  obtain ⟨q, inner, quote, shape, value⟩ := literal?_eq_some_iff.mp hv
  have parting : Parting loose q := by
    obtain rfl | rfl := isQuote_eq_true.mp quote
    · exact ⟨by decide, fun _ => by decide⟩
    · exact ⟨by decide, fun _ => by decide⟩
  have stripped := h.strip
  rw [shape] at stripped
  have inside := (stripped.of_suffix (List.suffix_cons q _)).cut parting
  exact Genuine.revised inside (revised_unescape inside value)

/-- A character stands in an attribute as it is, or it is one that no token holds. -/
theorem escapeChar_cases (c : Char) :
    Html.escapeChar c = [c] ∨ Parting true c ∧ Mortar (Html.escapeChar c) := by
  unfold Html.escapeChar
  split
  · exact Or.inr ⟨⟨by decide, fun _ => by decide⟩, by decide⟩
  · exact Or.inr ⟨⟨by decide, fun _ => by decide⟩, by decide⟩
  · exact Or.inr ⟨⟨by decide, fun _ => by decide⟩, by decide⟩
  · exact Or.inr ⟨⟨by decide, fun _ => by decide⟩, by decide⟩
  · exact Or.inr ⟨⟨by decide, fun _ => by decide⟩, by decide⟩
  · exact Or.inl rfl

theorem revised_escape (t : Text) :
    Revised (Fitting loose regions) (generated t) (generated (Html.escape t)) := by
  induction t with
  | nil => exact Revised.nil
  | cons c t ih =>
    rw [Html.escape, List.flatMap_cons]
    obtain same | ⟨parting, mortar⟩ := escapeChar_cases c
    · rw [same]
      exact Revised.keep (c, false) ih
    · rw [generated_append]
      have fits : Fitting loose regions [(c, false)] (generated t) (Html.escapeChar c) :=
        ⟨⟨_, _, rfl, parting.1, fun _ => parting.2 rfl⟩, mortar.clear_append _,
          fun k _ _ hk => hk.behind mortar.bland⟩
      exact Revised.change fits ih

theorem Fair.escape {t : Text} (h : Fair loose regions t) :
    Fair loose regions (Html.escape t) :=
  Genuine.revised h (revised_escape t)

end Pagewright.Lowering
