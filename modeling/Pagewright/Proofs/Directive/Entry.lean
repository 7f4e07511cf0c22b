import Pagewright.Proofs.Directive.Balance
import Pagewright.Proofs.Text.Letters

/-! # String literals, alone and in lists

Every text can be written as a string literal, with a backslash before each quote and each backslash,
and is read back from it, whatever blanks stand around (`literal?_inQuotes`).  Two literals with
anything between them are no literal: reading stops at the first quote that stands alone, and the one
that closes the first literal is such a quote (`unescape?_eq_none_iff`).

String literals with commas between them and blanks around them are read one by one, whatever commas
and brackets the literals hold (`arguments_entries`).  In square brackets they are one argument, of
which the values are read (`arguments_bracketed`, `literals?_bracketed`).

Main definitions: `inQuotes`, `Entry`, `entries`. -/

namespace Pagewright.Directive

open Text

/-- A string literal with blanks around it. -/
structure Entry where
  lead : Text
  literal : Literal
  trail : Text
  lead_blank : isBlank lead = true
  trail_blank : isBlank trail = true

/-! ### Between quotes -/

/-- **What stands between quotes has no value exactly if a quote stands alone in it**: behind what may
stand between quotes comes the quote itself. -/
theorem unescape?_eq_none_iff {q : Char} (hq : q ≠ '\\') {t : Text} :
    unescape? q t = none ↔ ∃ u r, t = u ++ q :: r ∧ Quoted q u := by
  constructor
  · intro h
    fun_induction unescape? q t with
    | case1 => cases h
    | case2 c r ih =>
      obtain ⟨u, v, rfl, hu⟩ := ih (Option.map_eq_none_iff.mp h)
      exact ⟨'\\' :: c :: u, v, rfl, .escape hu⟩
    | case3 r => exact ⟨[], r, rfl, .nil⟩
    | case4 c r notEscape other ih =>
      obtain ⟨u, v, rfl, hu⟩ := ih (Option.map_eq_none_iff.mp h)
      -- A backslash is taken as it is at the very end alone, and here a quote follows.
      have plain : c ≠ '\\' := by
        rintro rfl
        cases u with
        | nil => exact notEscape q v rfl rfl
        | cons d u => exact notEscape d (u ++ q :: v) rfl rfl
      exact ⟨c :: u, v, rfl, .char other plain hu⟩
  · rintro ⟨u, r, rfl, hu⟩
    induction hu with
    | nil =>
      rw [List.nil_append, unescape?, if_pos rfl]
      exact fun _ _ e _ => hq e
    | char hc hb _ ih =>
      rw [List.cons_append, unescape?_cons hc hb, ih]
      rfl
    | escape _ ih =>
      rw [List.cons_append, List.cons_append, unescape?, ih]
      rfl

/-- A character as it is written between quotes `q`. -/
def escapedChar (q c : Char) : Text := if c = q ∨ c = '\\' then ['\\', c] else [c]

/-- A text as it is written between quotes `q`: a backslash before each quote and each backslash. -/
def escaped (q : Char) (t : Text) : Text := t.flatMap (escapedChar q)

/-- A text in quotes `q`. -/
def inQuotes (q : Char) (t : Text) : Text := q :: (escaped q t ++ [q])

theorem escaped_cons (q c : Char) (t : Text) :
    escaped q (c :: t) = escapedChar q c ++ escaped q t := List.flatMap_cons

/-- **An escaped text may stand between quotes, and the text is its value.** -/
theorem quoted_escaped (q : Char) (t : Text) :
    Quoted q (escaped q t) ∧ unescape? q (escaped q t) = some t := by
  induction t with
  | nil => exact ⟨.nil, rfl⟩
  | cons c t ih =>
    obtain ⟨quoted, value⟩ := ih
    rw [escaped_cons, escapedChar]
    split
    · refine ⟨.escape quoted, ?_⟩
      rw [List.cons_append, List.singleton_append, unescape?, value]
      rfl
    · next plain =>
      obtain ⟨hc, hb⟩ := not_or.mp plain
      refine ⟨.char hc hb quoted, ?_⟩
      rw [List.singleton_append, unescape?_cons hc hb, value]
      rfl

/-- The literal in quotes `q` that stands for a text. -/
def Literal.of {q : Char} (hq : Directive.isQuote q = true) (t : Text) : Literal :=
  ⟨q, escaped q t, hq, (quoted_escaped q t).1⟩

theorem Literal.value_of {q : Char} (hq : Directive.isQuote q = true) (t : Text) :
    (of hq t).value = t := by
  rw [value, of, (quoted_escaped q t).2]
  rfl

/-! ### Splitting -/

theorem Balanced.append {t u : Text} (ht : Balanced t) (hu : Balanced u) : Balanced (t ++ u) := by
  induction ht with
  | nil => exact hu
  | char hq ho hc _ ih => exact .char hq ho hc ih
  | literal hq hi _ ih =>
    rw [List.cons_append, List.append_assoc, List.cons_append]
    exact .literal hq hi ih
  | bracket ho hi _ _ ih =>
    rw [List.cons_append, List.append_assoc, List.cons_append]
    exact .bracket ho hi ih

/-- In brackets, a balanced text is passed over, whatever separators stand in it. -/
theorem splitTopFrom_balanced (sep : Text) {t : Text} (h : Balanced t) : ∀ (depth : Nat) (r : Text),
    splitTopFrom sep (depth + 1) none 0 (t ++ r) =
      (t ++ (splitTopFrom sep (depth + 1) none 0 r).1, (splitTopFrom sep (depth + 1) none 0 r).2) := by
  induction h with
  | nil => exact fun _ _ => rfl
  | char hq ho hc _ ih =>
    intro depth r
    rw [List.cons_append, splitTopFrom]
    simp only [hq, ho, hc, Option.isSome_none, Bool.false_eq_true, if_false, Nat.add_one_ne_zero,
      false_and, ih depth r]
    rfl
  | @literal q inner t hq hi _ ih =>
    intro depth r
    rw [List.cons_append, List.append_assoc, List.cons_append, splitTopFrom]
    simp only [hq, if_true, splitTopFrom_quoted sep (depth + 1) hq (t ++ r) hi, ih depth r,
      List.cons_append, List.append_assoc]
  | @bracket o c inner t ho _ _ within ih =>
    intro depth r
    obtain ⟨hcq, hco, hcc⟩ := closer_of_closerOf? ho
    have close : splitTopFrom sep (depth + 1 + 1) none 0 (c :: (t ++ r)) =
        (c :: (splitTopFrom sep (depth + 1) none 0 (t ++ r)).1,
          (splitTopFrom sep (depth + 1) none 0 (t ++ r)).2) := by
      rw [splitTopFrom]
      simp only [hcq, hco, hcc, Option.isSome_none, Bool.false_eq_true, if_false, if_true,
        Nat.add_sub_cancel]
    rw [List.cons_append, List.append_assoc, List.cons_append, splitTopFrom]
    simp only [not_isQuote_of_closerOf? ho, ho, Option.isSome_some, Bool.false_eq_true, if_false,
      if_true, within (depth + 1), close, ih depth r, List.cons_append, List.append_assoc]

/-- Blanks neither quote nor bracket nor part anything. -/
theorem isInert_blank {c : Char} (h : isSpace c = true) : isInert c = true ∧ c ≠ ',' := by
  have signs : ∀ d ∈ "'\"([\x7b)]\x7d,".toList, isSpace d = false := forall_mem_text (by decide)
  have other : ∀ d ∈ "'\"([\x7b)]\x7d,".toList, c ≠ d := fun d hd e =>
    Bool.false_ne_true ((signs d hd).symm.trans (e ▸ h))
  have opener : closerOf? c = none := by
    cases ho : closerOf? c with
    | none => rfl
    | some d =>
      obtain ⟨rfl, -⟩ | ⟨rfl, -⟩ | ⟨rfl, -⟩ := closerOf?_eq_some ho
      · exact absurd rfl (other '(' (by decide))
      · exact absurd rfl (other '[' (by decide))
      · exact absurd rfl (other '\x7b' (by decide))
  have quote : isQuote c = false := by
    rw [Bool.eq_false_iff, Ne, isQuote_eq_true, not_or]
    exact ⟨other '\'' (by decide), other '"' (by decide)⟩
  have closer : isCloser c = false := by
    simp only [isCloser, beq_eq_false_iff_ne.mpr (other ')' (by decide)),
      beq_eq_false_iff_ne.mpr (other ']' (by decide)),
      beq_eq_false_iff_ne.mpr (other '\x7d' (by decide)), Bool.or_self]
  refine ⟨?_, other ',' (by decide)⟩
  rw [isInert, quote, opener, closer]
  rfl

theorem balanced_blank {u : Text} (h : isBlank u = true) : Balanced u :=
  Balanced.of_inert (List.all_eq_true.mpr fun c hc => (isInert_blank (List.all_eq_true.mp h c hc)).1)

theorem splitTopFrom_blank (depth : Nat) (r : Text) : ∀ {u : Text}, isBlank u = true →
    splitTopFrom "," depth none 0 (u ++ r) =
      (u ++ (splitTopFrom "," depth none 0 r).1, (splitTopFrom "," depth none 0 r).2)
  | [], _ => rfl
  | c :: u, h => by
      rw [isBlank, List.all_cons, Bool.and_eq_true] at h
      obtain ⟨inert, comma⟩ := isInert_blank h.1
      simp only [isInert, Bool.and_eq_true, Bool.not_eq_true', Option.isNone_iff_eq_none] at inert
      have apart : ",".toList.isPrefixOf (c :: (u ++ r)) = false := by
        rw [Bool.eq_false_iff, Ne, List.isPrefixOf_iff_prefix]
        exact fun hp => comma (List.cons_prefix_cons.mp hp).1.symm
      rw [List.cons_append, splitTopFrom]
      simp only [inert.1.1, inert.1.2, inert.2, apart, Option.isSome_none, Bool.false_eq_true, if_false,
        and_false, splitTopFrom_blank depth r h.2]
      rfl

theorem splitTopFrom_comma (r : Text) : splitTopFrom "," 0 none 0 (',' :: r) =
    ([], (splitTopFrom "," 0 none 0 r).1 :: (splitTopFrom "," 0 none 0 r).2) := rfl

/-! ### Entries -/

namespace Entry

/-- An entry as it is written. -/
def shown (e : Entry) : Text := e.lead ++ (e.literal.shown ++ e.trail)

/-- The text that the literal of an entry stands for. -/
def value (e : Entry) : Text := e.literal.value

/-- An entry without blanks. -/
def tight (l : Literal) : Entry := ⟨[], l, [], rfl, rfl⟩

variable (e : Entry)

theorem balanced : Balanced e.shown :=
  (balanced_blank e.lead_blank).append (e.literal.balanced.append (balanced_blank e.trail_blank))

theorem strip_shown : strip e.shown = e.literal.shown := by
  have solid := not_space_of_isQuote e.literal.isQuote
  exact strip_delimited e.lead_blank e.trail_blank solid solid

/-- **An entry has the value of its literal.** -/
theorem literal?_shown : literal? e.shown = some e.value := by
  obtain ⟨q, inner, quote, shape, read⟩ := literal?_eq_some_iff.mp e.literal.literal?_shown
  rw [Literal.strip_shown, ← e.strip_shown] at shape
  exact literal?_eq_some_iff.mpr ⟨q, inner, quote, shape, read⟩

/-- **Two entries are no literal**, whatever stands between them. -/
theorem literal?_shown_append (m : Text) (f : Entry) :
    literal? (e.shown ++ (m ++ f.shown)) = none := by
  -- Between the outermost quotes, the quote that closes the first literal stands alone.
  let rest : Text := e.trail ++ (m ++ (f.lead ++ f.literal.quote :: f.literal.inner))
  let between : Text := e.literal.inner ++ e.literal.quote :: rest
  have source : e.shown ++ (m ++ f.shown) =
      e.lead ++ (e.literal.quote :: (between ++ [f.literal.quote]) ++ f.trail) := by
    simp [shown, Literal.shown, between, rest]
  have stripped : strip (e.shown ++ (m ++ f.shown)) =
      e.literal.quote :: (between ++ [f.literal.quote]) := by
    rw [source]
    exact strip_delimited e.lead_blank f.trail_blank (not_space_of_isQuote e.literal.isQuote)
      (not_space_of_isQuote f.literal.isQuote)
  have refused : unescape? e.literal.quote between = none :=
    (unescape?_eq_none_iff (not_backslash_of_isQuote e.literal.isQuote)).mpr
      ⟨e.literal.inner, rest, rfl, e.literal.quoted⟩
  refine Option.eq_none_iff_forall_ne_some.mpr fun v h => ?_
  obtain ⟨q, inner, -, shape, read⟩ := literal?_eq_some_iff.mp h
  rw [stripped] at shape
  obtain ⟨rfl, shape⟩ := List.cons.inj shape
  obtain ⟨rfl, -⟩ := List.append_inj' shape rfl
  rw [refused] at read
  cases read

theorem not_isBlank (r : Text) : isBlank (e.shown ++ r) = false := by
  have literal := e.literal.not_isBlank (e.trail ++ r)
  rw [isBlank] at literal
  rw [isBlank, shown, List.append_assoc, List.append_assoc, List.all_append, literal, Bool.and_false]

theorem splitTopFrom_shown (r : Text) : splitTopFrom "," 0 none 0 (e.shown ++ r) =
    (e.shown ++ (splitTopFrom "," 0 none 0 r).1, (splitTopFrom "," 0 none 0 r).2) := by
  simp only [shown, List.append_assoc]
  rw [splitTopFrom_blank 0 _ e.lead_blank, Literal.splitTopFrom_shown,
    splitTopFrom_blank 0 r e.trail_blank]

end Entry

/-- **Texts in quotes are read back**, whatever blanks stand around them, and two of them with any text
between are no literal. -/
theorem literal?_inQuotes {q q' : Char} (hq : isQuote q = true) (hq' : isQuote q' = true)
    (s s' m : Text) {u v u' v' : Text} (hu : isBlank u = true) (hv : isBlank v = true)
    (hu' : isBlank u' = true) (hv' : isBlank v' = true) :
    literal? (u ++ (inQuotes q s ++ v)) = some s ∧
      literal? (u ++ (inQuotes q s ++ v) ++ (m ++ (u' ++ (inQuotes q' s' ++ v')))) = none := by
  let e : Entry := ⟨u, .of hq s, v, hu, hv⟩
  let f : Entry := ⟨u', .of hq' s', v', hu', hv'⟩
  have value : e.value = s := Literal.value_of hq s
  have read := e.literal?_shown
  rw [value] at read
  exact ⟨read, e.literal?_shown_append m f⟩

/-- A text with an escaped quote in it and a backslash at its end, and an expression that begins and
ends with quotes. -/
theorem literal?_inQuotes_backslashes :
    isQuote '\'' = true ∧ isBlank " \t" = true ∧ isBlank "\u00a0" = true ∧ isBlank "" = true ∧
      inQuotes '\'' "\\'a\\" = "'\\\\\\'a\\\\'".toList ∧
      literal? " \t'\\\\\\'a\\\\'\u00a0" = some "\\'a\\".toList ∧
      literal? " \t'\\\\\\'a\\\\'\u00a0 ~ '\\\\'" = none := by
  have none : isBlank "" = true := rfl
  have front : isBlank " \t" = true := rfl
  have back : isBlank "\u00a0" = true := rfl
  have quote : isQuote '\'' = true := rfl
  obtain ⟨value, refused⟩ :=
    literal?_inQuotes quote quote "\\'a\\" "\\" " ~ " front back none none
  exact ⟨quote, front, back, none, rfl, value, refused⟩

/-- Entries with commas between them. -/
def entries (es : List Entry) : Text := join "," (es.map Entry.shown)

theorem entries_cons_cons (e f : Entry) (es : List Entry) :
    entries (e :: f :: es) = e.shown ++ ',' :: entries (f :: es) :=
  join_cons_cons "," e.shown f.shown (es.map Entry.shown)

theorem entries_single (e : Entry) : entries [e] = e.shown := List.flatten_singleton

theorem balanced_entries : ∀ es : List Entry, Balanced (entries es)
  | [] => .nil
  | [e] => by
      rw [entries_single]
      exact e.balanced
  | e :: f :: es => by
      rw [entries_cons_cons]
      exact e.balanced.append (.char rfl rfl rfl (balanced_entries (f :: es)))

theorem splitTopFrom_entries : ∀ (e : Entry) (es : List Entry),
    splitTopFrom "," 0 none 0 (entries (e :: es)) = (e.shown, es.map Entry.shown)
  | e, [] => by
      have all := e.splitTopFrom_shown []
      rw [List.append_nil] at all
      rw [entries_single, all]
      exact congrArg (·, []) (List.append_nil e.shown)
  | e, f :: es => by
      rw [entries_cons_cons, e.splitTopFrom_shown, splitTopFrom_comma, splitTopFrom_entries f es,
        List.append_nil, List.map_cons]

/-- **Entries are read one by one.** -/
theorem arguments_entries : ∀ es : List Entry,
    arguments (entries es) = es.map fun e => e.literal.shown
  | [] => rfl
  | e :: es => by
      have full : isBlank (entries (e :: es)) = false := by
        cases es with
        | nil =>
          rw [entries_single, ← List.append_nil e.shown]
          exact e.not_isBlank []
        | cons f es =>
          rw [entries_cons_cons]
          exact e.not_isBlank _
      rw [arguments, full, if_neg Bool.false_ne_true, splitTop, splitTopFrom_entries]
      simp only [List.map_cons, List.map_map, Function.comp_def, Entry.strip_shown]

/-! ### Entries in square brackets -/

/-- Entries in square brackets. -/
def bracketed (es : List Entry) : Text := '[' :: (entries es ++ [']'])

theorem strip_bracketed (es : List Entry) {lead trail : Text} (hl : isBlank lead = true)
    (ht : isBlank trail = true) : strip (lead ++ (bracketed es ++ trail)) = bracketed es :=
  strip_delimited hl ht rfl rfl

theorem balanced_bracketed (es : List Entry) : Balanced (bracketed es) :=
  .bracket rfl (balanced_entries es) .nil

/-- **Entries in square brackets are one argument**, whatever blanks stand around them. -/
theorem arguments_bracketed (es : List Entry) {lead trail : Text} (hl : isBlank lead = true)
    (ht : isBlank trail = true) : arguments (lead ++ (bracketed es ++ trail)) = [bracketed es] := by
  have full : isBlank (lead ++ (bracketed es ++ trail)) = false := by
    rw [isBlank, List.all_append, bracketed, List.cons_append, List.all_cons]
    simp [show isSpace '[' = false from rfl]
  have inside := splitTopFrom_balanced "," (balanced_entries es) 0 (']' :: trail)
  have close : splitTopFrom "," 1 none 0 (']' :: trail) =
      (']' :: (splitTopFrom "," 0 none 0 trail).1, (splitTopFrom "," 0 none 0 trail).2) := rfl
  have behind := splitTopFrom_blank 0 [] ht
  rw [List.append_nil] at behind
  have nothing : splitTopFrom "," 0 none 0 [] = ([], []) := rfl
  have whole : splitTopFrom "," 0 none 0 (bracketed es ++ trail) = (bracketed es ++ trail, []) := by
    have open? : splitTopFrom "," 0 none 0 ('[' :: (entries es ++ ']' :: trail)) =
        ('[' :: (splitTopFrom "," 1 none 0 (entries es ++ ']' :: trail)).1,
          (splitTopFrom "," 1 none 0 (entries es ++ ']' :: trail)).2) := rfl
    rw [bracketed, List.cons_append, List.append_assoc, List.singleton_append, open?, inside, close,
      behind, nothing, List.append_nil]
  rw [arguments, full, if_neg Bool.false_ne_true, splitTop, splitTopFrom_blank 0 _ hl, whole]
  simp only [List.map_cons, List.map_nil, strip_bracketed es hl ht]

/-- **The values of entries in square brackets are read**, in order. -/
theorem literals?_bracketed (es : List Entry) :
    literals? (bracketed es) = some (es.map Entry.value) := by
  have solid := @strip_bracketed es [] [] rfl rfl
  rw [List.nil_append, List.append_nil] at solid
  have inner : between? '[' ']' (bracketed es) = some (entries es) := by
    rw [bracketed, between?, List.getLast?_concat, List.dropLast_concat]
    rfl
  have values : ∀ es : List Entry,
      (es.map fun e => e.literal.shown).mapM literal? = some (es.map Entry.value) := by
    intro es
    induction es with
    | nil => rfl
    | cons e es ih =>
      rw [List.map_cons, List.mapM_cons, e.literal.literal?_shown, ih]
      rfl
  rw [literals?, solid, inner]
  simp only [arguments_entries, values]

end Pagewright.Directive
