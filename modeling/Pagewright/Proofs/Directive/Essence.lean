import Pagewright.Proofs.Directive.Split

/-! # What counts in an expression

White space in an expression counts inside string literals and nowhere else.  What counts of an
expression is read off with the quotes it is in (`essence`), and so are its literals (`literals`);
both are read piece by piece where the pieces are balanced (`essence_append`, `literals_append`).  An
expression whose white space is squeezed stays balanced (`Balanced.squeezeFrom`), and all that counts
is left of it if and only if its literals are (`essence_squeezeFrom_iff`).

Main definitions: `essence`, `literals`. -/

namespace Pagewright.Directive

open Text

/-- What counts of a text, read from the inside of a literal with the given quote or from the
outside of all: its characters, each with whether it belongs to a literal, but for the white space
outside literals. -/
def essence : Option Char → Text → List (Char × Bool)
  | _, [] => []
  | some q, '\\' :: c :: r => ('\\', true) :: (c, true) :: essence (some q) r
  | some q, c :: r => (c, true) :: essence (if c = q then none else some q) r
  | none, c :: r =>
    if isQuote c then (c, true) :: essence (some c) r
    else if isSpace c then essence none r
    else (c, false) :: essence none r

/-- The rest of the literal with the given quote that a text begins in, and the literals behind it. -/
def literalsAux : Option Char → Text → Text × List Text
  | _, [] => ([], [])
  | some q, '\\' :: c :: r =>
    let (rest, behind) := literalsAux (some q) r
    ('\\' :: c :: rest, behind)
  | some q, c :: r =>
    let (rest, behind) := literalsAux (if c = q then none else some q) r
    (c :: rest, behind)
  | none, c :: r =>
    if isQuote c then
      let (rest, behind) := literalsAux (some c) r
      ([], (c :: rest) :: behind)
    else literalsAux none r

/-- The string literals of a text, with their quotes. -/
def literals (t : Text) : List Text := (literalsAux none t).2

/-! ### Piece by piece -/

/-- Brackets neither quote nor count as white space. -/
theorem brackets_count {o c : Char} (h : closerOf? o = some c) :
    (isQuote o = false ∧ isSpace o = false) ∧ isQuote c = false ∧ isSpace c = false := by
  obtain ⟨rfl, rfl⟩ | ⟨rfl, rfl⟩ | ⟨rfl, rfl⟩ := closerOf?_eq_some h <;> decide

/-- The characters of words neither quote nor bracket. -/
theorem isInert_of_isWord {c : Char} (h : isWord c = true) : isInert c = true := by
  rw [isInert_iff]
  refine ⟨?_, ?_, ?_⟩
  · rw [Bool.eq_false_iff]
    intro hq
    obtain rfl | rfl := isQuote_eq_true.mp hq <;> exact absurd h (by decide)
  · cases ho : closerOf? c with
    | none => rfl
    | some d => obtain ⟨rfl, -⟩ | ⟨rfl, -⟩ | ⟨rfl, -⟩ := closerOf?_eq_some ho <;> exact absurd h (by decide)
  · rw [Bool.eq_false_iff]
    intro hc
    simp only [isCloser, Bool.or_eq_true, beq_iff_eq] at hc
    obtain (rfl | rfl) | rfl := hc <;> exact absurd h (by decide)

section Pieces

variable {q c : Char} {inner : Text}

theorem essence_char (hc : isInert c = true) (r : Text) :
    essence none (c :: r) = if isSpace c then essence none r else (c, false) :: essence none r := by
  rw [essence, (isInert_iff.mp hc).1]
  rfl

theorem essence_blank (hc : isSpace c = true) (r : Text) : essence none (c :: r) = essence none r := by
  rw [essence_char (isInert_blank hc).1, if_pos hc]

/-- Outside of all literals no literal goes on. -/
theorem literalsAux_none (r : Text) : literalsAux none r = ([], literals r) := by
  induction r with
  | nil => rfl
  | cons c r ih =>
    rw [literals, literalsAux]
    split
    · rfl
    · rw [ih]

theorem essence_quoted (hq : isQuote q = true) (r : Text) : ∀ {inner : Text}, Quoted q inner →
    essence (some q) (inner ++ q :: r) = (inner ++ [q]).map (·, true) ++ essence none r
  | _, .nil => by
      have plain := not_backslash_of_isQuote hq
      rw [List.nil_append, essence, if_pos rfl]
      · rfl
      · exact fun _ _ e => absurd e plain
  | _, .char hc hb h => by
      rw [List.cons_append, essence, if_neg hc, essence_quoted hq r h]
      · rfl
      · exact fun _ _ e => absurd e hb
  | _, .escape h => by
      rw [List.cons_append, List.cons_append, essence, essence_quoted hq r h]
      rfl

theorem literalsAux_quoted (hq : isQuote q = true) (r : Text) : ∀ {inner : Text}, Quoted q inner →
    literalsAux (some q) (inner ++ q :: r) = (inner ++ [q], literals r)
  | _, .nil => by
      have plain := not_backslash_of_isQuote hq
      rw [List.nil_append, literalsAux, if_pos rfl, literalsAux_none]
      · rfl
      · exact fun _ _ e => absurd e plain
  | _, .char hc hb h => by
      rw [List.cons_append, literalsAux, if_neg hc, literalsAux_quoted hq r h]
      · rfl
      · exact fun _ _ e => absurd e hb
  | _, .escape h => by
      rw [List.cons_append, List.cons_append, literalsAux, literalsAux_quoted hq r h]
      rfl

theorem essence_literal (hq : isQuote q = true) (hi : Quoted q inner) (r : Text) :
    essence none (q :: (inner ++ q :: r)) =
      (q :: (inner ++ [q])).map (·, true) ++ essence none r := by
  rw [essence, if_pos hq, essence_quoted hq r hi]
  rfl

theorem literals_literal (hq : isQuote q = true) (hi : Quoted q inner) (r : Text) :
    literals (q :: (inner ++ q :: r)) = (q :: (inner ++ [q])) :: literals r := by
  rw [literals, literalsAux, if_pos hq, literalsAux_quoted hq r hi]

theorem essence_solid (hq : isQuote c = false) (hs : isSpace c = false) (r : Text) :
    essence none (c :: r) = (c, false) :: essence none r := by
  rw [essence, hq, hs]
  rfl

theorem literals_plain (hq : isQuote c = false) (r : Text) : literals (c :: r) = literals r := by
  rw [literals, literalsAux, hq]
  rfl

/-- **What counts is read piece by piece.** -/
theorem essence_append (r : Text) {t : Text} (h : Balanced t) :
    essence none (t ++ r) = essence none t ++ essence none r := by
  induction h generalizing r with
  | nil => rfl
  | char hq ho hc _ ih =>
    have plain := isInert_iff.mpr ⟨hq, ho, hc⟩
    rw [List.cons_append, essence_char plain, essence_char plain, ih]
    split <;> rfl
  | literal hq hi _ ih =>
    rw [List.cons_append, List.append_assoc, List.cons_append, essence_literal hq hi,
      essence_literal hq hi, ih, List.append_assoc]
  | bracket ho _ _ inside behind =>
    obtain ⟨⟨oq, os⟩, cq, cs⟩ := brackets_count ho
    rw [List.cons_append, List.append_assoc, List.cons_append, essence_solid oq os, inside,
      essence_solid cq cs, behind, essence_solid oq os, inside, essence_solid cq cs]
    simp

/-- **Literals are found piece by piece.** -/
theorem literals_append (r : Text) {t : Text} (h : Balanced t) :
    literals (t ++ r) = literals t ++ literals r := by
  induction h generalizing r with
  | nil => rfl
  | char hq _ _ _ ih => rw [List.cons_append, literals_plain hq, literals_plain hq, ih]
  | literal hq hi _ ih =>
    rw [List.cons_append, List.append_assoc, List.cons_append, literals_literal hq hi,
      literals_literal hq hi, ih, List.cons_append]
  | bracket ho _ _ inside behind =>
    obtain ⟨⟨oq, -⟩, cq, -⟩ := brackets_count ho
    rw [List.cons_append, List.append_assoc, List.cons_append, literals_plain oq, inside,
      literals_plain cq, behind, literals_plain oq, inside, literals_plain cq, List.append_assoc]

theorem essence_bracket {o : Char} (ho : closerOf? o = some c) (hi : Balanced inner) (r : Text) :
    essence none (o :: (inner ++ c :: r)) =
      (o, false) :: (essence none inner ++ (c, false) :: essence none r) := by
  obtain ⟨⟨oq, os⟩, cq, cs⟩ := brackets_count ho
  rw [essence_solid oq os, essence_append _ hi, essence_solid cq cs]

theorem literals_bracket {o : Char} (ho : closerOf? o = some c) (hi : Balanced inner) (r : Text) :
    literals (o :: (inner ++ c :: r)) = literals inner ++ literals r := by
  obtain ⟨⟨oq, -⟩, cq, -⟩ := brackets_count ho
  rw [literals_plain oq, literals_append _ hi, literals_plain cq]

end Pieces

/-! ### White space at the ends -/

/-- White space is balanced, and nothing of it counts. -/
theorem blank_counts_not {u : Text} (h : ∀ c ∈ u, isSpace c = true) :
    u.all isInert = true ∧ essence none u = [] ∧ literals u = [] := by
  induction u with
  | nil => exact ⟨rfl, rfl, rfl⟩
  | cons c u ih =>
    obtain ⟨hc, hu⟩ := List.forall_mem_cons.mp h
    obtain ⟨inert, none, noLiteral⟩ := ih hu
    have plain := (isInert_blank hc).1
    refine ⟨by rw [List.all_cons, plain, inert]; rfl, ?_, ?_⟩
    · rw [essence_blank hc, none]
    · rw [literals_plain (isInert_iff.mp plain).1, noLiteral]

/-- Stripping keeps a text balanced, and all that counts of it. -/
theorem Balanced.strip {t : Text} (h : Balanced t) :
    Balanced (strip t) ∧ essence none (Text.strip t) = essence none t ∧
      literals (Text.strip t) = literals t := by
  obtain ⟨b, d, e, blanks⟩ := exists_strip t
  obtain ⟨hb, hd⟩ := List.forall_mem_append.mp blanks
  obtain ⟨inertb, eb, lb⟩ := blank_counts_not hb
  obtain ⟨inertd, ed, ld⟩ := blank_counts_not hd
  generalize Text.strip t = m at e
  subst e
  have later : Balanced (m ++ d) := h.behind inertb
  have inner : Balanced m := later.front rfl inertd
  have front := Balanced.of_inert inertb
  refine ⟨inner, ?_, ?_⟩
  · rw [essence_append _ front, essence_append _ inner, eb, ed]
    simp
  · rw [literals_append _ front, literals_append _ inner, lb, ld]
    simp

/-! ### Squeezed white space -/

section Squeeze

variable {q c : Char} {t : Text}

theorem Quoted.squeezeFrom (hq : isQuote q = true) {t : Text} (h : Quoted q t) :
    ∀ b, Quoted q (squeezeFrom b t) := by
  have blank : ' ' ≠ q := by
    rintro rfl
    cases hq
  induction h with
  | nil => exact fun _ => .nil
  | @char c t hc hb _ ih =>
    intro b
    rw [Text.squeezeFrom]
    split
    · split
      · exact ih true
      · exact .char blank (by decide) (ih true)
    · exact .char hc hb (ih false)
  | @escape c t _ ih =>
    -- A blank behind a backslash is the first one of its stretch.
    intro b
    have kept : Text.squeezeFrom b ('\\' :: c :: t) = '\\' :: Text.squeezeFrom false (c :: t) := by
      rw [Text.squeezeFrom]
      rfl
    rw [kept, Text.squeezeFrom]
    split
    · exact .escape (ih true)
    · exact .escape (ih false)

theorem squeezeFrom_solid (hc : isSpace c = false) (b : Bool) (r : Text) :
    squeezeFrom b (c :: r) = c :: squeezeFrom false r := squeezeFrom_append hc r b []

/-- Two characters that are no white space, and what stands between and behind them. -/
theorem squeezeFrom_between {o : Char} (ho : isSpace o = false) (hc : isSpace c = false) (b : Bool)
    (inner r : Text) :
    squeezeFrom b (o :: (inner ++ c :: r)) =
      o :: (squeezeFrom false inner ++ c :: squeezeFrom false r) := by
  rw [squeezeFrom_solid ho, squeezeFrom_append hc]

/-- **A balanced text stays balanced when its white space is squeezed.** -/
theorem Balanced.squeezeFrom (h : Balanced t) : ∀ b, Balanced (squeezeFrom b t) := by
  induction h with
  | nil => exact fun _ => .nil
  | char hq ho hc _ ih =>
    intro b
    rw [Text.squeezeFrom]
    split
    · split
      · exact ih true
      · exact .char (by decide) rfl (by decide) (ih true)
    · exact .char hq ho hc (ih false)
  | literal hq hi _ ih =>
    intro b
    have solid := not_space_of_isQuote hq
    rw [squeezeFrom_between solid solid]
    exact .literal hq (hi.squeezeFrom hq false) (ih false)
  | bracket ho _ _ inside behind =>
    intro b
    obtain ⟨⟨-, os⟩, -, cs⟩ := brackets_count ho
    rw [squeezeFrom_between os cs]
    exact .bracket ho (inside false) (behind false)

/-- Squeezing white space adds nothing that counts. -/
theorem length_essence_squeezeFrom (h : Balanced t) :
    ∀ b, (essence none (squeezeFrom b t)).length ≤ (essence none t).length := by
  induction h with
  | nil => exact fun _ => Nat.le_refl 0
  | char hq ho hc _ ih =>
    intro b
    have plain := isInert_iff.mpr ⟨hq, ho, hc⟩
    rw [Text.squeezeFrom, essence_char plain]
    split
    · split
      · exact ih true
      · rw [essence_blank (by decide)]
        exact ih true
    · next solid =>
      rw [essence_char plain, if_neg solid]
      exact Nat.succ_le_succ (ih false)
  | @literal q inner t hq hi _ ih =>
    intro b
    have solid := not_space_of_isQuote hq
    have shorter := length_squeezeFrom false inner
    have later := ih false
    rw [squeezeFrom_between solid solid, essence_literal hq hi,
      essence_literal hq (hi.squeezeFrom hq false)]
    simp only [List.length_append, List.length_map, List.length_cons, List.length_nil]
    omega
  | bracket ho hi _ inside behind =>
    intro b
    obtain ⟨⟨-, os⟩, -, cs⟩ := brackets_count ho
    have inner := inside false
    have later := behind false
    rw [squeezeFrom_between os cs, essence_bracket ho hi, essence_bracket ho (hi.squeezeFrom false)]
    simp only [List.length_append, List.length_cons]
    omega

/-- Texts of which neither is longer than its counterpart are equal to them if they are so one behind
the other. -/
theorem append_eq_append_iff_of_length_le {α : Type} {a a' b b' : List α} (ha : a'.length ≤ a.length)
    (hb : b'.length ≤ b.length) : a' ++ b' = a ++ b ↔ a' = a ∧ b' = b := by
  constructor
  · intro e
    have length := congrArg List.length e
    simp only [List.length_append] at length
    exact List.append_inj e (by omega)
  · rintro ⟨rfl, rfl⟩
    rfl

/-- **All that counts of a text is left when its white space is squeezed if and only if its literals
are.** -/
theorem essence_squeezeFrom_iff (h : Balanced t) : ∀ b,
    essence none (squeezeFrom b t) = essence none t ↔ ∀ l ∈ literals t, squeeze l = l := by
  induction h with
  | nil => exact fun _ => ⟨fun _ => nofun, fun _ => rfl⟩
  | char hq ho hc _ ih =>
    intro b
    have plain := isInert_iff.mpr ⟨hq, ho, hc⟩
    rw [literals_plain hq, Text.squeezeFrom, essence_char plain]
    split
    · split
      · exact ih true
      · rw [essence_blank (by decide)]
        exact ih true
    · next solid =>
      rw [essence_char plain, if_neg solid, List.cons.injEq, ih false]
      exact and_iff_right rfl
  | @literal q inner t hq hi ht ih =>
    intro b
    have solid := not_space_of_isQuote hq
    have alone : squeeze (q :: (inner ++ [q])) = q :: (squeezeFrom false inner ++ [q]) :=
      squeezeFrom_between solid solid false inner []
    have shorter := length_squeezeFrom false inner
    rw [squeezeFrom_between solid solid, essence_literal hq hi,
      essence_literal hq (hi.squeezeFrom hq false),
      append_eq_append_iff_of_length_le (by simpa using shorter) (length_essence_squeezeFrom ht false),
      ih false, literals_literal hq hi, List.forall_mem_cons,
      List.map_inj_right fun _ _ e => congrArg Prod.fst e, alone]
  | @bracket o c inner t ho hi ht inside behind =>
    intro b
    obtain ⟨⟨-, os⟩, -, cs⟩ := brackets_count ho
    rw [squeezeFrom_between os cs, essence_bracket ho hi, essence_bracket ho (hi.squeezeFrom false),
      List.cons.injEq, and_iff_right rfl,
      append_eq_append_iff_of_length_le (length_essence_squeezeFrom hi false)
        (by simpa using length_essence_squeezeFrom ht false),
      List.cons.injEq, and_iff_right rfl, inside false, behind false, literals_bracket ho hi,
      List.forall_mem_append]

end Squeeze

end Pagewright.Directive
