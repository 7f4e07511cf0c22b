import Pagewright.Proofs.Directive.Entry
import Pagewright.Proofs.Text.Words

/-! # Splitting balanced texts

A balanced text is split on its own: with another text behind it, its pieces are the same, but for
the last one, which goes on into what follows (`splitTopFrom_append`).  The only thing that can go
wrong is a separator that begins in the last piece and ends behind it (`Seamless`).  So a balanced
text that holds no separator on top level stays in one piece wherever it stands (`Whole`), and whole
texts with separators between them are taken apart again (`splitTopFrom_join`).  The pieces of a
balanced text are balanced, and no separator is left on top level of them (`forall_splitTopFrom`).

Main definitions: `glue`, `Seamless`, `Whole`, `TopLevel`. -/

namespace Pagewright.Directive

open Text

/-- The pieces `p, ps` of a text, and behind them those of what follows it: where the two texts meet,
there is one piece. -/
def glue : Text → List Text → Text × List Text → Text × List Text
  | p, [], q => (p ++ q.1, q.2)
  | p, p' :: ps, q => (p, (glue p' ps q).1 :: (glue p' ps q).2)

/-- No separator begins in `p` and ends in the text `r` behind it. -/
def Seamless (sep p r : Text) : Prop :=
  ∀ u, u <:+ p → u ≠ [] → u.length < sep.length → ¬ sep <+: u ++ r

theorem Seamless.of_suffix {sep p p' r : Text} (h : Seamless sep p r) (hp : p' <:+ p) :
    Seamless sep p' r := fun u hu => h u (hu.trans hp)

/-- A separator whose first character does not come again in it begins nowhere in front of itself. -/
theorem seamless_cons {a : Char} {s : Text} (ha : a ∉ s) (p r : Text) :
    Seamless (a :: s) p (a :: s ++ r) := by
  intro u _ given short found
  obtain ⟨m, e⟩ := List.prefix_of_prefix_length_le (List.prefix_append u _) found short.le
  obtain ⟨d, u, rfl⟩ := List.exists_cons_of_ne_nil given
  rw [← e, List.prefix_append_right_inj] at found
  cases m with
  | nil => simp [← e] at short
  | cons b m =>
    obtain ⟨rfl, -⟩ := List.cons_prefix_cons.mp found
    obtain ⟨rfl, behind⟩ := List.cons.inj e
    apply ha
    rw [← behind]
    exact List.mem_append_right u List.mem_cons_self

/-- A separator of one character does not reach over a seam. -/
theorem seamless_singleton (a : Char) (p r : Text) : Seamless [a] p r := by
  intro u _ given short _
  exact given (List.length_eq_zero_iff.mp (Nat.lt_one_iff.mp short))

/-- Where the second text begins with a separator, no piece reaches over the seam. -/
theorem glue_sep (p : Text) (ps qs : List Text) : glue p ps ([], qs) = (p, ps ++ qs) := by
  induction ps generalizing p with
  | nil => rw [glue, List.append_nil, List.nil_append]
  | cons p' ps ih => rw [glue, ih, List.cons_append]

/-! ### Joining -/

theorem join_cons_char (sep : Text) (c : Char) (p : Text) (ps : List Text) :
    join sep ((c :: p) :: ps) = c :: join sep (p :: ps) := by
  cases ps with
  | nil => simp [join, List.intercalate]
  | cons b ps => rw [join_cons_cons, join_cons_cons, List.cons_append]

/-- **Pieces are the text again when they are joined.** -/
theorem join_splitTopFrom {sep : Text} (hsep : sep ≠ []) (depth : Nat) (quote : Option Char)
    (skip : Nat) (t : Text) (h : skip ≤ t.length) :
    join sep ((splitTopFrom sep depth quote skip t).1 :: (splitTopFrom sep depth quote skip t).2) =
      t.drop skip := by
  have keeps : ∀ (c : Char) {r : Text} (x : Text × List Text),
      join sep (x.1 :: x.2) = r → join sep ((c :: x.1) :: x.2) = c :: r := by
    intro c r x hx
    rw [join_cons_char, hx]
  fun_induction splitTopFrom sep depth quote skip t with
  | case1 depth quote k =>
    rw [List.drop_nil]
    exact join_singleton sep []
  | case2 depth quote k c r ih => exact ih (Nat.le_of_succ_le_succ h)
  | case3 => exact join_singleton sep _
  | case4 depth c d r _ _ _ ih => exact keeps '\\' (d :: _, _) (keeps d _ (ih (Nat.zero_le _)))
  | case9 depth c r _ _ _ found piece rest e ih =>
    -- A separator: what it covers is passed over in the text behind its first character.
    obtain ⟨v, hv⟩ := List.isPrefixOf_iff_prefix.mp found.2
    obtain ⟨s, sep', rfl⟩ := List.exists_cons_of_ne_nil hsep
    obtain ⟨rfl, hr⟩ := List.cons.inj hv
    have behind : r.drop ((s :: sep').length - 1) = v := by
      rw [← hr]
      exact List.drop_left
    have later := ih (by rw [← hr]; simp)
    rw [e, behind] at later
    rw [join_cons_cons, later, ← hr]
    rfl
  | _ =>
    rename_i ih
    exact keeps _ _ (ih (Nat.zero_le _))

/-- The last piece ends the text. -/
theorem getLastD_suffix_join (sep p : Text) (ps : List Text) :
    ps.getLastD p <:+ join sep (p :: ps) := by
  induction ps generalizing p with
  | nil => rw [join_singleton]; exact List.suffix_rfl
  | cons p' ps ih =>
    rw [join_cons_cons, List.getLastD_cons]
    exact (ih p').trans ((List.suffix_append _ _).trans (List.suffix_append _ _))

/-- The pieces of a text are stretches of it between separators, without blanks at their ends. -/
theorem exists_splitTop {sep : Text} (hsep : sep ≠ []) (t : Text) :
    ∃ raw, splitTop sep t = raw.map strip ∧ join sep raw = t :=
  ⟨_, rfl, join_splitTopFrom hsep 0 none 0 t (Nat.zero_le _)⟩

/-- A piece of a text stands in front of a separator or at the end. -/
theorem exists_of_mem_splitTop {sep : Text} (hsep : sep ≠ []) {t p : Text}
    (hp : p ∈ splitTop sep t) :
    ∃ x q y, t = x ++ (q ++ y) ∧ (y = [] ∨ ∃ v, y = sep ++ v) ∧ p = strip q := by
  obtain ⟨raw, e, whole⟩ := exists_splitTop hsep t
  rw [e] at hp
  obtain ⟨q, hq, rfl⟩ := List.mem_map.mp hp
  obtain ⟨x, y, place, ends⟩ := exists_of_mem_join sep hq
  exact ⟨x, q, y, whole.symm.trans place, ends, rfl⟩

/-! ### Single steps -/

section Steps

variable {sep : Text}

theorem isInert_iff {c : Char} :
    isInert c = true ↔ isQuote c = false ∧ closerOf? c = none ∧ isCloser c = false := by
  simp [isInert, and_assoc]

theorem Balanced.tail {c : Char} {t : Text} (h : Balanced (c :: t)) (hc : isInert c = true) :
    Balanced t := by
  obtain ⟨quote, opener, -⟩ := isInert_iff.mp hc
  generalize e : c :: t = u at h
  cases h with
  | nil => cases e
  | char _ _ _ ht =>
    obtain ⟨rfl, rfl⟩ := List.cons.inj e
    exact ht
  | literal hq _ _ =>
    obtain ⟨rfl, -⟩ := List.cons.inj e
    simp [quote] at hq
  | bracket ho _ _ =>
    obtain ⟨rfl, -⟩ := List.cons.inj e
    simp [opener] at ho

/-- A quote or a bracket is not among the characters behind the cut. -/
theorem exists_of_cut {c : Char} (loud : isInert c = false) {k r t u : Text}
    (whole : k ++ c :: r = t ++ u) (hu : u.all isInert = true) :
    ∃ t', t = k ++ c :: t' ∧ r = t' ++ u := by
  obtain ⟨m, rfl, e⟩ | ⟨m, rfl, rfl⟩ := List.append_eq_append_iff.mp whole
  · cases m with
    | nil =>
      obtain rfl : u = c :: r := by simpa using e.symm
      simp [loud] at hu
    | cons d m =>
      obtain ⟨hd, hr⟩ := List.cons.inj e
      exact ⟨m, by rw [hd], hr⟩
  · simp [loud] at hu

/-- Characters that neither quote nor bracket may be taken away in front. -/
theorem Balanced.behind : ∀ {u t : Text}, u.all isInert = true → Balanced (u ++ t) → Balanced t
  | [], _, _, h => h
  | c :: u, t, hu, h => by
      simp only [List.all_cons, Bool.and_eq_true] at hu
      exact (h.tail hu.1).behind hu.2

/-- Characters that neither quote nor bracket may be taken away behind. -/
theorem Balanced.front {w : Text} (h : Balanced w) : ∀ {t u : Text}, w = t ++ u →
    u.all isInert = true → Balanced t := by
  induction h with
  | nil =>
    intro t u whole _
    rw [(List.append_eq_nil_iff.mp whole.symm).1]
    exact .nil
  | char hq ho hc _ ih =>
    intro t u whole hu
    cases t with
    | nil => exact .nil
    | cons d t =>
      obtain ⟨hd, behind⟩ := List.cons.inj whole
      exact hd ▸ .char hq ho hc (ih behind hu)
  | @literal q inner t' hq hi _ ih =>
    intro t u whole hu
    have loud : isInert q = false := by simp [isInert, hq]
    obtain ⟨t'', e, behind⟩ := exists_of_cut loud (k := q :: inner) (by simpa using whole) hu
    rw [e]
    exact .literal hq hi (ih behind hu)
  | @bracket o c inner t' ho hi _ _ ih =>
    intro t u whole hu
    have loud : isInert c = false := by simp [isInert, closer_of_closerOf? ho]
    obtain ⟨t'', e, behind⟩ := exists_of_cut loud (k := o :: inner) (by simpa using whole) hu
    rw [e]
    exact .bracket ho hi (ih behind hu)

theorem splitTopFrom_nil (depth : Nat) (quote : Option Char) (skip : Nat) :
    splitTopFrom sep depth quote skip [] = ([], []) := by
  rw [splitTopFrom.eq_def]

/-- A character at which no separator begins is kept. -/
theorem splitTopFrom_inert {c : Char} {r : Text} (hc : isInert c = true)
    (apart : ¬ sep <+: c :: r) :
    splitTopFrom sep 0 none 0 (c :: r) =
      (c :: (splitTopFrom sep 0 none 0 r).1, (splitTopFrom sep 0 none 0 r).2) := by
  obtain ⟨quote, opener, closer⟩ := isInert_iff.mp hc
  have off : sep.isPrefixOf (c :: r) = false := by
    rw [Bool.eq_false_iff, Ne, List.isPrefixOf_iff_prefix]
    exact apart
  rw [splitTopFrom]
  simp [quote, opener, closer, off]

theorem splitTopFrom_skip (r : Text) : ∀ u : Text,
    splitTopFrom sep 0 none u.length (u ++ r) = splitTopFrom sep 0 none 0 r
  | [] => rfl
  | c :: u => by
      rw [List.length_cons, List.cons_append, splitTopFrom]
      exact splitTopFrom_skip r u

/-- A separator on top level ends a piece. -/
theorem splitTopFrom_sep (hsep : sep ≠ []) (inert : sep.all isInert = true) (r : Text) :
    splitTopFrom sep 0 none 0 (sep ++ r) =
      ([], (splitTopFrom sep 0 none 0 r).1 :: (splitTopFrom sep 0 none 0 r).2) := by
  obtain ⟨c, s, rfl⟩ := List.exists_cons_of_ne_nil hsep
  simp only [List.all_cons, Bool.and_eq_true] at inert
  obtain ⟨quote, opener, closer⟩ := isInert_iff.mp inert.1
  have found : (c :: s).isPrefixOf (c :: (s ++ r)) = true :=
    List.isPrefixOf_iff_prefix.mpr (List.prefix_append (c :: s) r)
  rw [List.cons_append, splitTopFrom]
  simp [quote, opener, closer, found, splitTopFrom_skip r s]

/-- A bracket is passed over with what stands in it. -/
theorem splitTopFrom_bracket {o c : Char} {inner : Text} (ho : closerOf? o = some c)
    (hi : Balanced inner) (r : Text) :
    splitTopFrom sep 0 none 0 (o :: (inner ++ c :: r)) =
      (o :: (inner ++ c :: (splitTopFrom sep 0 none 0 r).1), (splitTopFrom sep 0 none 0 r).2) := by
  obtain ⟨hcq, hco, hcc⟩ := closer_of_closerOf? ho
  have close : splitTopFrom sep 1 none 0 (c :: r) =
      (c :: (splitTopFrom sep 0 none 0 r).1, (splitTopFrom sep 0 none 0 r).2) := by
    rw [splitTopFrom]
    simp [hcq, hco, hcc]
  rw [splitTopFrom]
  simp [not_isQuote_of_closerOf? ho, ho, splitTopFrom_balanced sep hi 0 (c :: r), close]

theorem splitTopFrom_literal {q : Char} {inner : Text} (hq : isQuote q = true)
    (hi : Quoted q inner) (r : Text) :
    splitTopFrom sep 0 none 0 (q :: (inner ++ q :: r)) =
      (q :: (inner ++ q :: (splitTopFrom sep 0 none 0 r).1), (splitTopFrom sep 0 none 0 r).2) := by
  rw [splitTopFrom]
  simp [hq, splitTopFrom_quoted sep 0 hq r hi]

end Steps

/-! ### A balanced text in front of another one -/

theorem glue_cons (c : Char) (p : Text) (ps : List Text) (q : Text × List Text) :
    glue (c :: p) ps q = (c :: (glue p ps q).1, (glue p ps q).2) := by
  cases ps with
  | nil => rfl
  | cons p' ps => rfl

theorem glue_append (k p : Text) (ps : List Text) (q : Text × List Text) :
    glue (k ++ p) ps q = (k ++ (glue p ps q).1, (glue p ps q).2) := by
  induction k with
  | nil => rfl
  | cons c k ih => rw [List.cons_append, glue_cons, ih, List.cons_append]

/-- What follows some characters of the first piece ends the last piece, too. -/
theorem getLastD_suffix (k p : Text) (ps : List Text) : ps.getLastD p <:+ ps.getLastD (k ++ p) := by
  cases ps with
  | nil => exact List.suffix_append k p
  | cons p' ps => exact List.suffix_rfl

/-- A text shorter than the separator is one piece. -/
theorem splitTopFrom_short {sep t : Text} (short : t.length < sep.length) :
    splitTopFrom sep 0 none 0 t = (t, []) := by
  have hsep : sep ≠ [] := by
    rintro rfl
    simp at short
  have whole := join_splitTopFrom hsep 0 none 0 t (Nat.zero_le _)
  cases hs : splitTopFrom sep 0 none 0 t with
  | mk p ps =>
    rw [hs] at whole
    cases ps with
    | nil =>
      rw [join_singleton] at whole
      exact congrArg (·, []) whole
    | cons p' ps =>
      have length := congrArg List.length whole
      simp only [join_cons_cons, List.length_append, List.drop_zero] at length
      omega

/-- **A balanced text is split on its own**, unless a separator begins in its last piece and ends
behind it. -/
theorem splitTopFrom_append {sep : Text} (hsep : sep ≠ []) (inert : sep.all isInert = true)
    {t : Text} (ht : Balanced t) (r : Text)
    (seam : Seamless sep ((splitTopFrom sep 0 none 0 t).2.getLastD (splitTopFrom sep 0 none 0 t).1) r) :
    splitTopFrom sep 0 none 0 (t ++ r) =
      glue (splitTopFrom sep 0 none 0 t).1 (splitTopFrom sep 0 none 0 t).2
        (splitTopFrom sep 0 none 0 r) := by
  -- A separator takes more than one step of the grammar, so the induction is on the length.
  induction hn : t.length using Nat.strong_induction_on generalizing t with
  | _ n ih =>
  have behind : ∀ (k : Text) {u : Text}, k ≠ [] → t = k ++ u → Balanced u →
      (∀ x, splitTopFrom sep 0 none 0 (k ++ x) =
        (k ++ (splitTopFrom sep 0 none 0 x).1, (splitTopFrom sep 0 none 0 x).2)) →
      splitTopFrom sep 0 none 0 (t ++ r) = glue (splitTopFrom sep 0 none 0 t).1
        (splitTopFrom sep 0 none 0 t).2 (splitTopFrom sep 0 none 0 r) := by
    intro k u given e hu passes
    subst e
    have pos := List.length_pos_iff.mpr given
    have shorter : u.length < n := by
      simp only [List.length_append] at hn
      omega
    rw [passes] at seam ⊢
    rw [List.append_assoc, passes, glue_append,
      ih u.length shorter hu (seam.of_suffix (getLastD_suffix k _ _)) rfl]
  cases ht with
  | nil => rw [splitTopFrom_nil]; rfl
  | @char c u hq ho hc hu =>
    have plain := isInert_iff.mpr ⟨hq, ho, hc⟩
    by_cases found : sep <+: c :: u
    · obtain ⟨u', e⟩ := found
      have pos := List.length_pos_iff.mpr hsep
      have shorter : u'.length < n := by
        have length := congrArg List.length e
        simp only [List.length_append] at length
        omega
      have hu' : Balanced u' := Balanced.behind (u := sep) inert (e ▸ .char hq ho hc hu)
      rw [← e, splitTopFrom_sep hsep inert, List.getLastD_cons] at seam
      rw [← e, List.append_assoc, splitTopFrom_sep hsep inert, splitTopFrom_sep hsep inert,
        ih u'.length shorter hu' seam rfl]
      rfl
    · have apart : ¬ sep <+: c :: (u ++ r) := by
        intro hp
        by_cases short : (c :: u).length < sep.length
        · rw [splitTopFrom_short short] at seam
          exact seam (c :: u) List.suffix_rfl (List.cons_ne_nil c u) short hp
        · exact found (List.prefix_of_prefix_length_le hp (List.prefix_append (c :: u) r) (by omega))
      have shorter : u.length < n := by
        simp only [List.length_cons] at hn
        omega
      have step := splitTopFrom_inert plain found
      rw [step] at seam ⊢
      rw [List.cons_append, splitTopFrom_inert plain apart, glue_cons,
        ih u.length shorter hu (seam.of_suffix (getLastD_suffix [c] _ _)) rfl]
  | @literal q inner u hq hi hu =>
    refine behind (q :: (inner ++ [q])) (List.cons_ne_nil _ _) (by simp) hu fun x => ?_
    simpa using @splitTopFrom_literal sep q inner hq hi x
  | @bracket o c inner u ho hi hu =>
    refine behind (o :: (inner ++ [c])) (List.cons_ne_nil _ _) (by simp) hu fun x => ?_
    simpa using @splitTopFrom_bracket sep o c inner ho hi x

/-! ### Whole texts -/

/-- A text is one piece on top level. -/
def Whole (sep t : Text) : Prop := splitTopFrom sep 0 none 0 t = (t, [])

instance (sep t : Text) : Decidable (Whole sep t) :=
  inferInstanceAs (Decidable (splitTopFrom sep 0 none 0 t = (t, [])))

theorem Whole.splitTop_eq {sep t : Text} (h : Whole sep t) : splitTop sep t = [strip t] := by
  rw [splitTop, h]
  rfl

/-- A text without quotes and brackets is whole if it does not hold the separator. -/
theorem whole_of_not_infix {sep : Text} : ∀ {t : Text}, t.all isInert = true → ¬ sep <:+: t →
    Whole sep t
  | [], _, _ => splitTopFrom_nil 0 none 0
  | c :: t, inert, apart => by
      simp only [List.all_cons, Bool.and_eq_true] at inert
      have later : Whole sep t := whole_of_not_infix inert.2 fun h =>
        apart (h.trans (List.suffix_cons c t).isInfix)
      rw [Whole, splitTopFrom_inert inert.1 fun h => apart h.isInfix, later]

/-- Whole texts one behind the other are whole, unless a separator begins in the first one and ends in
the second. -/
theorem Whole.append {sep t r : Text} (hsep : sep ≠ []) (inert : sep.all isInert = true)
    (ht : Balanced t) (wt : Whole sep t) (wr : Whole sep r) (seam : Seamless sep t r) :
    Whole sep (t ++ r) := by
  rw [Whole] at wt wr ⊢
  rw [splitTopFrom_append hsep inert ht r (by rw [wt]; exact seam), wt, wr]
  rfl

/-- A text in brackets is whole. -/
theorem whole_bracketed (sep : Text) {o c : Char} {inner : Text} (ho : closerOf? o = some c)
    (hi : Balanced inner) : Whole sep (o :: (inner ++ [c])) := by
  rw [Whole, splitTopFrom_bracket ho hi, splitTopFrom_nil]

section Blanks

variable {sep u t : Text}

/-- A separator without blanks does not begin in blanks. -/
theorem seamless_blank (solid : ∀ c ∈ sep, isSpace c = false) (hu : isBlank u = true) (r : Text) :
    Seamless sep u r := by
  intro v hv given short found
  obtain ⟨c, v, rfl⟩ := List.exists_cons_of_ne_nil given
  obtain ⟨d, s, rfl⟩ := List.exists_cons_of_length_pos (Nat.zero_lt_of_lt short)
  obtain ⟨rfl, -⟩ := List.cons_prefix_cons.mp found
  have blank := List.all_eq_true.mp hu d (hv.subset List.mem_cons_self)
  rw [solid d List.mem_cons_self] at blank
  cases blank

/-- A separator without blanks does not end in blanks. -/
theorem seamless_before_blank (solid : ∀ c ∈ sep, isSpace c = false) (t : Text)
    (hu : isBlank u = true) : Seamless sep t u := by
  intro v _ _ short found
  obtain ⟨m, rfl⟩ := List.prefix_of_prefix_length_le (List.prefix_append v u) found short.le
  rw [List.prefix_append_right_inj] at found
  cases m with
  | nil => simp at short
  | cons c m =>
    have blank := List.all_eq_true.mp hu c (found.subset List.mem_cons_self)
    rw [solid c (by simp)] at blank
    cases blank

theorem whole_blank (solid : ∀ c ∈ sep, isSpace c = false) (hsep : sep ≠ []) (hu : isBlank u = true) :
    Whole sep u := by
  have blanks := List.all_eq_true.mp hu
  refine whole_of_not_infix (List.all_eq_true.mpr fun c hc => (isInert_blank (blanks c hc)).1) ?_
  intro found
  obtain ⟨c, s, rfl⟩ := List.exists_cons_of_ne_nil hsep
  have blank := blanks c (found.subset List.mem_cons_self)
  rw [solid c List.mem_cons_self] at blank
  cases blank

end Blanks

/-- **Balanced whole texts with separators between them are taken apart again**, for a separator
whose first character does not come again in it. -/
theorem splitTopFrom_join {a : Char} {s : Text} (ha : a ∉ s) (inert : (a :: s).all isInert = true) :
    ∀ {ps : List Text} {p : Text}, (∀ q ∈ p :: ps, Balanced q ∧ Whole (a :: s) q) →
      splitTopFrom (a :: s) 0 none 0 (join (a :: s) (p :: ps)) = (p, ps)
  | [], p, h => by
      rw [join_singleton]
      exact (h p List.mem_cons_self).2
  | p' :: ps, p, h => by
      obtain ⟨⟨balanced, whole⟩, later⟩ := List.forall_mem_cons.mp h
      have given : a :: s ≠ [] := List.cons_ne_nil a s
      rw [Whole] at whole
      rw [join_cons_cons, splitTopFrom_append given inert balanced _
          (by rw [whole]; exact seamless_cons ha p _),
        whole, splitTopFrom_sep given inert, splitTopFrom_join ha inert later, glue_sep,
        List.nil_append]

/-! ### Pieces of a balanced text -/

theorem balanced_join {sep : Text} (hs : Balanced sep) : ∀ {ps : List Text},
    (∀ p ∈ ps, Balanced p) → Balanced (join sep ps)
  | [], _ => .nil
  | [p], h => by
      rw [join_singleton]
      exact h p List.mem_cons_self
  | p :: p' :: ps, h => by
      obtain ⟨first, later⟩ := List.forall_mem_cons.mp h
      rw [join_cons_cons]
      exact first.append (hs.append (balanced_join hs later))

/-- **A balanced text falls into balanced whole pieces** at a separator of one character. -/
theorem forall_splitTopFrom {a : Char} (inert : isInert a = true) {t : Text} (h : Balanced t) :
    ∀ p ∈ (splitTopFrom [a] 0 none 0 t).1 :: (splitTopFrom [a] 0 none 0 t).2,
      Balanced p ∧ Whole [a] p := by
  -- What is passed over goes to the first piece, and a separator opens an empty one.
  induction h with
  | nil =>
    rw [splitTopFrom_nil]
    exact List.forall_mem_singleton.mpr ⟨.nil, splitTopFrom_nil 0 none 0⟩
  | @char c t hq ho hc _ ih =>
    obtain ⟨⟨balanced, whole⟩, later⟩ := List.forall_mem_cons.mp ih
    by_cases e : a = c
    · subst e
      have parted := splitTopFrom_sep (List.cons_ne_nil a []) (by simp [inert]) t
      rw [List.singleton_append] at parted
      rw [parted]
      exact List.forall_mem_cons.mpr ⟨⟨.nil, splitTopFrom_nil 0 none 0⟩, ih⟩
    · have apart : ∀ u : Text, ¬ [a] <+: c :: u := fun u h => e (List.cons_prefix_cons.mp h).1
      have plain := isInert_iff.mpr ⟨hq, ho, hc⟩
      rw [splitTopFrom_inert plain (apart _)]
      refine List.forall_mem_cons.mpr ⟨⟨.char hq ho hc balanced, ?_⟩, later⟩
      rw [Whole, splitTopFrom_inert plain (apart _), whole]
  | @literal q inner t hq hi _ ih =>
    obtain ⟨⟨balanced, whole⟩, later⟩ := List.forall_mem_cons.mp ih
    rw [splitTopFrom_literal hq hi]
    refine List.forall_mem_cons.mpr ⟨⟨.literal hq hi balanced, ?_⟩, later⟩
    rw [Whole, splitTopFrom_literal hq hi, whole]
  | @bracket o c inner t ho hi _ _ ih =>
    obtain ⟨⟨balanced, whole⟩, later⟩ := List.forall_mem_cons.mp ih
    rw [splitTopFrom_bracket ho hi]
    refine List.forall_mem_cons.mpr ⟨⟨.bracket ho hi balanced, ?_⟩, later⟩
    rw [Whole, splitTopFrom_bracket ho hi, whole]

/-- A separator stands on top level in a text: what comes before it is balanced. -/
def TopLevel (sep t : Text) : Prop := ∃ x y, t = x ++ (sep ++ y) ∧ Balanced x

/-- A whole text holds no separator on top level. -/
theorem Whole.not_topLevel {a : Char} (inert : isInert a = true) {p : Text} (h : Whole [a] p) :
    ¬ TopLevel [a] p := by
  rintro ⟨x, y, rfl, balanced⟩
  have all : [a].all isInert = true := by simp [inert]
  rw [Whole, splitTopFrom_append (List.cons_ne_nil a []) all balanced _ (seamless_singleton a _ _),
    splitTopFrom_sep (List.cons_ne_nil a []) all, glue_sep] at h
  simpa using congrArg Prod.snd h

/-- Stripping brings nothing to the top level. -/
theorem not_topLevel_strip {sep p : Text} (h : ¬ TopLevel sep p) : ¬ TopLevel sep (strip p) := by
  rintro ⟨x, y, inner, balanced⟩
  obtain ⟨b, d, whole, blanks⟩ := exists_strip p
  have front : Balanced b := balanced_blank (List.all_eq_true.mpr fun c hc =>
    blanks c (List.mem_append_left d hc))
  refine h ⟨b ++ x, y ++ d, ?_, front.append balanced⟩
  rw [inner] at whole
  simpa using whole

end Pagewright.Directive
