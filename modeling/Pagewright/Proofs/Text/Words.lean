import Mathlib.Data.List.TakeWhile
import Pagewright.Proofs.Text.Letters

/-! # Words

A text falls into words at its white space (`words_append`), so a word stands in front of a blank or
at the end (`exists_of_mem_words`).  Words with single blanks between them are the text with its
white space squeezed: none at the ends, and a single blank for every stretch of it inside
(`join_words`).

Main definitions: `squeeze`, `Sparse`. -/

namespace Pagewright.Text

/-! ### White space -/

/-- The blanks by their numbers. -/
def blankCodes : List Nat :=
  [9, 10, 11, 12, 13, 28, 29, 30, 31, 32, 0x85, 0xA0, 0x1680, 0x2000, 0x2001, 0x2002, 0x2003, 0x2004,
    0x2005, 0x2006, 0x2007, 0x2008, 0x2009, 0x200A, 0x2028, 0x2029, 0x202F, 0x205F, 0x3000]

theorem toNat_mem_blankCodes {c : Char} (h : isSpace c = true) : c.toNat ∈ blankCodes := by
  simp only [isSpace, Bool.or_eq_true, Bool.and_eq_true, beq_iff_eq, decide_eq_true_eq] at h
  simp only [blankCodes, List.mem_cons, List.not_mem_nil, or_false]
  omega

/-- No blank belongs to a word. -/
theorem isWord_blank {c : Char} (h : isSpace c = true) : isWord c = false := by
  have all : ∀ n ∈ blankCodes, isWord (Char.ofNat n) = false := by decide +kernel
  have own := all c.toNat (toNat_mem_blankCodes h)
  rwa [Char.ofNat_toNat] at own

theorem not_isSpace_of_isWord {c : Char} (h : isWord c = true) : isSpace c = false := by
  rw [Bool.eq_false_iff]
  intro blank
  rw [isWord_blank blank] at h
  cases h

/-- A text is what stripping leaves of it, between blanks. -/
theorem exists_strip (t : Text) : ∃ b d, t = b ++ (strip t ++ d) ∧ ∀ c ∈ b ++ d, isSpace c = true := by
  have front := List.takeWhile_append_dropWhile (p := isSpace) (l := t)
  have back := List.takeWhile_append_dropWhile (p := isSpace) (l := (stripLeft t).reverse)
  refine ⟨t.takeWhile isSpace, ((stripLeft t).reverse.takeWhile isSpace).reverse, ?_, ?_⟩
  · rw [strip, stripRight, ← List.reverse_append, back, List.reverse_reverse]
    exact front.symm
  · intro c hc
    rw [List.mem_append, List.mem_reverse] at hc
    exact hc.elim (List.all_eq_true.mp List.all_takeWhile c)
      (List.all_eq_true.mp List.all_takeWhile c)

/-! ### Where words stand -/

/-- The word at the front of a text stands in front of a blank, and every other word does too. -/
theorem exists_of_wordsAux (t : Text) :
    (∃ y, t = (wordsAux t).1 ++ y ∧ ∀ c ∈ y.head?, isSpace c = true) ∧
      ∀ w ∈ (wordsAux t).2, ∃ x y, t = x ++ (w ++ y) ∧ ∀ c ∈ y.head?, isSpace c = true := by
  induction t with
  | nil => exact ⟨⟨[], rfl, nofun⟩, nofun⟩
  | cons c r ih =>
    obtain ⟨⟨y, hy, ends⟩, others⟩ := ih
    have later : ∀ w ∈ (wordsAux r).2, ∃ x y, c :: r = x ++ (w ++ y) ∧
        ∀ c ∈ y.head?, isSpace c = true := by
      intro w hw
      obtain ⟨x, y, e, ends⟩ := others w hw
      exact ⟨c :: x, y, congrArg (c :: ·) e, ends⟩
    rw [wordsAux]
    simp only
    split
    · next blank =>
      refine ⟨⟨c :: r, rfl, fun d hd => ?_⟩, fun w hw => ?_⟩
      · obtain rfl := Option.some.inj hd
        exact blank
      · split at hw
        · exact later w hw
        · obtain rfl | hw := List.mem_cons.mp hw
          · exact ⟨[c], y, congrArg (c :: ·) hy, ends⟩
          · exact later w hw
    · exact ⟨⟨y, congrArg (c :: ·) hy, ends⟩, later⟩

/-- A word stands in front of a blank or at the end. -/
theorem exists_of_mem_words {t w : Text} (hw : w ∈ words t) :
    ∃ x y, t = x ++ (w ++ y) ∧ ∀ c ∈ y.head?, isSpace c = true := by
  obtain ⟨⟨y, hy, ends⟩, others⟩ := exists_of_wordsAux t
  unfold words at hw
  simp only at hw
  split at hw
  · exact others w hw
  · obtain rfl | hw := List.mem_cons.mp hw
    · exact ⟨[], y, hy, ends⟩
    · exact others w hw

/-! ### Words one behind the other -/

theorem wordsAux_append {c : Char} (hc : isSpace c = true) (x y : Text) :
    wordsAux (x ++ c :: y) = ((wordsAux x).1, (wordsAux x).2 ++ words y) := by
  induction x with
  | nil => simp [wordsAux, words, hc]
  | cons d x ih =>
    rw [List.cons_append, wordsAux, wordsAux, ih]
    cases wordsAux x with
    | mk w ws =>
      simp only
      split
      · split <;> simp
      · rfl

/-- **Words end at a blank.** -/
theorem words_append {c : Char} (hc : isSpace c = true) (x y : Text) :
    words (x ++ c :: y) = words x ++ words y := by
  rw [words, words, wordsAux_append hc]
  simp only
  split <;> simp

/-- A text without white space is one word. -/
theorem words_solid {w : Text} (given : w ≠ []) (solid : ∀ c ∈ w, isSpace c = false) :
    words w = [w] := by
  have whole : ∀ u : Text, (∀ c ∈ u, isSpace c = false) → wordsAux u = (u, []) := by
    intro u hu
    induction u with
    | nil => rfl
    | cons c u ih =>
      obtain ⟨hc, hu⟩ := List.forall_mem_cons.mp hu
      simp [wordsAux, hc, ih hu]
  simp [words, whole w solid, given]

theorem words_eq_nil {t : Text} : words t = [] ↔ isBlank t = true := by
  induction t with
  | nil => simp [words, wordsAux, isBlank]
  | cons c r ih =>
    cases hc : isSpace c with
    | true =>
      have behind := words_append hc [] r
      simp only [List.nil_append] at behind
      rw [behind]
      simpa [words, wordsAux, isBlank, hc] using ih
    | false => simp [words, wordsAux, isBlank, hc]

/-! ### Joined texts -/

theorem join_singleton (sep t : Text) : join sep [t] = t := by
  simp [join, List.intercalate]

theorem join_append (sep : Text) : ∀ (ts us : List Text), ts ≠ [] → us ≠ [] →
    join sep (ts ++ us) = join sep ts ++ (sep ++ join sep us)
  | [t], u :: us, _, _ => by
      rw [List.singleton_append, join_cons_cons, join_singleton]
  | t :: t' :: ts, us, _, hu => by
      have ih := join_append sep (t' :: ts) us (List.cons_ne_nil _ _) hu
      rw [List.cons_append, List.cons_append] at *
      rw [join_cons_cons, ih, join_cons_cons]
      simp

/-- A text among joined ones stands in front of the separator or at the end. -/
theorem exists_of_mem_join (sep : Text) {p : Text} {ps : List Text} (hp : p ∈ ps) :
    ∃ x y, join sep ps = x ++ (p ++ y) ∧ (y = [] ∨ ∃ v, y = sep ++ v) := by
  induction ps with
  | nil => cases hp
  | cons a ps ih =>
    cases ps with
    | nil =>
      obtain rfl := List.mem_singleton.mp hp
      exact ⟨[], [], by simp [join, List.intercalate], Or.inl rfl⟩
    | cons b ps =>
      rw [join_cons_cons]
      obtain rfl | hp := List.mem_cons.mp hp
      · exact ⟨[], _, rfl, Or.inr ⟨_, rfl⟩⟩
      · obtain ⟨x, y, e, ends⟩ := ih hp
        exact ⟨a ++ (sep ++ x), y, by rw [e, List.append_assoc, List.append_assoc], ends⟩

/-! ### Squeezed white space -/

/-- A text with a single blank for every stretch of white space, and none for the first one if
there is a blank in front. -/
def squeezeFrom : Bool → Text → Text
  | _, [] => []
  | blank, c :: r =>
    if isSpace c then (if blank then squeezeFrom true r else ' ' :: squeezeFrom true r)
    else c :: squeezeFrom false r

/-- A text with a single blank for every stretch of white space. -/
def squeeze (t : Text) : Text := squeezeFrom false t

/-- What stands behind a character that is no white space is squeezed by itself. -/
theorem squeezeFrom_append {c : Char} (hc : isSpace c = false) (r : Text) : ∀ (b : Bool) (u : Text),
    squeezeFrom b (u ++ c :: r) = squeezeFrom b u ++ c :: squeezeFrom false r
  | b, [] => by simp [squeezeFrom, hc]
  | b, d :: u => by
      have ih := fun b => squeezeFrom_append hc r b u
      simp only [List.cons_append, squeezeFrom, ih]
      split
      · split <;> rfl
      · rfl

theorem length_squeezeFrom : ∀ (b : Bool) (t : Text), (squeezeFrom b t).length ≤ t.length
  | _, [] => Nat.le_refl 0
  | b, c :: r => by
      have blank := length_squeezeFrom true r
      have solid := length_squeezeFrom false r
      rw [squeezeFrom]
      split
      · split <;> simp only [List.length_cons] <;> omega
      · simp only [List.length_cons]
        omega

theorem stripRight_cons (c : Char) (r : Text) :
    stripRight (c :: r) = if isBlank (c :: r) then [] else c :: stripRight r := by
  rw [stripRight, stripRight, List.reverse_cons, List.dropWhile_append]
  by_cases hr : isBlank r = true
  · have none : r.reverse.dropWhile isSpace = [] := by
      rw [List.dropWhile_eq_nil_iff]
      intro d hd
      exact List.all_eq_true.mp hr d (List.mem_reverse.mp hd)
    cases hc : isSpace c <;> simp [isBlank, none, hc, List.dropWhile] at hr ⊢
    exact hr
  · have some : r.reverse.dropWhile isSpace ≠ [] := by
      intro none
      apply hr
      rw [isBlank, List.all_eq_true]
      intro d hd
      exact List.dropWhile_eq_nil_iff.mp none d (List.mem_reverse.mpr hd)
    rw [if_neg (by simp [some]), if_neg (by simp only [isBlank, List.all_cons] at hr ⊢; simp [hr])]
    simp

/-- Words with single blanks between them, for a text read from the inside of a word and for one read
from behind a blank. -/
theorem join_words_squeezed (t : Text) :
    join " " ((wordsAux t).1 :: (wordsAux t).2) = squeezeFrom false (stripRight t) ∧
      join " " (words t) = squeezeFrom true (stripRight t) := by
  induction t with
  | nil => exact ⟨rfl, rfl⟩
  | cons c r ih =>
    obtain ⟨inside, behind⟩ := ih
    have join_cons : ∀ (w : Text) (ws : List Text), join " " ((c :: w) :: ws) = c :: join " " (w :: ws) := by
      intro w ws
      cases ws <;> simp [join, List.intercalate]
    rw [stripRight_cons]
    cases hc : isSpace c with
    | false =>
      have solid : isBlank (c :: r) = false := by simp [isBlank, hc]
      simp only [solid, Bool.false_eq_true, if_false]
      have word : wordsAux (c :: r) = (c :: (wordsAux r).1, (wordsAux r).2) := by simp [wordsAux, hc]
      constructor
      · rw [word, join_cons, inside, squeezeFrom, if_neg (by simp [hc])]
      · rw [words, word]
        simp only [List.isEmpty_cons, Bool.false_eq_true, if_false]
        rw [join_cons, inside, squeezeFrom, if_neg (by simp [hc])]
    | true =>
      have later : words (c :: r) = words r := words_append hc [] r
      have apart : wordsAux (c :: r) = ([], words r) := by simp [wordsAux, hc, words]
      by_cases blank : isBlank r = true
      · have none := words_eq_nil.mpr blank
        have all : isBlank (c :: r) = true := by simpa [isBlank, hc] using blank
        rw [later, apart, none, if_pos all]
        exact ⟨rfl, rfl⟩
      · have some : words r ≠ [] := fun none => blank (words_eq_nil.mp none)
        have part : isBlank (c :: r) = false := by simpa [isBlank, hc] using blank
        obtain ⟨w, ws, hw⟩ := List.exists_cons_of_ne_nil some
        rw [later, apart, part]
        refine ⟨?_, ?_⟩
        · simp only [Bool.false_eq_true, if_false, squeezeFrom, hc, if_true]
          rw [hw, join_cons_cons, ← hw, behind]
          rfl
        · simpa [squeezeFrom, hc] using behind

theorem words_stripLeft (t : Text) : words (stripLeft t) = words t := by
  induction t with
  | nil => rfl
  | cons c r ih =>
    rw [stripLeft, List.dropWhile_cons]
    split
    · next blank =>
      have behind : words (c :: r) = words r := words_append blank [] r
      rw [behind, ← ih, stripLeft]
    · rfl

theorem squeezeFrom_true (t : Text) : squeezeFrom true t = squeezeFrom false (stripLeft t) := by
  induction t with
  | nil => rfl
  | cons c r ih =>
    rw [squeezeFrom, stripLeft, List.dropWhile_cons]
    split
    · rw [if_pos rfl, ih, stripLeft]
    · next solid => rw [squeezeFrom, if_neg solid]

/-- **Words with single blanks between them are the text with its white space squeezed.** -/
theorem join_words (t : Text) : join " " (words t) = squeeze (strip t) := by
  have solid : stripLeft (strip t) = strip t := by
    rw [strip]
    cases hs : stripLeft t with
    | nil => rfl
    | cons c r =>
      have hc : isSpace c = false := by
        have head := List.head?_dropWhile_not isSpace t
        rw [stripLeft] at hs
        simpa [hs] using head
      have first : isBlank (c :: r) = false := by simp [isBlank, hc]
      rw [stripRight_cons, first]
      simp [stripLeft, hc]
  rw [← words_stripLeft, (join_words_squeezed _).2, ← strip, squeezeFrom_true, solid, squeeze]

/-- A text that is not blank ends with a character that is no white space when it is stripped, and still
does when it is squeezed. -/
theorem exists_squeeze_strip {t : Text} (given : isBlank t = false) :
    ∃ y x, squeeze (strip t) = y ++ [x] ∧ isSpace x = false := by
  obtain ⟨b, d, e, blanks⟩ := exists_strip t
  have some : strip t ≠ [] := by
    intro none
    rw [none, List.nil_append] at e
    rw [e, isBlank, List.all_eq_true.mpr blanks] at given
    cases given
  have last := List.head?_dropWhile_not isSpace (stripLeft t).reverse
  cases hr : (stripLeft t).reverse.dropWhile isSpace with
  | nil =>
    refine absurd ?_ some
    rw [strip, stripRight, hr]
    rfl
  | cons x y =>
    have hx : isSpace x = false := by
      rw [hr] at last
      simpa using last
    have whole : strip t = y.reverse ++ [x] := by
      rw [strip, stripRight, hr, List.reverse_cons]
    exact ⟨squeezeFrom false y.reverse, x, by rw [whole]; exact squeezeFrom_append hx [] false _, hx⟩

/-! ### Texts without two blanks side by side -/

/-- No two blanks stand side by side, and none at the front if there is one in front. -/
def Sparse : Bool → Text → Prop
  | _, [] => True
  | blank, c :: r => if isSpace c then blank = false ∧ Sparse true r else Sparse false r

theorem sparse_squeezeFrom : ∀ (b : Bool) (t : Text), Sparse b (squeezeFrom b t)
  | _, [] => trivial
  | b, c :: r => by
      rw [squeezeFrom]
      split
      · cases b with
        | true => exact sparse_squeezeFrom true r
        | false => exact ⟨rfl, sparse_squeezeFrom true r⟩
      · next solid =>
        rw [Sparse, if_neg solid]
        exact sparse_squeezeFrom false r

theorem Sparse.stripLeft_eq {p r : Text} (h : Sparse true (p ++ r)) : stripLeft p = p := by
  cases p with
  | nil => rfl
  | cons c p =>
    rw [List.cons_append, Sparse] at h
    split at h
    · cases h.1
    · next solid => rw [stripLeft, List.dropWhile_cons_of_neg solid]

/-- Nothing in front of a blank ends in one. -/
theorem Sparse.stripRight_eq {c : Char} (hc : isSpace c = true) {r : Text} : ∀ {b : Bool} {p : Text},
    Sparse b (p ++ c :: r) → stripRight p = p
  | _, [], _ => rfl
  | b, d :: p, h => by
      rw [List.cons_append, Sparse] at h
      rw [stripRight_cons]
      split at h
      · -- Behind a blank stands another character, and no blank.
        cases p with
        | nil =>
          rw [List.nil_append, Sparse, if_pos hc] at h
          exact absurd h.2.1 Bool.noConfusion
        | cons e p =>
          have later := h.2
          rw [List.cons_append, Sparse] at later
          split at later
          · exact absurd later.1 Bool.noConfusion
          · next solid =>
            rw [if_neg (by simp [isBlank, solid]), h.2.stripRight_eq hc]
      · next solid =>
        rw [if_neg (by simp [isBlank, solid]), h.stripRight_eq hc]

theorem Sparse.behind {c : Char} (hc : isSpace c = true) {r : Text} : ∀ {b : Bool} {p : Text},
    Sparse b (p ++ c :: r) → Sparse true r
  | _, [], h => by
      rw [List.nil_append, Sparse, if_pos hc] at h
      exact h.2
  | b, d :: p, h => by
      rw [List.cons_append, Sparse] at h
      split at h
      · exact h.2.behind hc
      · exact h.behind hc

theorem stripRight_of_append : ∀ {u t : Text}, stripRight (u ++ t) = u ++ t → stripRight t = t
  | [], _, h => h
  | c :: u, t, h => by
      rw [List.cons_append, stripRight_cons] at h
      split at h
      · cases h
      · exact stripRight_of_append (List.cons.inj h).2

/-- Where no two blanks stand side by side, pieces between separators that begin and end with a blank
have none at their ends. -/
theorem strip_pieces {mid : Text} : ∀ {ps : List Text} {p : Text},
    Sparse true (join (' ' :: (mid ++ [' '])) (p :: ps)) →
      stripRight (join (' ' :: (mid ++ [' '])) (p :: ps)) = join (' ' :: (mid ++ [' '])) (p :: ps) →
        ∀ q ∈ p :: ps, strip q = q
  | [], p, sparse, ends => by
      rw [join_singleton] at sparse ends
      have left : stripLeft p = p := Sparse.stripLeft_eq (r := []) (by rwa [List.append_nil])
      simpa [strip, left] using ends
  | p' :: ps, p, sparse, ends => by
      rw [join_cons_cons] at sparse ends
      have left := sparse.stripLeft_eq
      have right := Sparse.stripRight_eq (c := ' ') rfl sparse
      have later : Sparse true (join (' ' :: (mid ++ [' '])) (p' :: ps)) := by
        refine Sparse.behind (c := ' ') rfl (b := true) (p := p ++ ' ' :: mid) ?_
        simpa using sparse
      rw [← List.append_assoc] at ends
      refine List.forall_mem_cons.mpr ⟨?_, strip_pieces later (stripRight_of_append ends)⟩
      rw [strip, left, right]

end Pagewright.Text
