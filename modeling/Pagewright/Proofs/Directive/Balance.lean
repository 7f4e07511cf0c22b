import Pagewright.Directive.Bracket

/-! # Balanced texts

The texts that may stand between the brackets of an argument list, as a grammar: characters that
neither quote nor bracket anything, string literals, and bracketed texts.  The scan for a closing
bracket passes over every balanced text (`closingFrom_balanced`), so a text that a pair of brackets
encloses is closed by its last bracket (`Grouped.closing?`).  Conversely, while closers are due the
scan reads a balanced text in front of each of them (`closes_of_closingFrom`), so it finds a bracket
exactly where the grammar has one (`closing?_iff_grouped`).

Main definitions: `Quoted`, `Balanced`, `Grouped`, `Closes`. -/

namespace Pagewright.Directive

open Text

/-- What may stand between two quotes `q`: a backslash takes the next character along, and the quote
itself only stands behind one. -/
inductive Quoted (q : Char) : Text → Prop
  | nil : Quoted q []
  | char {c : Char} {t : Text} : c ≠ q → c ≠ '\\' → Quoted q t → Quoted q (c :: t)
  | escape {c : Char} {t : Text} : Quoted q t → Quoted q ('\\' :: c :: t)

/-- A text in which every bracket and every quote is closed, in the order of nesting. -/
inductive Balanced : Text → Prop
  | nil : Balanced []
  | char {c : Char} {t : Text} :
      isQuote c = false → closerOf? c = none → isCloser c = false → Balanced t → Balanced (c :: t)
  | literal {q : Char} {inner t : Text} :
      isQuote q = true → Quoted q inner → Balanced t → Balanced (q :: (inner ++ q :: t))
  | bracket {o c : Char} {inner t : Text} :
      closerOf? o = some c → Balanced inner → Balanced t → Balanced (o :: (inner ++ c :: t))

/-! ### Brackets and quotes as characters -/

theorem isQuote_eq_true {q : Char} : isQuote q = true ↔ q = '\'' ∨ q = '"' := by
  unfold isQuote
  rw [Bool.or_eq_true, beq_iff_eq, beq_iff_eq]

theorem closerOf?_eq_some {o c : Char} (h : closerOf? o = some c) :
    (o = '(' ∧ c = ')') ∨ (o = '[' ∧ c = ']') ∨ (o = '\x7b' ∧ c = '\x7d') := by
  unfold closerOf? at h
  split at h
  · exact Or.inl ⟨rfl, (Option.some.inj h).symm⟩
  · exact Or.inr (Or.inl ⟨rfl, (Option.some.inj h).symm⟩)
  · exact Or.inr (Or.inr ⟨rfl, (Option.some.inj h).symm⟩)
  · cases h

theorem not_isQuote_of_closerOf? {o c : Char} (h : closerOf? o = some c) : isQuote o = false := by
  obtain ⟨rfl, -⟩ | ⟨rfl, -⟩ | ⟨rfl, -⟩ := closerOf?_eq_some h <;> rfl

theorem closer_of_closerOf? {o c : Char} (h : closerOf? o = some c) :
    isQuote c = false ∧ closerOf? c = none ∧ isCloser c = true := by
  obtain ⟨-, rfl⟩ | ⟨-, rfl⟩ | ⟨-, rfl⟩ := closerOf?_eq_some h <;> exact ⟨rfl, rfl, rfl⟩

/-! ### The scan for a closing bracket -/

theorem map_add_map_add (x : Option Nat) (m n : Nat) :
    (x.map (· + m)).map (· + n) = x.map (· + (m + n)) := by
  cases x with
  | none => rfl
  | some k => exact congrArg some (Nat.add_assoc k m n)

/-- A literal is passed over together with the quote that closes it. -/
theorem closingFrom_quoted {q : Char} (hq : isQuote q = true) (expected : List Char) (r : Text) :
    ∀ {inner : Text}, Quoted q inner →
      closingFrom expected (some q) (inner ++ q :: r) =
        (closingFrom expected none r).map (· + (inner.length + 1))
  | _, .nil => by
      have hb : q ≠ '\\' := by
        obtain rfl | rfl := isQuote_eq_true.mp hq <;> decide
      rw [List.nil_append, closingFrom.eq_def]
      split
      · simp_all
      · simp_all
      · next h => obtain ⟨rfl, rfl⟩ := List.cons.inj h; simp_all
      · simp_all
  | _, .char (c := c) (t := t) hc hb h => by
      have step : closingFrom expected (some q) (c :: (t ++ q :: r)) =
          (closingFrom expected (some q) (t ++ q :: r)).map (· + 1) := by
        rw [closingFrom, if_neg hc]
        intro _ _ e _
        exact hb e
      rw [List.cons_append, step, closingFrom_quoted hq expected r h, map_add_map_add,
        List.length_cons]
  | _, .escape (c := c) (t := t) h => by
      rw [List.cons_append, List.cons_append, closingFrom,
        closingFrom_quoted hq expected r h, map_add_map_add, List.length_cons, List.length_cons]

/-- A balanced text is passed over while a closer is due. -/
theorem closingFrom_balanced : ∀ {t : Text}, Balanced t → ∀ (d : Char) (ds : List Char) (r : Text),
    closingFrom (d :: ds) none (t ++ r) = (closingFrom (d :: ds) none r).map (· + t.length)
  | _, .nil, d, ds, r => by
      cases h : closingFrom (d :: ds) none r <;> simp [h]
  | _, .char (c := c) (t := t) hq ho hc h, d, ds, r => by
      rw [List.cons_append, closingFrom, if_neg (by rw [hq]; decide), ho]
      simp only [hc, Bool.false_eq_true, if_false]
      rw [closingFrom_balanced h d ds r, map_add_map_add, List.length_cons]
  | _, @Balanced.literal q inner t hq hi h, d, ds, r => by
      rw [List.cons_append, List.append_assoc, List.cons_append, closingFrom, if_pos hq,
        closingFrom_quoted hq _ _ hi, closingFrom_balanced h d ds r, map_add_map_add,
        map_add_map_add]
      refine congrArg (fun n => (closingFrom (d :: ds) none r).map (· + n)) ?_
      simp only [List.length_cons, List.length_append]
      omega
  | _, @Balanced.bracket o c inner t ho hi h, d, ds, r => by
      obtain ⟨hcq, hco, hcc⟩ := closer_of_closerOf? ho
      have close : closingFrom (c :: d :: ds) none (c :: (t ++ r)) =
          (closingFrom (d :: ds) none (t ++ r)).map (· + 1) := by
        rw [closingFrom, if_neg (by rw [hcq]; decide), hco]
        simp only [hcc, if_true, List.isEmpty_cons, Bool.false_eq_true, if_false]
      rw [List.cons_append, List.append_assoc, List.cons_append, closingFrom,
        if_neg (by rw [not_isQuote_of_closerOf? ho]; decide), ho]
      simp only
      rw [closingFrom_balanced hi c (d :: ds) _, close, closingFrom_balanced h d ds r,
        map_add_map_add, map_add_map_add, map_add_map_add]
      refine congrArg (fun n => (closingFrom (d :: ds) none r).map (· + n)) ?_
      simp only [List.length_cons, List.length_append]
      omega

/-- A text that one pair of brackets encloses. -/
inductive Grouped : Text → Prop
  | intro {o c : Char} {inner : Text} :
      closerOf? o = some c → Balanced inner → Grouped (o :: (inner ++ [c]))

/-- **A grouped text is closed by its last bracket**, whatever follows. -/
theorem Grouped.closing? {v : Text} (h : Grouped v) (r : Text) :
    closing? (v ++ r) = some (v.length - 1) := by
  cases h with
  | @intro o c inner ho hi =>
    obtain ⟨hcq, hco, hcc⟩ := closer_of_closerOf? ho
    have opens : Directive.closing? (o :: (inner ++ c :: r)) =
        (closingFrom [c] none (inner ++ c :: r)).map (· + 1) := by
      rw [Directive.closing?, closingFrom, if_neg (by rw [not_isQuote_of_closerOf? ho]; decide), ho]
    have closes : closingFrom [c] none (c :: r) = some 0 := by
      rw [closingFrom, if_neg (by rw [hcq]; decide), hco]
      simp only [hcc, if_true, List.isEmpty_nil]
    have source : o :: (inner ++ [c]) ++ r = o :: (inner ++ c :: r) := by simp
    rw [source, opens, closingFrom_balanced hi, closes]
    simp

/-- **A balanced text in brackets is closed by the bracket behind it.** -/
theorem closing?_balanced {a : Text} (h : Balanced a) (r : Text) :
    closing? ('(' :: (a ++ ')' :: r)) = some (a.length + 1) := by
  have closed := (@Grouped.intro '(' ')' a rfl h).closing? r
  simpa using closed

/-- A character that neither quotes nor brackets. -/
def isInert (c : Char) : Bool := !isQuote c && (closerOf? c).isNone && !isCloser c

/-- A text without quotes and brackets is balanced. -/
theorem Balanced.of_inert : ∀ {t : Text}, t.all isInert = true → Balanced t
  | [], _ => .nil
  | c :: t, h => by
      rw [List.all_cons, Bool.and_eq_true] at h
      obtain ⟨hc, ht⟩ := h
      simp only [isInert, Bool.and_eq_true, Bool.not_eq_true', Option.isNone_iff_eq_none] at hc
      exact .char hc.1.1 hc.1.2 hc.2 (Balanced.of_inert ht)

/-! ### What the scan reads -/

/-- A text that closes brackets: for every closer that is due, the innermost first, a balanced text
and that closer. -/
inductive Closes : List Char → Text → Prop
  | nil : Closes [] []
  | cons {c : Char} {cs : List Char} {inner rest : Text} :
      Balanced inner → Closes cs rest → Closes (c :: cs) (inner ++ c :: rest)

namespace Closes

variable {d : Char} {ds : List Char} {r : Text}

theorem char {c : Char} (hq : isQuote c = false) (ho : closerOf? c = none)
    (hc : isCloser c = false) (h : Closes (d :: ds) r) : Closes (d :: ds) (c :: r) := by
  cases h with
  | cons inner rest => exact .cons (.char hq ho hc inner) rest

theorem literal {q : Char} {inner : Text} (hq : isQuote q = true) (hi : Quoted q inner)
    (h : Closes (d :: ds) r) : Closes (d :: ds) (q :: (inner ++ q :: r)) := by
  cases h with
  | @cons _ _ u r hu hr =>
    have shape : q :: (inner ++ q :: (u ++ d :: r)) = q :: (inner ++ q :: u) ++ d :: r := by simp
    rw [shape]
    exact .cons (.literal hq hi hu) hr

theorem bracket {o c : Char} (ho : closerOf? o = some c) (h : Closes (c :: d :: ds) r) :
    Closes (d :: ds) (o :: r) := by
  cases h with
  | @cons _ _ u _ hu behind =>
    cases behind with
    | @cons _ _ v r hv hr =>
      have shape : o :: (u ++ c :: (v ++ d :: r)) = o :: (u ++ c :: v) ++ d :: r := by simp
      rw [shape]
      exact .cons (.bracket ho hu hv) hr

end Closes

/-- What a scan reads that has closers due: it comes to the end of the literal that it is in, if it is
in one, and closes the brackets. -/
def ClosesFrom (expected : List Char) : Option Char → Text → Prop
  | none, t => Closes expected t
  | some q, t => ∃ inner rest, t = inner ++ q :: rest ∧ Quoted q inner ∧ Closes expected rest

theorem closingFrom_nil (expected : List Char) (quote : Option Char) :
    closingFrom expected quote [] = none := by
  cases quote <;> rfl

/-- **A scan stops behind a text that closes all brackets that are due.** -/
theorem closes_of_closingFrom {expected : List Char} {quote : Option Char} {t : Text} {n : Nat}
    (h : closingFrom expected quote t = some n) (due : expected ≠ []) :
    ClosesFrom expected quote (t.take (n + 1)) := by
  -- Every character goes to what is read in front of the first closer that is due.
  fun_induction closingFrom expected quote t generalizing n with
  | case1 => cases h
  | case2 expected q c r ih =>
    obtain ⟨m, hm, rfl⟩ := Option.map_eq_some_iff.mp h
    obtain ⟨inner, rest, e, quoted, closes⟩ := ih hm due
    refine ⟨'\\' :: c :: inner, rest, ?_, .escape quoted, closes⟩
    rw [List.take_succ_cons, List.take_succ_cons, e]
    rfl
  | case3 expected q c r notEscape ih =>
    obtain ⟨m, hm, rfl⟩ := Option.map_eq_some_iff.mp h
    have read := ih hm due
    rw [List.take_succ_cons]
    by_cases hc : c = q
    · rw [if_pos hc] at read
      exact ⟨[], _, by rw [hc]; rfl, .nil, read⟩
    · rw [if_neg hc] at read
      obtain ⟨inner, rest, e, quoted, closes⟩ := read
      have plain : c ≠ '\\' := by
        rintro rfl
        cases r with
        | nil => rw [closingFrom_nil] at hm; cases hm
        | cons x r => exact notEscape x r rfl rfl
      exact ⟨c :: inner, rest, by rw [e]; rfl, .char hc plain quoted, closes⟩
  | case4 expected c r hq ih =>
    obtain ⟨m, hm, rfl⟩ := Option.map_eq_some_iff.mp h
    obtain ⟨inner, rest, e, quoted, closes⟩ := ih hm due
    obtain ⟨d, ds, rfl⟩ := List.exists_cons_of_ne_nil due
    rw [List.take_succ_cons, e]
    exact closes.literal hq quoted
  | case5 expected c r _ d ho ih =>
    obtain ⟨m, hm, rfl⟩ := Option.map_eq_some_iff.mp h
    obtain ⟨e, es, rfl⟩ := List.exists_cons_of_ne_nil due
    rw [List.take_succ_cons]
    exact Closes.bracket ho (ih hm (List.cons_ne_nil _ _))
  | case6 => cases h
  | case7 r d ds last =>
    obtain rfl := Option.some.inj h
    obtain rfl := List.isEmpty_iff.mp last
    exact Closes.cons .nil .nil
  | case8 r d ds more _ _ _ ih =>
    obtain ⟨m, hm, rfl⟩ := Option.map_eq_some_iff.mp h
    rw [List.take_succ_cons]
    exact Closes.cons .nil (ih hm fun e => more (List.isEmpty_iff.mpr e))
  | case9 => cases h
  | case10 expected c r hq ho hc ih =>
    obtain ⟨m, hm, rfl⟩ := Option.map_eq_some_iff.mp h
    obtain ⟨d, ds, rfl⟩ := List.exists_cons_of_ne_nil due
    rw [List.take_succ_cons]
    exact Closes.char (Bool.eq_false_iff.mpr hq) ho (Bool.eq_false_iff.mpr hc) (ih hm due)

namespace Grouped

variable {u v w : Text}

theorem length_pos (h : Grouped v) : 0 < v.length := by
  cases h
  exact Nat.succ_pos _

theorem closing?_prefix (h : Grouped v) (hv : v <+: u) :
    Directive.closing? u = some (v.length - 1) := by
  obtain ⟨r, rfl⟩ := hv
  exact h.closing? r

/-- A text has at most one grouped beginning. -/
theorem eq_of_prefix (hv : Grouped v) (hw : Grouped w) (pv : v <+: u) (pw : w <+: u) : v = w := by
  have same := Option.some.inj ((hv.closing?_prefix pv).symm.trans (hw.closing?_prefix pw))
  have someV := hv.length_pos
  have someW := hw.length_pos
  have length : v.length = w.length := by omega
  exact (List.prefix_of_prefix_length_le pv pw (Nat.le_of_eq length)).eq_of_length length

end Grouped

/-- What stands up to the bracket that closes the first one is grouped. -/
theorem grouped_of_closing? {o c : Char} {r : Text} (ho : closerOf? o = some c) {n : Nat}
    (h : closing? (o :: r) = some n) : Grouped ((o :: r).take (n + 1)) := by
  rw [closing?, closingFrom, if_neg (by rw [not_isQuote_of_closerOf? ho]; decide), ho] at h
  obtain ⟨m, hm, rfl⟩ := Option.map_eq_some_iff.mp h
  have closes : Closes [c] (r.take (m + 1)) := closes_of_closingFrom hm (List.cons_ne_nil c [])
  rw [List.take_succ_cons]
  generalize r.take (m + 1) = v at closes
  cases closes with
  | cons balanced done =>
    cases done
    exact .intro ho balanced

/-- The bracket that closes the first one is the last one of the grouped beginning. -/
theorem closing?_eq_some_iff {o : Char} {r : Text} (ho : (closerOf? o).isSome) {n : Nat} :
    closing? (o :: r) = some n ↔ n < (o :: r).length ∧ Grouped ((o :: r).take (n + 1)) := by
  obtain ⟨c, hc⟩ := Option.isSome_iff_exists.mp ho
  constructor
  · intro h
    have grouped := grouped_of_closing? hc h
    have found := grouped.closing?_prefix (List.take_prefix _ _)
    rw [h] at found
    have last := Option.some.inj found
    have given := grouped.length_pos
    rw [List.length_take] at last given
    exact ⟨by omega, grouped⟩
  · rintro ⟨room, grouped⟩
    rw [grouped.closing?_prefix (List.take_prefix _ _), List.length_take, Nat.min_eq_left room]
    rfl

/-- **The scan for a closing bracket accepts the grammar of brackets.**  From an opening bracket on, a
bracket is found exactly if the stretch up to it is grouped, there is at most one such stretch, and
no bracket is found exactly if there is none. -/
theorem closing?_iff_grouped {t : Text} {i : Nat} {o : Char} (here : t[i]? = some o)
    (opens : (closerOf? o).isSome) :
    (∀ n, closing? (t.drop i) = some n ↔
      i + n < t.length ∧ Grouped (slice t i (i + n + 1))) ∧
    (∀ v w, v <+: t.drop i → w <+: t.drop i → Grouped v → Grouped w → v = w) ∧
    (closing? (t.drop i) = none ↔ ∀ v, v <+: t.drop i → ¬ Grouped v) := by
  obtain ⟨inside, e⟩ := List.getElem?_eq_some_iff.mp here
  have source : t.drop i = o :: t.drop (i + 1) := by rw [List.drop_eq_getElem_cons inside, e]
  have found : ∀ n, closing? (t.drop i) = some n ↔
      n < (t.drop i).length ∧ Grouped ((t.drop i).take (n + 1)) := by
    rw [source]
    exact fun n => closing?_eq_some_iff opens
  refine ⟨fun n => ?_, fun v w pv pw hv hw => hv.eq_of_prefix hw pv pw, ?_, ?_⟩
  · rw [found, slice, Nat.add_assoc, Nat.add_sub_cancel_left, List.length_drop]
    exact and_congr_left fun _ => ⟨fun h => by omega, fun h => by omega⟩
  · intro none v pv hv
    rw [hv.closing?_prefix pv] at none
    cases none
  · intro none
    refine Option.eq_none_iff_forall_ne_some.mpr fun n h => ?_
    exact none _ (List.take_prefix _ _) ((found n).mp h).2

/-- A bracket in a literal behind an escaped quote, brackets of all kinds, and one that stays open. -/
theorem closing?_iff_grouped_quotes :
    ("f(a['\\')'], \"]\") [(".toList)[1]? = some '(' ∧ (closerOf? '(').isSome ∧
      Grouped "(a['\\')'], \"]\")" ∧
      (∀ v, v <+: ("f(a['\\')'], \"]\") [(".toList).drop 17 → ¬ Grouped v) := by
  have closed := (closing?_iff_grouped (t := "f(a['\\')'], \"]\") [(") (i := 1) rfl rfl).1 14
  have open_ := (closing?_iff_grouped (t := "f(a['\\')'], \"]\") [(") (i := 17) rfl rfl).2.2
  exact ⟨rfl, rfl, (closed.mp (by decide)).2, open_.mp (by decide)⟩

end Pagewright.Directive

/-! ## String literals

A text is read as a string literal when two quotes of one kind enclose it, blanks aside, and what stands
between them has a value (`literal?_eq_some_iff`).  A literal in an argument list is read as one
argument (`arguments_shown`), whose value is known (`literal?_shown`), and it never disturbs the
brackets around it (`Literal.balanced`). -/

namespace Pagewright.Directive

open Text

/-- A string literal: a quote, and what stands between two of them. -/
structure Literal where
  quote : Char
  inner : Text
  isQuote : isQuote quote = true
  quoted : Quoted quote inner

/-! ### Inside of the quotes -/

theorem not_backslash_of_isQuote {q : Char} (h : isQuote q = true) : q ≠ '\\' := by
  obtain rfl | rfl := isQuote_eq_true.mp h <;> decide

theorem not_space_of_isQuote {q : Char} (h : isQuote q = true) : isSpace q = false := by
  obtain rfl | rfl := isQuote_eq_true.mp h <;> decide

theorem unescape?_cons {q c : Char} {t : Text} (hc : c ≠ q) (hb : c ≠ '\\') :
    unescape? q (c :: t) = (unescape? q t).map (c :: ·) := by
  rw [unescape?, if_neg hc]
  intro _ _ e _
  exact hb e

/-- What stands between quotes has a value. -/
theorem unescape?_quoted {q : Char} : ∀ {t : Text}, Quoted q t → ∃ v, unescape? q t = some v
  | _, .nil => ⟨[], rfl⟩
  | _, .char (c := c) hc hb h => by
      obtain ⟨v, hv⟩ := unescape?_quoted h
      exact ⟨c :: v, by rw [unescape?_cons hc hb, hv]; rfl⟩
  | _, .escape (c := c) h => by
      obtain ⟨v, hv⟩ := unescape?_quoted h
      exact ⟨c :: v, by rw [unescape?, hv]; rfl⟩

/-- Text without the quote and without backslashes is its own value. -/
theorem quoted_plain {q : Char} : ∀ {t : Text}, q ∉ t → '\\' ∉ t →
    Quoted q t ∧ unescape? q t = some t
  | [], _, _ => ⟨.nil, rfl⟩
  | c :: t, hq, hb => by
      have hcq : c ≠ q := fun e => hq (e ▸ List.mem_cons_self)
      have hcb : c ≠ '\\' := fun e => hb (e ▸ List.mem_cons_self)
      obtain ⟨ht, hv⟩ := quoted_plain (fun hm => hq (List.mem_cons_of_mem c hm))
        fun hm => hb (List.mem_cons_of_mem c hm)
      exact ⟨.char hcq hcb ht, by rw [unescape?_cons hcq hcb, hv]; rfl⟩

theorem Quoted.append {q : Char} {t u : Text} (ht : Quoted q t) (hu : Quoted q u) :
    Quoted q (t ++ u) := by
  induction ht with
  | nil => exact hu
  | char hc hb _ ih => exact .char hc hb ih
  | escape _ ih => exact .escape ih

/-! ### Splitting -/

theorem splitTopFrom_char (sep : Text) (depth : Nat) (q : Char) {c : Char} (r : Text)
    (hb : c ≠ '\\') :
    splitTopFrom sep depth (some q) 0 (c :: r) =
      (c :: (splitTopFrom sep depth (if c = q then none else some q) 0 r).1,
        (splitTopFrom sep depth (if c = q then none else some q) 0 r).2) := by
  rw [splitTopFrom.eq_def]
  simp only [hb, if_false]

theorem splitTopFrom_escape (sep : Text) (depth : Nat) (q c : Char) (r : Text) :
    splitTopFrom sep depth (some q) 0 ('\\' :: c :: r) =
      ('\\' :: c :: (splitTopFrom sep depth (some q) 0 r).1,
        (splitTopFrom sep depth (some q) 0 r).2) := by
  rw [splitTopFrom.eq_def]
  simp only [if_true]

/-- A literal is passed over, whatever separators stand in it. -/
theorem splitTopFrom_quoted (sep : Text) (depth : Nat) {q : Char} (hq : isQuote q = true)
    (r : Text) : ∀ {inner : Text}, Quoted q inner →
      splitTopFrom sep depth (some q) 0 (inner ++ q :: r) =
        (inner ++ q :: (splitTopFrom sep depth none 0 r).1, (splitTopFrom sep depth none 0 r).2)
  | _, .nil => by
      rw [List.nil_append, splitTopFrom_char sep depth q r (not_backslash_of_isQuote hq), if_pos rfl]
      rfl
  | _, .char (c := c) (t := t) hc hb h => by
      rw [List.cons_append, splitTopFrom_char sep depth q _ hb, if_neg hc,
        splitTopFrom_quoted sep depth hq r h]
      rfl
  | _, .escape (c := c) (t := t) h => by
      rw [List.cons_append, List.cons_append, splitTopFrom_escape,
        splitTopFrom_quoted sep depth hq r h]
      rfl

/-! ### Stripping -/

theorem stripLeft_eq_self {t : Text} (h : (t.head?.map isSpace).getD false = false) :
    stripLeft t = t := by
  cases t with
  | nil => rfl
  | cons c r =>
      refine List.dropWhile_cons_of_neg ?_
      exact fun e => Bool.false_ne_true (h.symm.trans e)

theorem stripRight_eq_self {t : Text} (h : (t.getLast?.map isSpace).getD false = false) :
    stripRight t = t := by
  have e : stripLeft t.reverse = t.reverse := stripLeft_eq_self (by rw [List.head?_reverse]; exact h)
  rw [stripRight]
  exact (congrArg List.reverse e).trans t.reverse_reverse

theorem strip_solid {t : Text} (solid : ∀ c ∈ t, isSpace c = false) : strip t = t := by
  have left : stripLeft t = t := by
    apply stripLeft_eq_self
    cases t with
    | nil => rfl
    | cons c t => exact solid c List.mem_cons_self
  rw [strip, left]
  apply stripRight_eq_self
  cases h : t.getLast? with
  | none => rfl
  | some c => exact solid c (List.mem_of_getLast? h)

theorem stripLeft_append {u t : Text} (hu : isBlank u = true)
    (ht : (t.head?.map isSpace).getD false = false) : stripLeft (u ++ t) = t := by
  rw [stripLeft, List.dropWhile_append_of_pos (List.all_eq_true.mp hu)]
  exact stripLeft_eq_self ht

theorem stripRight_append {t u : Text} (ht : (t.getLast?.map isSpace).getD false = false)
    (hu : isBlank u = true) : stripRight (t ++ u) = t := by
  have blank : isBlank u.reverse = true := by rw [isBlank, List.all_reverse]; exact hu
  have e : stripLeft (u.reverse ++ t.reverse) = t.reverse :=
    stripLeft_append blank (by rw [List.head?_reverse]; exact ht)
  rw [stripRight, List.reverse_append]
  exact (congrArg List.reverse e).trans t.reverse_reverse

/-- Of a text between two characters that are no white space, only the blanks around it are stripped. -/
theorem strip_delimited {lead inner trail : Text} {o c : Char} (hl : isBlank lead = true)
    (ht : isBlank trail = true) (ho : isSpace o = false) (hc : isSpace c = false) :
    strip (lead ++ (o :: (inner ++ [c]) ++ trail)) = o :: (inner ++ [c]) := by
  have left : stripLeft (lead ++ (o :: (inner ++ [c]) ++ trail)) = o :: (inner ++ [c]) ++ trail :=
    stripLeft_append hl ho
  have last : (o :: (inner ++ [c])).getLast? = some c := by
    rw [← List.cons_append, List.getLast?_concat]
  have right : stripRight (o :: (inner ++ [c]) ++ trail) = o :: (inner ++ [c]) :=
    stripRight_append (by rw [last]; exact hc) ht
  rw [strip, left, right]

/-! ### Literals -/

/-- **A text is a string literal exactly if** two quotes of one kind enclose it, blanks aside, and what
stands between them has a value, which is the value of the literal. -/
theorem literal?_eq_some_iff {t v : Text} : literal? t = some v ↔
    ∃ q inner, isQuote q = true ∧ strip t = q :: (inner ++ [q]) ∧ unescape? q inner = some v := by
  constructor
  · intro h
    unfold literal? at h
    split at h
    · next q inner e =>
      rw [Option.ite_none_right_eq_some] at h
      obtain ⟨quote, h⟩ := h
      split at h
      · next last ends =>
        rw [Option.ite_none_right_eq_some] at h
        obtain ⟨rfl, value⟩ := h
        obtain ⟨u, rfl⟩ := List.getLast?_eq_some_iff.mp ends
        rw [List.dropLast_concat] at value
        exact ⟨last, u, quote, e, value⟩
      · cases h
    · cases h
  · rintro ⟨q, inner, quote, shape, value⟩
    unfold literal?
    rw [shape]
    simp only [quote, if_true, List.getLast?_concat, List.dropLast_concat, value]

namespace Literal

/-- A literal as it is written. -/
def shown (l : Literal) : Text := l.quote :: (l.inner ++ [l.quote])

/-- The text that a literal stands for. -/
def value (l : Literal) : Text := (unescape? l.quote l.inner).getD []

/-- The literal in single quotes of a text without these and without backslashes. -/
def single (t : Text) (ht : '\'' ∉ t) (hb : '\\' ∉ t) : Literal :=
  ⟨'\'', t, rfl, (quoted_plain ht hb).1⟩

variable (l : Literal)

theorem balanced : Balanced l.shown := .literal l.isQuote l.quoted .nil

theorem getLast?_shown : l.shown.getLast? = some l.quote := by
  rw [shown, ← List.cons_append, List.getLast?_concat]

theorem strip_shown : strip l.shown = l.shown := by
  have solid := not_space_of_isQuote l.isQuote
  have bare := @strip_delimited [] l.inner [] _ _ rfl rfl solid solid
  rwa [List.nil_append, List.append_nil] at bare

/-- **A literal has its value.** -/
theorem literal?_shown : literal? l.shown = some l.value := by
  obtain ⟨v, hv⟩ := unescape?_quoted l.quoted
  refine literal?_eq_some_iff.mpr ⟨l.quote, l.inner, l.isQuote, l.strip_shown, ?_⟩
  rw [value, hv, Option.getD_some]

theorem splitTopFrom_shown (sep r : Text) (depth : Nat) :
    splitTopFrom sep depth none 0 (l.shown ++ r) =
      (l.shown ++ (splitTopFrom sep depth none 0 r).1, (splitTopFrom sep depth none 0 r).2) := by
  rw [shown, List.cons_append, splitTopFrom]
  simp only [l.isQuote, if_true]
  rw [List.append_assoc, List.singleton_append, splitTopFrom_quoted sep depth l.isQuote r l.quoted,
    List.cons_append, List.append_assoc, List.singleton_append]

theorem not_isBlank (r : Text) : isBlank (l.shown ++ r) = false := by
  rw [shown, List.cons_append, isBlank, List.all_cons, not_space_of_isQuote l.isQuote,
    Bool.false_and]

/-- **A literal alone is one argument.** -/
theorem arguments_shown : arguments l.shown = [l.shown] := by
  have hb := l.not_isBlank []
  have hs := l.splitTopFrom_shown "," [] 0
  rw [List.append_nil] at hb hs
  rw [arguments, if_neg (by rw [hb]; simp), splitTop, hs]
  simp only [splitTopFrom, List.append_nil, List.map_cons, List.map_nil, strip_shown]

end Literal

end Pagewright.Directive
