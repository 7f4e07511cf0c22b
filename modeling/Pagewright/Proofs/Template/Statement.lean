import Pagewright.Proofs.Lowering.RawBlock
import Pagewright.Proofs.Template.Opening
import Pagewright.Proofs.Template.Pieces

/-! # Statements made of words

A statement that holds words only is read as the names that the words are (`scan_words`), and open
text in front of it as data (`scan_statement`).  So a template of open text and such statements is
read piece by piece (`tokenize_statements`), in a dialect that drops no white space.

Main definitions: `worded`, `statements`, `Stated`, `lexemes`. -/

namespace Pagewright.Template

open Text
open Lowering (Lettered)

/-! ### Words -/

/-- What an ASCII letter is not, and what it is, inside a tag. -/
theorem isName_of_isAsciiLetter {c : Char} (h : isAsciiLetter c = true) :
    isNameStart c = true ∧ isNamePart c = true ∧ isDecimal c = false ∧ isAsciiDigit c = false := by
  have letter := h
  rw [isAsciiLetter, Bool.or_eq_true, Bool.and_eq_true, Bool.and_eq_true, decide_eq_true_eq,
    decide_eq_true_eq, decide_eq_true_eq, decide_eq_true_eq] at h
  have range : (97 ≤ c.toNat ∧ c.toNat ≤ 122) ∨ (65 ≤ c.toNat ∧ c.toNat ≤ 90) := h
  have small : c.toNat < 128 := by omega
  have digit : isAsciiDigit c = false := by
    have bounds : ¬ (48 ≤ c.toNat ∧ c.toNat ≤ 57) := by omega
    rw [isAsciiDigit, Bool.and_eq_false_iff, decide_eq_false_iff_not, decide_eq_false_iff_not]
    exact Decidable.not_and_iff_not_or_not.mp bounds
  refine ⟨?_, ?_, ?_, digit⟩
  · rw [isNameStart, if_pos small, letter, Bool.or_true]
  · rw [isNamePart, if_pos small, letter, Bool.or_true, Bool.true_or]
  · rw [isDecimal, if_pos small, digit]

theorem digitRunLength_of_not {p : Char → Bool} {c : Char} (h : p c = false) (r : Text) :
    digitRunLength p (c :: r) = 0 := by
  unfold digitRunLength
  split
  · next e => cases e
  · next e =>
    obtain ⟨rfl, -⟩ := List.cons.inj e
    rw [h]
    rfl
  · next e =>
    obtain ⟨rfl, -⟩ := List.cons.inj e
    rw [h]
    rfl
  · next e =>
    obtain ⟨rfl, -⟩ := List.cons.inj e
    rw [h]
    rfl

theorem integerLength_of_not {c : Char} (h : isAsciiDigit c = false) (r : Text) :
    (integerLength (c :: r)).1 = 0 := by
  unfold integerLength
  split
  · next e =>
    obtain ⟨rfl, -⟩ := List.cons.inj e
    cases h
  · next e =>
    obtain ⟨rfl, -⟩ := List.cons.inj e
    cases h
  · next e =>
    obtain ⟨rfl, -⟩ := List.cons.inj e
    rw [if_neg]
    rintro ⟨least, most⟩
    have digit : isAsciiDigit c = true := by
      rw [isAsciiDigit, Bool.and_eq_true, decide_eq_true_eq, decide_eq_true_eq]
      exact ⟨Char.le_trans (by decide) least, most⟩
    exact Bool.false_ne_true (h.symm.trans digit)
  · rfl

/-- A word is read as a name. -/
theorem lexeme?_word {w r : Text} (hw : Lettered w)
    (hr : (r.head?.map isNameLike).getD false = false)
    {c : Cursor} (hc : c.rest = w ++ r) : lexeme? c = some (.name w, w.length) := by
  have like : w.all isNameLike = true := List.all_eq_true.mpr fun d hd => by
    rw [isNameLike, (isName_of_isAsciiLetter (hw.isAsciiLetter hd)).2.1, Bool.or_true]
  have word : (w ++ r).takeWhile isNameLike = w := Directive.takeWhile_append_stop like hr
  obtain ⟨d, w, rfl⟩ := List.exists_cons_of_ne_nil hw.given
  obtain ⟨start, -, decimal, digit⟩ :=
    isName_of_isAsciiLetter (hw.isAsciiLetter List.mem_cons_self)
  have identifier : isIdentifier (d :: w) = true := by
    rw [isIdentifier, start, Bool.true_and]
    exact List.all_eq_true.mpr fun e he =>
      (isName_of_isAsciiLetter (hw.isAsciiLetter (List.mem_cons_of_mem d he))).2.1
  have fraction : decimalLength c.before (d :: w ++ r) = 0 := by
    unfold decimalLength
    rw [List.cons_append, digitRunLength_of_not decimal]
    split <;> rfl
  have integer : (integerLength (d :: w ++ r)).1 = 0 := integerLength_of_not digit (w ++ r)
  unfold lexeme?
  simp only [hc, fraction, integer, word, Nat.lt_irrefl, if_false, identifier, if_true,
    List.isEmpty_cons, Bool.not_false]

/-! ### Inside a tag -/

theorem closing?_of_not_mem {c : Char} (h : c ∉ "-+%".toList) (r : Text) :
    closing? tagStop true false (c :: r) = none := by
  have apart : c ≠ '-' ∧ c ≠ '+' ∧ c ≠ '%' := by simpa using h
  have direct : closing?.direct tagStop false (c :: r) = none := by
    have stop : dropLead? tagStop (c :: r) = none := dropLead?_cons_of_ne _ r apart.2.2.symm
    unfold closing?.direct
    rw [stop]
    rfl
  rw [closing?_cons, if_neg apart.1, if_neg fun h => apart.2.1 h.1, direct]
  rfl

/-- A blank inside a tag is passed over. -/
theorem scan_blank {d : Dialect} (hd : Exact d) (fuel : Nat) {c : Cursor} {r : Text}
    (hc : c.rest = ' ' :: r) (hr : (r.head?.map isSpace).getD false = false) :
    scan d (fuel + 1) (.inside false []) c = scan d fuel (.inside false []) (c.advance 1) := by
  have run : ([' '] ++ r).takeWhile isSpace = [' '] :=
    Directive.takeWhile_append_stop (by decide) hr
  have blanks : runLength isSpace (' ' :: r) = 1 := congrArg List.length run
  rw [scan.eq_def]
  simp only [hc, List.isEmpty_cons, List.isEmpty_nil, Bool.false_eq_true, if_false, if_true, hd.trim,
    closing?_of_not_mem (by decide : ' ' ∉ "-+%".toList), blanks, Nat.lt_one_iff]

theorem not_mem_of_isAsciiLetter {c : Char} (h : isAsciiLetter c = true) : c ∉ "-+%".toList := by
  intro hm
  obtain rfl | rfl | rfl : c = '-' ∨ c = '+' ∨ c = '%' := by simpa using hm
  all_goals cases h

/-- A word inside a tag is read as a name. -/
theorem scan_word {d : Dialect} (hd : Exact d) (fuel : Nat) {c : Cursor} {w r : Text}
    (hw : Lettered w) (hc : c.rest = w ++ ' ' :: r) :
    scan d (fuel + 1) (.inside false []) c =
      ⟨c.line, .name w⟩ :: scan d fuel (.inside false []) (c.advance w.length) := by
  have name := lexeme?_word hw (r := ' ' :: r) (by decide : isNameLike ' ' = false) hc
  obtain ⟨x, w, rfl⟩ := List.exists_cons_of_ne_nil hw.given
  have letter := hw.isAsciiLetter List.mem_cons_self
  have unspaced := (Lowering.isSpace_of_isAsciiLetter letter).2
  have blanks : runLength isSpace (x :: (w ++ ' ' :: r)) = 0 := by
    rw [runLength, List.takeWhile_cons_of_neg (by rw [unspaced]; exact Bool.false_ne_true)]
    rfl
  rw [List.cons_append] at hc
  rw [scan.eq_def]
  simp only [hc, List.isEmpty_cons, List.isEmpty_nil, Bool.false_eq_true, if_false, if_true, hd.trim,
    closing?_of_not_mem (not_mem_of_isAsciiLetter letter), blanks, Nat.lt_irrefl, name]

/-- The end of a tag. -/
theorem scan_tagClose {d : Dialect} (hd : Exact d) (fuel : Nat) {c : Cursor} {r : Text}
    (hc : c.rest = "%\x7d" ++ r) :
    scan d (fuel + 1) (.inside false []) c =
      ⟨c.line, .tagClose⟩ :: scan d fuel .outside (c.advance 2) := by
  have close : closing? tagStop true false ("%\x7d" ++ r) = some r := rfl
  have length : ("%\x7d".toList ++ r).length - r.length = 2 := by
    rw [List.length_append, Nat.add_sub_cancel]
    rfl
  have given : ("%\x7d".toList ++ r).isEmpty = false := rfl
  rw [scan.eq_def]
  simp only [hc, given, List.isEmpty_nil, Bool.false_eq_true, if_false, if_true, hd.trim, close,
    length]

/-- Words inside a tag, each behind a blank. -/
def spaced (ws : List Text) : Text := ws.flatMap (' ' :: ·)

/-- The words of a tag are followed by a blank. -/
theorem exists_blank_spaced (ws : List Text) (r : Text) :
    ∃ rest, spaced ws ++ (" %\x7d" ++ r) = ' ' :: rest := by
  cases ws with
  | nil => exact ⟨_, rfl⟩
  | cons w ws => exact ⟨_, rfl⟩

/-- **The words of a tag are read as names**, up to the end of the tag. -/
theorem scan_words {d : Dialect} (hd : Exact d) (fuel : Nat) {r : Text} : ∀ {ws : List Text}
    (c : Cursor), (∀ w ∈ ws, Lettered w) → c.rest = spaced ws ++ (" %\x7d" ++ r) →
      ∃ ts c', c'.rest = r ∧
        scan d (fuel + 2 * (ws.length + 1)) (.inside false []) c = ts ++ scan d fuel .outside c' ∧
        ts.map Token.lexeme = ws.map .name ++ [.tagClose]
  | [], c, _, hc => by
      have hc₁ : (c.advance 1).rest = "%\x7d".toList ++ r := rest_advance (u := [' ']) hc
      have blank := scan_blank hd (fuel + 1) hc (by decide : isSpace '%' = false)
      have close := scan_tagClose hd fuel hc₁
      refine ⟨[⟨(c.advance 1).line, .tagClose⟩], (c.advance 1).advance 2, rest_advance hc₁, ?_, rfl⟩
      exact blank.trans close
  | w :: ws, c, hw, hc => by
      obtain ⟨first, others⟩ := List.forall_mem_cons.mp hw
      obtain ⟨rest, hrest⟩ := exists_blank_spaced ws r
      have hc₀ : c.rest = ' ' :: (w ++ ' ' :: rest) := by
        rw [hc, ← hrest, spaced, List.flatMap_cons, spaced, List.append_assoc]
        rfl
      have hc₁ : (c.advance 1).rest = w ++ ' ' :: rest := rest_advance (u := [' ']) hc₀
      obtain ⟨ts, c', hc', scanned, names⟩ := scan_words hd fuel ((c.advance 1).advance w.length)
        others ((rest_advance hc₁).trans hrest.symm)
      have unspaced : ((w ++ ' ' :: rest).head?.map isSpace).getD false = false := by
        obtain ⟨x, w, rfl⟩ := List.exists_cons_of_ne_nil first.given
        exact (Lowering.isSpace_of_isAsciiLetter (first.isAsciiLetter List.mem_cons_self)).2
      have blank := scan_blank hd (fuel + 2 * (ws.length + 1) + 1) hc₀ unspaced
      have word := scan_word hd (fuel + 2 * (ws.length + 1)) first hc₁
      refine ⟨⟨(c.advance 1).line, .name w⟩ :: ts, c', hc', ?_, ?_⟩
      · rw [scanned] at word
        exact blank.trans word
      · rw [List.map_cons, names]
        rfl

/-! ### Statements -/

/-- A statement that holds words only. -/
def worded (ws : List Text) : Text := "\x7b%" ++ (spaced ws ++ " %\x7d")

/-- The words of a statement: there are some, all of plain letters, and they open no raw block. -/
structure Wording (ws : List Text) : Prop where
  lettered : ∀ w ∈ ws, Lettered w
  lead : ∃ w more, ws = w :: more ∧ ¬ "raw".toList <+: w

theorem worded_append (ws : List Text) (r : Text) :
    worded ws ++ r = "\x7b%" ++ (spaced ws ++ (" %\x7d" ++ r)) := by
  simp only [worded, List.append_assoc]

theorem opening?_worded {d : Dialect} (hd : Usual d) {ws : List Text} (hw : Wording ws) (r : Text) :
    opening? d (worded ws ++ r) = some ((.tag, .plain), 2) := by
  obtain ⟨w, more, rfl, lead⟩ := hw.lead
  obtain ⟨rest, hrest⟩ := exists_blank_spaced more r
  have shape : worded (w :: more) ++ r = '\x7b' :: '%' :: ' ' :: (w ++ ' ' :: rest) := by
    rw [worded_append, spaced, List.flatMap_cons, List.append_assoc, ← spaced, hrest]
    rfl
  have lettered := hw.lettered w List.mem_cons_self
  have unspaced : stripLeft (' ' :: (w ++ ' ' :: rest)) = w ++ ' ' :: rest := by
    obtain ⟨x, w, rfl⟩ := List.exists_cons_of_ne_nil lettered.given
    have letter := (Lowering.isSpace_of_isAsciiLetter (lettered.isAsciiLetter List.mem_cons_self)).2
    exact (List.dropWhile_cons_of_pos (by decide)).trans
      (List.dropWhile_cons_of_neg (by rw [letter]; exact Bool.false_ne_true))
  have other : dropLead? "raw" (w ++ ' ' :: rest) = none :=
    dropLead?_eq_none.mpr fun hp => lead (prefix_of_not_mem (by decide) hp)
  have raw : rawOpening? ('\x7b' :: '%' :: ' ' :: (w ++ ' ' :: rest)) = none := by
    have read : rawOpening? ('\x7b' :: '%' :: ' ' :: (w ++ ' ' :: rest)) =
        (dropLead? "raw" (stripLeft (' ' :: (w ++ ' ' :: rest)))).bind _ := rfl
    rw [read, unspaced, other]
    rfl
  unfold opening?
  rw [shape, raw, openings_usual hd]
  rfl

/-- **A statement is read as the names that its words are**, and the open text in front of it as
data. -/
theorem scan_statement {d : Dialect} (hd : Exact d) {u r : Text} {ws : List Text} (hu : Unopened u)
    (hl : u.getLast? ≠ some '\x7b') (hw : Wording ws) (fuel : Nat) (c : Cursor)
    (hc : c.rest = u ++ (worded ws ++ r)) :
    ∃ ts c', c'.rest = r ∧ scan d (fuel + 2 * (ws.length + 1) + 1) .outside c =
        dataToken c.line u ++ (ts ++ scan d fuel .outside c') ∧
      ts.map Token.lexeme = .tagOpen :: (ws.map .name ++ [.tagClose]) := by
  have outside := scan_outside (fuel + 2 * (ws.length + 1)) c hc
    (List.append_ne_nil_of_left_ne_nil (List.cons_ne_nil _ _) r) (opening?_worded hd.usual hw r)
    (hu.quiet hd.usual hl _)
  have behind : (c.advance (u.length + 2)).rest = spaced ws ++ (" %\x7d" ++ r) := by
    rw [worded_append, ← List.append_assoc] at hc
    have after := rest_advance hc
    rwa [List.length_append] at after
  obtain ⟨ts, c', hc', scanned, names⟩ := scan_words hd fuel _ hw.lettered behind
  refine ⟨⟨(c.advance u.length).line, .tagOpen⟩ :: ts, c', hc', ?_, by rw [List.map_cons, names]⟩
  rw [outside, hd.trimmedData, scanOpened, scanned]
  rfl

/-- Open text, and statements of words with the open text behind each of them, as a template. -/
def statements (u : Text) : List (List Text × Text) → Text
  | [] => u
  | (ws, v) :: rest => u ++ (worded ws ++ statements v rest)

/-- Open text and statements that can be told apart: no delimiter opens in open text or runs into a
tag. -/
def Stated (u : Text) : List (List Text × Text) → Prop
  | [] => Unopened u
  | (ws, v) :: rest => Unopened u ∧ u.getLast? ≠ some '\x7b' ∧ Wording ws ∧ Stated v rest

/-- What open text and statements are read as. -/
def lexemes (u : Text) : List (List Text × Text) → List Lexeme
  | [] => (onePiece u).map .data
  | (ws, v) :: rest =>
    (onePiece u).map .data ++ (.tagOpen :: (ws.map .name ++ [.tagClose]) ++ lexemes v rest)

theorem length_spaced : ∀ {ws : List Text}, (∀ w ∈ ws, Lettered w) →
    2 * ws.length ≤ (spaced ws).length
  | [], _ => Nat.le_refl 0
  | w :: ws, h => by
      obtain ⟨first, others⟩ := List.forall_mem_cons.mp h
      have given := List.length_pos_iff.mpr first.given
      have ih := length_spaced others
      rw [spaced, List.flatMap_cons, List.length_append, ← spaced, List.length_cons,
        List.length_cons]
      omega

/-- The reader takes open text as data and statements as names. -/
theorem scan_statements {d : Dialect} (hd : Exact d) : ∀ {rest : List (List Text × Text)} {u : Text}
    (fuel : Nat) (c : Cursor), Stated u rest → c.rest = statements u rest →
    (statements u rest).length < fuel →
      ∃ ts line, scan d fuel .outside c = ts ++ [⟨line, .eof⟩] ∧
        ts.map Token.lexeme = lexemes u rest
  | [], u, fuel, c, h, hc, hf => by
      obtain ⟨line, read⟩ := scan_open hd.usual h fuel c hc hf
      exact ⟨dataToken c.line u, line, read, spells_dataToken c.line u⟩
  | (ws, v) :: rest, u, fuel, c, h, hc, hf => by
      obtain ⟨hu, hl, hw, hv⟩ := h
      have words := length_spaced hw.lettered
      have long : (worded ws).length = (spaced ws).length + 5 := by
        rw [worded, List.length_append, List.length_append]
        show 2 + ((spaced ws).length + 3) = _
        omega
      rw [statements, List.length_append, List.length_append, long] at hf
      obtain ⟨fuel, rfl⟩ : ∃ k, fuel = k + 2 * (ws.length + 1) + 1 :=
        ⟨fuel - (2 * (ws.length + 1) + 1), by omega⟩
      obtain ⟨ts, c', hc', step, names⟩ := scan_statement hd hu hl hw fuel c hc
      obtain ⟨more, line, behind, read⟩ := scan_statements hd fuel c' hv hc' (by omega)
      refine ⟨dataToken c.line u ++ (ts ++ more), line, ?_, ?_⟩
      · rw [step, behind, List.append_assoc, List.append_assoc]
      · rw [List.map_append, List.map_append, spells_dataToken, names, read]
        rfl

theorem eof_not_mem_lexemes : ∀ (u : Text) (rest : List (List Text × Text)),
    Lexeme.eof ∉ lexemes u rest
  | u, [] => by simp [lexemes]
  | u, (ws, v) :: rest => by
      have ih := eof_not_mem_lexemes v rest
      simp [lexemes, ih]

/-- **A template of open text and statements** is read as data and names. -/
theorem tokenize_statements {d : Dialect} (hd : Exact d) {u : Text} {rest : List (List Text × Text)}
    (h : Stated u rest) (hr : '\r' ∉ statements u rest) :
    ∃ ts line, tokenize d (statements u rest) = ts ++ [⟨line, .eof⟩] ∧
      ts.map Token.lexeme = lexemes u rest := by
  obtain ⟨ts, last, scanned, read⟩ := scan_statements hd ((statements u rest).length + 1)
    ⟨0, 1, none, true, statements u rest⟩ h rfl (Nat.lt_succ_self _)
  obtain ⟨line, tokens⟩ := tokenize_of_scan hd.usual hr scanned fun t ht e =>
    eof_not_mem_lexemes u rest (read ▸ e ▸ List.mem_map_of_mem ht)
  exact ⟨ts, line, tokens, read⟩

end Pagewright.Template
