import Pagewright.Directive.Bracket

/-! # The characters of derived texts

Stripping, splitting into words and splitting at separators only take characters away, and joining
adds those of the separator.  A character that a text does not hold is therefore not in any of its
pieces, nor in what they are joined to.  Numbers hold digits only, and are read back from them
(`natOfDigits?_ofNat`). -/

namespace Pagewright

open Text Directive

namespace Text

/-- What holds of all characters of a fixed text is found out by going through it. -/
theorem forall_mem_text {t : Text} {P : Char → Prop} [DecidablePred P]
    (h : t.all (fun c => decide (P c)) = true) : ∀ c ∈ t, P c :=
  fun c hc => of_decide_eq_true (List.all_eq_true.mp h c hc)

theorem mem_of_mem_stripLeft {c : Char} {t : Text} (h : c ∈ stripLeft t) : c ∈ t :=
  (List.dropWhile_sublist isSpace).subset h

theorem mem_of_mem_strip {c : Char} {t : Text} (h : c ∈ strip t) : c ∈ t := by
  have h' := (List.dropWhile_sublist isSpace).subset (List.mem_reverse.mp h)
  exact mem_of_mem_stripLeft (List.mem_reverse.mp h')

theorem join_cons_cons (sep a b : Text) (ts : List Text) :
    join sep (a :: b :: ts) = a ++ (sep ++ join sep (b :: ts)) := by
  simp [join, List.intercalate]

theorem mem_join {c : Char} {sep : Text} : ∀ {ts : List Text}, c ∈ join sep ts →
    c ∈ sep ∨ ∃ t ∈ ts, c ∈ t
  | [], h => by simp [join, List.intercalate] at h
  | [t], h => by
      have ht : c ∈ t := by simpa [join, List.intercalate] using h
      exact Or.inr ⟨t, List.mem_cons_self, ht⟩
  | a :: b :: ts, h => by
      rw [join_cons_cons, List.mem_append, List.mem_append] at h
      obtain ha | hs | hr := h
      · exact Or.inr ⟨a, List.mem_cons_self, ha⟩
      · exact Or.inl hs
      · obtain hs | ⟨t, ht, hc⟩ := mem_join hr
        · exact Or.inl hs
        · exact Or.inr ⟨t, List.mem_cons_of_mem a ht, hc⟩

theorem mem_of_mem_wordsAux {c : Char} : ∀ {t : Text},
    (c ∈ (wordsAux t).1 → c ∈ t) ∧ ∀ w ∈ (wordsAux t).2, c ∈ w → c ∈ t
  | [] => by simp [wordsAux]
  | d :: r => by
      obtain ⟨h1, h2⟩ := mem_of_mem_wordsAux (c := c) (t := r)
      cases e : wordsAux r with
      | mk word rest =>
          rw [e] at h1 h2
          rw [wordsAux, e]
          simp only
          split
          · refine ⟨fun h => absurd h List.not_mem_nil, fun w hw hc => List.mem_cons_of_mem d ?_⟩
            split at hw
            · exact h2 w hw hc
            · obtain rfl | hw := List.mem_cons.mp hw
              · exact h1 hc
              · exact h2 w hw hc
          · refine ⟨fun h => ?_, fun w hw hc => List.mem_cons_of_mem d (h2 w hw hc)⟩
            obtain rfl | h := List.mem_cons.mp h
            · exact List.mem_cons_self
            · exact List.mem_cons_of_mem d (h1 h)

theorem mem_of_mem_words {c : Char} {t w : Text} (hw : w ∈ words t) (h : c ∈ w) : c ∈ t := by
  obtain ⟨h1, h2⟩ := mem_of_mem_wordsAux (c := c) (t := t)
  unfold words at hw
  simp only at hw
  split at hw
  · exact h2 w hw h
  · obtain rfl | hw := List.mem_cons.mp hw
    · exact h1 h
    · exact h2 w hw h

theorem isDigit_of_mem_ofNat {c : Char} {n : Nat} (h : c ∈ ofNat n) : c.isDigit = true :=
  Nat.isDigit_of_mem_toDigits (by decide) (by decide) h

/-- A character that is no hexadecimal digit is not in a number in hexadecimal digits. -/
theorem not_mem_toDigits {x : Char} (digit : ∀ d < 16, x ≠ Nat.digitChar d) (n : Nat) :
    x ∉ Nat.toDigits 16 n := by
  induction n using Nat.strongRecOn with
  | ind n ih =>
    rw [Nat.toDigits_eq_if (by decide)]
    split
    · next hn => exact fun h => digit n hn (List.mem_singleton.mp h)
    · next hn =>
      refine List.not_mem_append (ih (n / 16) (by omega)) fun h => ?_
      exact digit (n % 16) (Nat.mod_lt n (by decide)) (List.mem_singleton.mp h)

/-! ### Numbers in decimal digits -/

theorem isDecimal_of_isDigit {c : Char} (h : c.isDigit = true) :
    isDecimal c = true ∧ digitValue? c = some (c.toNat - 48) := by
  have hb := Char.isDigit_iff_toNat.mp h
  have hs : c.toNat < 128 := by
    have hn : c.toNat ≤ '9'.toNat := hb.2
    exact Nat.lt_of_le_of_lt hn (by decide)
  have ha : isAsciiDigit c = true := h
  refine ⟨?_, ?_⟩
  · rw [isDecimal, if_pos hs, ha]
  · rw [digitValue?, if_pos hs, if_pos ha]

/-- A digit is not blank. -/
theorem not_space_of_isDecimal {c : Char} (h : isDecimal c = true) : isSpace c = false := by
  refine Bool.eq_false_iff.mpr fun blank => ?_
  simp only [isSpace, Bool.or_eq_true, beq_iff_eq, Bool.and_eq_true, decide_eq_true_eq] at blank
  unfold isDecimal at h
  split at h
  · next small =>
    rw [isAsciiDigit, Bool.and_eq_true, decide_eq_true_eq, decide_eq_true_eq] at h
    have low : 48 ≤ c.toNat := Char.le_def.mp h.1
    have high : c.toNat ≤ 57 := Char.le_def.mp h.2
    omega
  · next large =>
    have spaces : ∀ n ∈ [0x85, 0xA0, 0x1680, 0x2028, 0x2029, 0x202F, 0x205F, 0x3000] ++
        List.range' 0x2000 11, Table.member Table.decimal n = false := by decide +kernel
    have listed : c.toNat ∈ [0x85, 0xA0, 0x1680, 0x2028, 0x2029, 0x202F, 0x205F, 0x3000] ++
        List.range' 0x2000 11 := by
      simp only [List.mem_append, List.mem_cons, List.not_mem_nil, or_false, List.mem_range'_1]
      omega
    rw [spaces _ listed] at h
    cases h
theorem foldl_digits : ∀ {t : Text} (n : Nat), (∀ c ∈ t, c.isDigit = true) →
    t.foldl (fun acc c => do return (← acc) * 10 + (← digitValue? c)) (some n) =
      some (Nat.ofDigitChars 10 t n)
  | [], n, _ => by rw [Nat.ofDigitChars_nil]; rfl
  | c :: t, n, h => by
      have hd := (isDecimal_of_isDigit (h c List.mem_cons_self)).2
      rw [List.foldl_cons, Nat.ofDigitChars_cons, Nat.mul_comm, hd]
      exact foldl_digits _ fun d hm => h d (List.mem_cons_of_mem c hm)

/-- A number is read back from its digits. -/
theorem natOfDigits?_ofNat (n : Nat) : natOfDigits? (ofNat n) = some n := by
  have he : ¬ (ofNat n).isEmpty = true := by
    rw [List.isEmpty_iff]
    exact Nat.toDigits_ne_nil
  unfold natOfDigits?
  rw [if_neg he, foldl_digits 0 fun c hc => isDigit_of_mem_ofNat hc]
  exact congrArg some Nat.ofDigitChars_ten_toDigits

/-- The digits of a number end where something else follows. -/
theorem takeWhile_ofNat_of_not {x : Char} (hx : isDecimal x = false) (n : Nat) (r : Text) :
    (ofNat n ++ x :: r).takeWhile isDecimal = ofNat n := by
  rw [List.takeWhile_append_of_pos fun c hc => (isDecimal_of_isDigit (isDigit_of_mem_ofNat hc)).1,
    List.takeWhile_cons_of_neg (Bool.eq_false_iff.mp hx), List.append_nil]

theorem takeWhile_ofNat (n : Nat) (r : Text) :
    (ofNat n ++ '\x00' :: r).takeWhile isDecimal = ofNat n :=
  takeWhile_ofNat_of_not (by decide) n r

/-- A number can be told from its digits and what follows them. -/
theorem ofNat_append_inj {x : Char} (hx : isDecimal x = false) {n m : Nat} {r s : Text}
    (h : ofNat n ++ x :: r = ofNat m ++ x :: s) : n = m ∧ r = s := by
  have digits := congrArg (List.takeWhile isDecimal) h
  rw [takeWhile_ofNat_of_not hx, takeWhile_ofNat_of_not hx] at digits
  have numbers := congrArg natOfDigits? digits
  rw [natOfDigits?_ofNat, natOfDigits?_ofNat] at numbers
  obtain rfl := Option.some.inj numbers
  exact ⟨rfl, (List.cons.inj (List.append_cancel_left h)).2⟩

end Text

namespace Directive

theorem mem_of_mem_splitTopFrom {c : Char} (sep : Text) : ∀ (depth : Nat) (quote : Option Char)
    (skip : Nat) (t : Text),
    (c ∈ (splitTopFrom sep depth quote skip t).1 → c ∈ t) ∧
      ∀ p ∈ (splitTopFrom sep depth quote skip t).2, c ∈ p → c ∈ t := by
  intro depth quote skip t
  fun_induction splitTopFrom sep depth quote skip t with
  | case1 => simp
  | case2 depth quote k d r ih =>
      exact ⟨fun h => List.mem_cons_of_mem d (ih.1 h),
        fun p hp h => List.mem_cons_of_mem d (ih.2 p hp h)⟩
  | _ => grind

/-- The pieces of a text hold characters of the text only. -/
theorem mem_of_mem_splitTop {c : Char} {sep t p : Text} (hp : p ∈ splitTop sep t) (h : c ∈ p) :
    c ∈ t := by
  obtain ⟨h1, h2⟩ := mem_of_mem_splitTopFrom (c := c) sep 0 none 0 t
  obtain ⟨q, hq, rfl⟩ := List.mem_map.mp hp
  have hc := mem_of_mem_strip h
  obtain rfl | hq := List.mem_cons.mp hq
  · exact h1 hc
  · exact h2 q hq hc

end Directive

end Pagewright
