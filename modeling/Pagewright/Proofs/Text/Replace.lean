import Pagewright.Proofs.Text.Letters
import Pagewright.Proofs.Text.Scan

/-! # Replacing all occurrences

Replacing goes over a text from left to right (`replaceAll_hit`, `replaceAll_char`): it takes one
occurrence, or passes one character at which none begins.  A character that the old text does not
hold parts the text into two that are replaced on their own (`replaceAll_parted`).  In the other
direction, what the new text can have no part in was there before: a character of its own cuts the
original (`replaceAll_cut`), and a whole stretch is found there again (`infix_of_replaceAll`). -/

namespace Pagewright.Text

/-! ### Characters -/

theorem mem_of_mem_splitFrom {c : Char} (sep : Text) : ∀ (skip : Nat) (t : Text),
    (c ∈ (splitFrom sep skip t).1 → c ∈ t) ∧ ∀ p ∈ (splitFrom sep skip t).2, c ∈ p → c ∈ t := by
  intro skip t
  fun_induction splitFrom sep skip t with
  | case1 => simp
  | _ => grind

/-- A replaced text holds characters of the text and of what was put in. -/
theorem mem_replaceAll {c : Char} {old new t : Text} (h : c ∈ replaceAll old new t) :
    c ∈ new ∨ c ∈ t := by
  obtain h | ⟨p, hp, h⟩ := mem_join h
  · exact Or.inl h
  · unfold splitOn at hp
    split at hp
    · exact Or.inr (List.mem_singleton.mp hp ▸ h)
    · obtain ⟨h1, h2⟩ := mem_of_mem_splitFrom (c := c) old 0 t
      obtain rfl | hp := List.mem_cons.mp hp
      · exact Or.inr (h1 h)
      · exact Or.inr (h2 p hp h)

/-! ### Occurrences -/

theorem occursIn_iff {needle : Text} : ∀ {t : Text}, occursIn needle t = true ↔ needle <:+: t
  | [] => by rw [occursIn, List.isEmpty_iff, List.infix_nil]
  | c :: r => by
      rw [occursIn, Bool.or_eq_true, List.isPrefixOf_iff_prefix, occursIn_iff, List.infix_cons_iff]

/-! ### From left to right -/

theorem splitFrom_skip (sep : Text) : ∀ u r : Text,
    splitFrom sep u.length (u ++ r) = splitFrom sep 0 r
  | [], r => rfl
  | c :: u, r => by rw [List.length_cons, List.cons_append, splitFrom, splitFrom_skip sep u r]

variable {old : Text} (ho : old ≠ []) (new : Text)

include ho

theorem replaceAll_eq (t : Text) :
    replaceAll old new t = join new ((splitFrom old 0 t).1 :: (splitFrom old 0 t).2) := by
  have he : old.isEmpty = false := by rw [Bool.eq_false_iff, Ne, List.isEmpty_iff]; exact ho
  rw [replaceAll, splitOn, if_neg (by rw [he]; simp)]

theorem replaceAll_nil : replaceAll old new [] = [] := by
  rw [replaceAll_eq ho, splitFrom]
  rfl

/-- An occurrence is replaced. -/
theorem replaceAll_hit (r : Text) : replaceAll old new (old ++ r) = new ++ replaceAll old new r := by
  rw [replaceAll_eq ho, replaceAll_eq ho]
  cases old with
  | nil => exact absurd rfl ho
  | cons c old =>
      have hp : (c :: old).isPrefixOf (c :: (old ++ r)) = true :=
        List.isPrefixOf_iff_prefix.mpr ⟨r, rfl⟩
      rw [List.cons_append, splitFrom, if_pos hp, List.length_cons, Nat.add_sub_cancel,
        splitFrom_skip, join_cons_cons, List.nil_append]

/-- A character at which no occurrence begins is kept. -/
theorem replaceAll_char {c : Char} {r : Text} (h : ¬ old <+: c :: r) :
    replaceAll old new (c :: r) = c :: replaceAll old new r := by
  have hp : ¬ old.isPrefixOf (c :: r) = true := fun hp => h (List.isPrefixOf_iff_prefix.mp hp)
  rw [replaceAll_eq ho, replaceAll_eq ho, splitFrom, if_neg hp]
  cases (splitFrom old 0 r).2 with
  | nil => rfl
  | cons p ps => rw [join_cons_cons, join_cons_cons, List.cons_append]

/-- A text read as replacing reads it. -/
@[elab_as_elim]
theorem occurrence_induction {P : Text → Prop} (nil : P []) (hit : ∀ r, P r → P (old ++ r))
    (char : ∀ c r, ¬ old <+: c :: r → P r → P (c :: r)) (t : Text) : P t :=
  match t with
  | [] => nil
  | c :: r => by
      by_cases h : old <+: c :: r
      · obtain ⟨v, hv⟩ := h
        have hlen : v.length < (c :: r).length := by
          rw [← hv, List.length_append]
          have := List.length_pos_iff.mpr ho
          omega
        rw [← hv]
        exact hit v (occurrence_induction nil hit char v)
      · exact char c r h (occurrence_induction nil hit char r)
termination_by t.length
decreasing_by
  · exact hlen
  · exact Nat.lt_succ_self _

/-! ### Parting a text -/

/-- **A character that the old text does not hold parts what is replaced.** -/
theorem replaceAll_parted {x : Char} (hx : x ∉ old) (t r : Text) :
    replaceAll old new (t ++ x :: r) = replaceAll old new t ++ x :: replaceAll old new r := by
  induction t using occurrence_induction ho with
  | nil =>
      have hp : ¬ old <+: x :: r := by
        rintro ⟨v, hv⟩
        cases old with
        | nil => exact ho rfl
        | cons c old => exact hx ((List.cons.inj hv).1 ▸ List.mem_cons_self)
      rw [List.nil_append, replaceAll_char ho new hp, replaceAll_nil ho, List.nil_append]
  | hit t ih => rw [List.append_assoc, replaceAll_hit ho, ih, replaceAll_hit ho, List.append_assoc]
  | char c t h ih =>
      have hp : ¬ old <+: c :: (t ++ x :: r) := fun hp => h (prefix_of_not_mem hx hp)
      rw [List.cons_append, replaceAll_char ho new hp, ih, replaceAll_char ho new h,
        List.cons_append]

/-- Behind the last character of a text, where the old text does not hold it. -/
theorem replaceAll_behind {x : Char} (hx : x ∉ old) {t : Text} (ht : t.getLast? = some x)
    (r : Text) : replaceAll old new (t ++ r) = replaceAll old new t ++ replaceAll old new r := by
  obtain ⟨u, rfl⟩ := List.getLast?_eq_some_iff.mp ht
  rw [List.append_assoc, List.singleton_append, replaceAll_parted ho new hx,
    replaceAll_parted ho new hx, replaceAll_nil ho, List.append_assoc]
  rfl

/-! ### What was there before -/

theorem eq_nil_of_replaceAll {t : Text} (hn : new ≠ []) (h : replaceAll old new t = []) :
    t = [] := by
  induction t using occurrence_induction ho with
  | nil => rfl
  | hit r _ =>
      rw [replaceAll_hit ho] at h
      exact absurd (List.append_eq_nil_iff.mp h).1 hn
  | char c r hc _ =>
      rw [replaceAll_char ho new hc] at h
      cases h

/-- Without the first character of the new text, a beginning was there before. -/
theorem prefix_of_replaceAll {y : Char} {more lead r : Text} (hy : y ∉ lead) (t : Text) :
    replaceAll old (y :: more) t = lead ++ r →
      ∃ v, t = lead ++ v ∧ replaceAll old (y :: more) v = r := by
  induction t using occurrence_induction ho generalizing lead with
  | nil =>
      rw [replaceAll_nil ho]
      intro h
      obtain ⟨rfl, rfl⟩ := List.append_eq_nil_iff.mp h.symm
      exact ⟨[], rfl, replaceAll_nil ho _⟩
  | hit t ih =>
      rw [replaceAll_hit ho]
      intro h
      cases lead with
      | nil => exact ⟨old ++ t, rfl, (replaceAll_hit ho _ t).trans h⟩
      | cons l lead => exact absurd ((List.cons.inj h).1 ▸ List.mem_cons_self) hy
  | char c t hc ih =>
      intro h
      cases lead with
      | nil => exact ⟨c :: t, rfl, h⟩
      | cons l lead =>
          rw [replaceAll_char ho _ hc] at h
          obtain ⟨rfl, e⟩ := List.cons.inj h
          obtain ⟨v, rfl, hv⟩ := ih (fun hm => hy (List.mem_cons_of_mem _ hm)) e
          exact ⟨v, rfl, hv⟩

/-- **A character that the new text does not hold cuts the original.** -/
theorem replaceAll_cut {x : Char} (hx : x ∉ new) {u r : Text} (t : Text) :
    replaceAll old new t = u ++ x :: r →
      ∃ v w, t = v ++ x :: w ∧ replaceAll old new v = u ∧ replaceAll old new w = r := by
  induction t using occurrence_induction ho generalizing u with
  | nil =>
      rw [replaceAll_nil ho]
      intro h
      exact absurd h.symm (by simp)
  | hit t ih =>
      rw [replaceAll_hit ho]
      intro h
      obtain ⟨m, rfl, e⟩ | ⟨m, rfl, e⟩ := List.append_eq_append_iff.mp h
      · obtain ⟨v, w, rfl, rfl, rfl⟩ := ih e
        exact ⟨old ++ v, w, (List.append_assoc ..).symm, replaceAll_hit ho new v, rfl⟩
      · cases m with
        | nil =>
            obtain ⟨v, w, rfl, hv, rfl⟩ := ih (u := []) e.symm
            exact ⟨old ++ v, w, (List.append_assoc ..).symm,
              by rw [replaceAll_hit ho, hv, List.append_nil, List.append_nil], rfl⟩
        | cons d m =>
            obtain ⟨rfl, -⟩ := List.cons.inj e
            exact absurd (List.mem_append_right u List.mem_cons_self) hx
  | char c t hc ih =>
      rw [replaceAll_char ho new hc]
      intro h
      cases u with
      | nil =>
          obtain ⟨rfl, rfl⟩ := List.cons.inj h
          exact ⟨[], t, rfl, replaceAll_nil ho new, rfl⟩
      | cons d u =>
          obtain ⟨rfl, e⟩ := List.cons.inj h
          obtain ⟨v, w, rfl, rfl, rfl⟩ := ih e
          refine ⟨c :: v, w, rfl, replaceAll_char ho new fun hp => hc ?_, rfl⟩
          exact hp.trans (List.prefix_append (c :: v) (x :: w))

/-- **A stretch of which the new text holds not even the first character was there before.** -/
theorem infix_of_replaceAll {x y : Char} {more stretch : Text} (hx : x ∉ y :: more)
    (hy : y ∉ stretch) {t : Text} (h : x :: stretch <:+: replaceAll old (y :: more) t) :
    x :: stretch <:+: t := by
  obtain ⟨u, r, h⟩ := h
  rw [List.append_assoc, List.cons_append] at h
  obtain ⟨v, w, rfl, -, hw⟩ := replaceAll_cut ho _ hx t h.symm
  obtain ⟨w, rfl, -⟩ := prefix_of_replaceAll ho hy w hw
  exact ⟨v, w, by simp⟩

end Pagewright.Text
