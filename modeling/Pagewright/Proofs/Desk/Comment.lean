import Mathlib.Data.List.Induction
import Pagewright.Problem
import Pagewright.Proofs.Text.Parted
import Pagewright.Proofs.Text.Replace

/-! # Comments for problems

The comment that takes the place of what failed opens and closes as a comment, and two hyphens in its
wording are drawn apart.  Hyphens are taken two by two, so of a run of hyphens with an odd length the
last one keeps the blank of its neighbour only in front (`endsDashed_apart_iff`): the end of a comment
comes out where such a run, of three hyphens or more, points at something with a bracket
(`closes_apart_iff`).  All else in the comment keeps the wording and the hints apart, so it ends early
for such an arrow in one of them and for nothing else (`placeholder_comment`).

Main definitions: `apart`, `OddArrow`. -/

namespace Pagewright.Problem

open Text

/-- A text with its hyphens drawn apart, two by two. -/
def apart (t : Text) : Text := replaceAll "--" "- -" t

/-- An arrow whose shaft is a run of hyphens of an odd length, three or more. -/
def OddArrow (t : Text) : Prop :=
  ∃ u k r, t = u ++ (List.replicate (2 * k + 3) '-' ++ '>' :: r) ∧ u.getLast? ≠ some '-'

/-! ### Runs of hyphens -/

theorem dashes : ("--" : Text) ≠ [] := by decide

theorem apart_nil : apart [] = [] := rfl

theorem apart_pair (r : Text) : apart ('-' :: '-' :: r) = "- -" ++ apart r :=
  replaceAll_hit dashes "- -" r

theorem apart_parted {x : Char} (hx : x ≠ '-') (t r : Text) :
    apart (t ++ x :: r) = apart t ++ x :: apart r := by
  refine replaceAll_parted dashes "- -" (fun hm => hx ?_) t r
  simpa using hm

/-- What does not end with a hyphen does not get one at its end. -/
theorem getLast?_apart {u : Text} (h : u.getLast? ≠ some '-') : (apart u).getLast? ≠ some '-' := by
  obtain rfl | ⟨v, x, rfl⟩ := List.eq_nil_or_concat' u
  · exact h
  · have hx : x ≠ '-' := fun e => h (by rw [List.getLast?_concat, e])
    rw [apart_parted hx, apart_nil, List.getLast?_concat]
    exact fun e => hx (Option.some.inj e)

/-- A run of hyphens is drawn apart on its own. -/
theorem apart_run {u : Text} (h : u.getLast? ≠ some '-') (n : Nat) :
    apart (u ++ List.replicate n '-') = apart u ++ apart (List.replicate n '-') := by
  obtain rfl | ⟨v, x, rfl⟩ := List.eq_nil_or_concat' u
  · rfl
  · have hx : x ≠ '-' := fun e => h (by rw [List.getLast?_concat, e])
    rw [List.append_assoc, List.singleton_append, apart_parted hx, apart_parted hx, apart_nil,
      List.append_assoc]
    rfl

/-- Every text is a text that does not end with a hyphen and a run of hyphens behind it. -/
theorem exists_run (t : Text) :
    ∃ u n, t = u ++ List.replicate n '-' ∧ u.getLast? ≠ some '-' := by
  induction t using List.reverseRecOn with
  | nil => exact ⟨[], 0, rfl, by simp⟩
  | append_singleton t c ih =>
    by_cases hc : c = '-'
    · obtain ⟨u, n, rfl, hu⟩ := ih
      exact ⟨u, n + 1, by rw [hc, List.replicate_succ', List.append_assoc], hu⟩
    · refine ⟨t ++ [c], 0, (List.append_nil _).symm, fun e => hc ?_⟩
      rw [List.getLast?_concat] at e
      exact Option.some.inj e

/-- A text that ends with two hyphens. -/
def EndsDashed (t : Text) : Prop := ∃ v, t = v ++ "--"

theorem EndsDashed.getLast? {t : Text} (h : EndsDashed t) : t.getLast? = some '-' := by
  obtain ⟨v, rfl⟩ := h
  rw [List.getLast?_append]
  rfl

theorem endsDashed_concat {t : Text} : EndsDashed (t ++ ['-']) ↔ t.getLast? = some '-' := by
  constructor
  · rintro ⟨v, e⟩
    have same : t ++ ['-'] = v ++ ['-'] ++ ['-'] := by
      rw [e, List.append_assoc]
      rfl
    rw [List.append_cancel_right same, List.getLast?_concat]
  · intro h
    obtain ⟨v, rfl⟩ := List.getLast?_eq_some_iff.mp h
    exact ⟨v, by rw [List.append_assoc]; rfl⟩

/-- Behind a pair that was drawn apart, a single hyphen at the end stands next to the pair. -/
theorem endsDashed_pair (n : Nat) : ∀ t : Text,
    EndsDashed (t ++ ("- -" ++ apart (List.replicate n '-'))) ↔ n % 2 = 1 := by
  induction n using Nat.twoStepInduction with
  | zero =>
    intro t
    have pair : t ++ ("- -" ++ apart (List.replicate 0 '-')) = t ++ ['-', ' '] ++ ['-'] := by
      rw [List.append_assoc]
      rfl
    rw [pair, endsDashed_concat, List.getLast?_append]
    exact ⟨fun h => absurd (Option.some.inj h) (by decide), fun h => absurd h (by decide)⟩
  | one =>
    intro t
    have pair : t ++ ("- -" ++ apart (List.replicate 1 '-')) = t ++ "- -" ++ ['-'] := by
      rw [List.append_assoc]
      rfl
    rw [pair, endsDashed_concat, List.getLast?_append]
    exact ⟨fun _ => rfl, fun _ => rfl⟩
  | more n ih _ =>
    intro t
    have pair : apart (List.replicate (n + 2) '-') = "- -" ++ apart (List.replicate n '-') :=
      apart_pair _
    rw [pair, ← List.append_assoc, ih]
    omega

/-- **Two hyphens at the end** go back to a run of odd length there, of three or more. -/
theorem endsDashed_apart_iff {u : Text} (h : u.getLast? ≠ some '-') (n : Nat) :
    EndsDashed (apart (u ++ List.replicate n '-')) ↔ ∃ k, n = 2 * k + 3 := by
  have last := getLast?_apart h
  rw [apart_run h]
  match n with
  | 0 =>
    rw [List.replicate_zero, apart_nil, List.append_nil]
    exact ⟨fun e => absurd e.getLast? last, fun ⟨k, e⟩ => by omega⟩
  | 1 =>
    have single : apart (List.replicate 1 '-') = ['-'] := rfl
    rw [single, endsDashed_concat]
    exact ⟨fun e => absurd e last, fun ⟨k, e⟩ => by omega⟩
  | n + 2 =>
    have pair : apart (List.replicate (n + 2) '-') = "- -" ++ apart (List.replicate n '-') :=
      apart_pair _
    rw [pair, endsDashed_pair]
    constructor
    · intro odd
      exact ⟨n / 2, by omega⟩
    · rintro ⟨k, e⟩
      omega

/-! ### Arrows -/

/-- The end of a comment comes out in a text. -/
def Closes (t : Text) : Prop := ("-->" : Text) <:+: apart t

/-- **The end of a comment comes out** where an arrow of odd length stands. -/
theorem closes_iff (t : Text) : Closes t ↔ OddArrow t := by
  constructor
  · rintro ⟨a, b, e⟩
    have cut : apart t = (a ++ "--") ++ '>' :: b := by
      rw [← e]
      simp
    obtain ⟨v, r, rfl, ends, -⟩ :=
      replaceAll_cut dashes "- -" (by decide) t cut
    obtain ⟨u, n, rfl, hu⟩ := exists_run v
    obtain ⟨k, rfl⟩ := (endsDashed_apart_iff hu n).mp ⟨a, ends⟩
    exact ⟨u, k, r, List.append_assoc _ _ _, hu⟩
  · rintro ⟨u, k, r, rfl, hu⟩
    obtain ⟨v, ends⟩ := (endsDashed_apart_iff hu (2 * k + 3)).mpr ⟨k, rfl⟩
    refine ⟨v, apart r, ?_⟩
    rw [← List.append_assoc, apart_parted (by decide), ends]
    simp

/-- What is neither a hyphen nor a bracket keeps two texts apart. -/
theorem closes_parted {x : Char} (hx : x ∉ "->".toList) (t r : Text) :
    Closes (t ++ x :: r) ↔ Closes t ∨ Closes r := by
  have other : x ≠ '-' := fun e => hx (by rw [e]; decide)
  have foreign : x ∉ "-->".toList := by
    have all : ∀ c ∈ "-->".toList, c ∈ "->".toList := forall_mem_text (by decide)
    exact fun hm => hx (all x hm)
  unfold Closes
  rw [apart_parted other]
  constructor
  · exact infix_parted foreign
  · rintro (front | behind)
    · exact front.trans (List.prefix_append _ _).isInfix
    · exact behind.trans (List.suffix_append_of_suffix (List.suffix_cons x _)).isInfix

theorem not_closes_nil : ¬ Closes [] := by
  unfold Closes
  decide

theorem closes_cons {x : Char} (hx : x ∉ "->".toList) (r : Text) : Closes (x :: r) ↔ Closes r := by
  have parted := closes_parted hx [] r
  rw [List.nil_append] at parted
  rw [parted]
  exact or_iff_right not_closes_nil

/-- Hints are kept apart from each other. -/
theorem closes_join (ts : List Text) : Closes (join "; " ts) ↔ ∃ t ∈ ts, Closes t := by
  have nothing : ¬ ∃ t ∈ ([] : List Text), Closes t := by simp
  induction ts with
  | nil => exact iff_of_false not_closes_nil nothing
  | cons t ts ih =>
    rw [List.exists_mem_cons_iff]
    cases ts with
    | nil =>
      have alone : join "; " [t] = t := by simp [join, List.intercalate]
      rw [alone, or_iff_left nothing]
    | cons t' ts =>
      have separate : join "; " (t :: t' :: ts) = t ++ ';' :: ' ' :: join "; " (t' :: ts) :=
        join_cons_cons _ _ _ _
      rw [separate, closes_parted (by decide), closes_cons (by decide)]
      exact or_congr_right ih

/-! ### The comment -/

/-- A code holds a letter and digits only. -/
theorem code_spelled (p : Problem) : ∀ c ∈ p.code, c ∈ "E012345".toList := by
  refine forall_mem_text ?_
  cases p with
  | cycle | outside | absent | expression => rw [code]; split <;> decide
  | tooDeep | malformed | other => rw [code]; decide

theorem not_closes_code (p : Problem) : ¬ Closes p.code := by
  have plain : '-' ∉ p.code := fun hm => absurd (p.code_spelled '-' hm) (by decide)
  have kept : apart p.code = p.code :=
    replaceAll_eq_self "- -" dashes (not_infix_of_not_mem plain)
  unfold Closes
  rw [kept]
  exact not_infix_of_not_mem plain

/-- The hints as they stand behind the wording of a problem. -/
def advice (p : Problem) : Text := if p.hints.isEmpty then [] else " (" ++ join "; " p.hints ++ ")"

/-- What the comment says: the code, the wording and the hints. -/
def remark (p : Problem) : Text := p.code ++ ' ' :: (p.message ++ p.advice)

theorem placeholder_eq (p : Problem) :
    p.placeholder = "<!-- [htmlkit] " ++ (apart p.remark ++ " -->") := by
  have line : p.line ++ p.advice = p.remark := by
    rw [line, remark, List.append_assoc, List.append_assoc]
    rfl
  rw [← line, ← List.append_assoc]
  rfl

/-- The end of a comment comes out of the wording or of a hint. -/
theorem closes_remark (p : Problem) :
    Closes p.remark ↔ Closes p.message ∨ ∃ h ∈ p.hints, Closes h := by
  rw [remark, closes_parted (by decide), or_iff_right p.not_closes_code, advice]
  cases p.hints with
  | nil => simp
  | cons h hs =>
    have shape : (" (" ++ join "; " (h :: hs) ++ ")" : Text) =
        ' ' :: '(' :: (join "; " (h :: hs) ++ ')' :: []) := rfl
    rw [List.isEmpty_cons, if_neg Bool.false_ne_true, shape, closes_parted (by decide),
      closes_cons (by decide), closes_parted (by decide), or_iff_left not_closes_nil, closes_join]

/-- Around the remark no end of a comment begins. -/
theorem closes_early_iff (p : Problem) :
    ("-->" : Text) <:+: p.placeholder.dropLast ↔ Closes p.remark := by
  have front : p.placeholder.dropLast =
      "<!--" ++ ' ' :: ("[htmlkit]" ++ ' ' :: (apart p.remark ++ ' ' :: "--")) := by
    have last : p.placeholder =
        "<!-- [htmlkit] " ++ (apart p.remark ++ ' ' :: "--") ++ ['>'] := by
      rw [placeholder_eq, List.append_assoc, List.append_assoc]
      rfl
    rw [last, List.dropLast_concat]
    rfl
  have blank : ' ' ∉ "-->".toList := by decide
  rw [front]
  constructor
  · intro early
    rcases infix_parted blank early with opening | early
    · exact absurd opening (by decide)
    · rcases infix_parted blank early with name | early
      · exact absurd name (by decide)
      · rcases infix_parted blank early with inside | closing
        · exact inside
        · exact absurd closing (by decide)
  · intro inside
    refine inside.trans ⟨"<!-- [htmlkit] ", " --", ?_⟩
    rw [List.append_assoc]
    rfl

/-- **The comment for a problem** opens and closes as a comment, and it ends early exactly if an arrow
with a shaft of three, five or more hyphens of an odd number stands in the wording or in a hint. -/
theorem placeholder_comment (p : Problem) :
    ("<!--" : Text) <+: p.placeholder ∧ ("-->" : Text) <:+ p.placeholder ∧
      (("-->" : Text) <:+: p.placeholder.dropLast ↔
        OddArrow p.message ∨ ∃ h ∈ p.hints, OddArrow h) := by
  refine ⟨⟨" [htmlkit] " ++ (apart p.remark ++ " -->"), ?_⟩,
    ⟨"<!-- [htmlkit] " ++ (apart p.remark ++ " "), ?_⟩, ?_⟩
  · rw [placeholder_eq]
    rfl
  · rw [placeholder_eq, List.append_assoc, List.append_assoc]
    rfl
  · rw [closes_early_iff, closes_remark]
    simp only [closes_iff]

/-- A problem whose wording is an arrow with a shaft of three hyphens. -/
example : (Problem.malformed "--->" none []).placeholder = "<!-- [htmlkit] E4001 - --> -->".toList := by
  decide

end Pagewright.Problem
