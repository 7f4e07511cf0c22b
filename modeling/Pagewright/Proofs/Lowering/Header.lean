import Pagewright.Lowering.Loop
import Pagewright.Proofs.Directive.Essence
import Pagewright.Proofs.Lowering.FairMapping

/-! # What a loop header says

A header `c as v` names what is iterated and the name of an item.  Its white space is squeezed before
it is read, so the collection is the expression `c` with its white space squeezed, in literals too
(`loopHeader?_as`): it says what `c` says if and only if no literal of `c` holds a stretch of white
space that is not a single blank.  Where the expression itself holds ` as ` on top level, it is taken
apart there and joined again; where it ends in a dangling ` as`, the separator is found one word too
early, and there is no header.

Main definition: `dangling`. -/

namespace Pagewright.Lowering

open Text Directive

/-- The last piece of a text between the separators of headers on top level. -/
def lastItem (t : Text) : Text :=
  (splitTopFrom " as " 0 none 0 t).2.getLastD (splitTopFrom " as " 0 none 0 t).1

/-- The last piece ends in the beginning of one more separator. -/
def dangling (t : Text) : Bool := (" as" : Text).isSuffixOf (lastItem t)

/-! ### Names -/

section Names

variable {v : Text}

theorem isLoopTarget_name (hv : isName v = true) : isLoopTarget v = true := by
  have name : name? v = some v := of_decide_eq_true hv
  simp [isLoopTarget, dropName?, name, continuesNames]

/-- Behind a dangling separator stands no name. -/
theorem not_isLoopTarget_as (hv : isName v = true) : isLoopTarget ("as " ++ v) = false := by
  have word := isWord_of_isName hv
  have name : name? ("as ".toList ++ v) = some "as".toList :=
    name?_append (n := "as") (r := ' ' :: v) (by decide) rfl
  obtain ⟨c, r, rfl, -⟩ := name?_eq_some_self (of_decide_eq_true hv)
  have first := word c List.mem_cons_self
  have stops : continuesNames ((' ' :: c :: r).length) (' ' :: c :: r) = false := by
    have left : stripLeft (' ' :: c :: r) = c :: r := by
      rw [stripLeft, List.dropWhile_cons_of_pos rfl,
        List.dropWhile_cons_of_neg (by rw [not_isSpace_of_isWord first]; decide)]
    rw [List.length_cons, continuesNames.eq_def]
    simp only [left]
    split
    · next e =>
      obtain ⟨rfl, -⟩ := List.cons.inj e
      exact absurd first (by decide)
    · rfl
  rw [isLoopTarget, dropName?, name]
  exact stops

/-- A target in one piece: no separator is found in it, and stripping leaves it. -/
structure Target (t : Text) : Prop where
  whole : Whole " as " t
  single : Whole "=>" t
  solid : strip t = t

theorem whole_of_count {t : Text} (inert : t.all isInert = true) (few : t.count ' ' ≤ 1) :
    Whole " as " t := by
  apply whole_of_not_infix inert
  intro h
  have twice : (" as ".toList).count ' ' = 2 := by decide
  have le := h.sublist.count_le ' '
  omega

theorem whole_of_not_mem {t : Text} (inert : t.all isInert = true) (h : '=' ∉ t) : Whole "=>" t := by
  apply whole_of_not_infix inert
  intro found
  exact h (found.subset (List.mem_cons_self (a := '=')))

theorem target_name (hv : isName v = true) : Target v := by
  have word := isWord_of_isName hv
  have inert : v.all isInert = true := List.all_eq_true.mpr fun c hc => isInert_of_isWord (word c hc)
  have none : ∀ c, isWord c = false → c ∉ v := by
    intro c hc hm
    rw [word c hm] at hc
    cases hc
  refine ⟨whole_of_count inert ?_, whole_of_not_mem inert (none '=' (by decide)), ?_⟩
  · rw [List.count_eq_zero.mpr (none ' ' (by decide))]
    exact Nat.zero_le 1
  · exact strip_solid fun c hc => not_isSpace_of_isWord (word c hc)

theorem target_as (hv : isName v = true) : Target ("as " ++ v) := by
  have word := isWord_of_isName hv
  have inert : ("as ".toList ++ v).all isInert = true := by
    rw [List.all_append, List.all_eq_true.mpr fun c hc => isInert_of_isWord (word c hc)]
    rfl
  have none : ∀ c, isWord c = false → c ∉ v := by
    intro c hc hm
    rw [word c hm] at hc
    cases hc
  refine ⟨whole_of_count inert ?_, whole_of_not_mem inert ?_, ?_⟩
  · rw [List.count_append, List.count_eq_zero.mpr (none ' ' (by decide))]
    decide
  · exact List.not_mem_append (by decide) (none '=' (by decide))
  · have left : stripLeft ("as ".toList ++ v) = "as ".toList ++ v := stripLeft_eq_self rfl
    rw [strip, left]
    apply stripRight_eq_self
    obtain ⟨c, r, rfl, -⟩ := name?_eq_some_self (of_decide_eq_true hv)
    rw [List.getLast?_append_of_ne_nil _ (List.cons_ne_nil c r)]
    cases h : (c :: r).getLast? with
    | none => rfl
    | some d => exact not_isSpace_of_isWord (word d (List.mem_of_getLast? h))

end Names

/-! ### The pieces of a header -/

section Pieces

variable {s : Text}

theorem exists_of_dangling (h : dangling s = true) : ∃ r, s = r ++ " as" := by
  have last := getLastD_suffix_join " as " (splitTopFrom " as " 0 none 0 s).1
    (splitTopFrom " as " 0 none 0 s).2
  rw [join_splitTopFrom (by decide) 0 none 0 s (Nat.zero_le _)] at last
  obtain ⟨r, e⟩ := (List.isSuffixOf_iff_suffix.mp h).trans last
  exact ⟨r, e.symm⟩

/-- Where no separator is begun at the end of an expression, the next one begins behind it. -/
theorem seamless_as (h : dangling s = false) (r : Text) :
    Seamless " as " (lastItem s) (" as " ++ r) := by
  have ends : ¬ " as".toList <:+ lastItem s := by
    rw [← List.isSuffixOf_iff_suffix]
    exact Bool.eq_false_iff.mp h
  have letters : " as ".toList = [' ', 'a', 's', ' '] := rfl
  intro u hu given short found
  rw [letters] at short found
  match u, given with
  | [a], _ => simp [List.cons_prefix_cons] at found
  | [a, b], _ => simp [List.cons_prefix_cons] at found
  | [a, b, c], _ =>
    simp only [List.cons_append, List.cons_prefix_cons] at found
    obtain ⟨rfl, rfl, rfl, -⟩ := found
    exact ends hu
  | a :: b :: c :: d :: u, _ =>
    simp only [List.length_cons, List.length_nil] at short
    omega

/-- **An expression that begins no separator at its end is split on its own**, and so is what stands
behind the next one. -/
theorem splitTopFrom_as (hs : Balanced s) (h : dangling s = false) {t : Text} (ht : Whole " as " t) :
    splitTopFrom " as " 0 none 0 (s ++ (" as " ++ t)) =
      ((splitTopFrom " as " 0 none 0 s).1, (splitTopFrom " as " 0 none 0 s).2 ++ [t]) := by
  rw [splitTopFrom_append (by decide) (by decide) hs _ (seamless_as h t),
    splitTopFrom_sep (by decide) (by decide), ht, glue_sep]

/-- Behind a dangling separator the next one is not found, and behind that the next one is again. -/
theorem not_dangling_front : ∀ {s : Text}, Balanced s → dangling (s ++ " as") = true →
    dangling s = false := by
  intro s
  induction hn : s.length using Nat.strong_induction_on generalizing s with
  | _ n ih =>
  intro hs outer
  rw [Bool.eq_false_iff]
  intro inner
  -- In front of two of them, the separator that the first one begins would end in the second.
  obtain ⟨r, rfl⟩ := exists_of_dangling inner
  have hr : Balanced r := hs.front rfl (by decide)
  have shorter : r.length < n := by
    rw [← hn, List.length_append]
    exact Nat.lt_add_of_pos_right (by decide)
  have free := ih r.length shorter rfl hr inner
  have split := splitTopFrom_as hr free (t := "as") (splitTopFrom_short (by decide))
  have both : r ++ " as".toList ++ " as".toList = r ++ (" as ".toList ++ "as".toList) := by
    rw [List.append_assoc]
    rfl
  rw [dangling, lastItem, both, split, List.getLastD_concat] at outer
  exact absurd outer (by decide)

end Pieces

/-! ### Headers -/

/-- A header is read as the pieces of its expression, joined again, and its target. -/
theorem loopHeader?_of_join {args s t : Text} (e : join " " (words args) = s ++ (" as " ++ t))
    (hs : Balanced s) (h : dangling s = false) (ht : Target t) :
    loopHeader? args = if (join " as " (splitTop " as " s)).isEmpty || !isLoopTarget t then none
      else some ⟨join " as " (splitTop " as " s), t, false⟩ := by
  have parts : splitTop " as " (s ++ (" as " ++ t)) = splitTop " as " s ++ [t] := by
    rw [splitTop, splitTopFrom_as hs h ht.whole, splitTop]
    simp [ht.solid]
  have given : splitTop " as " s ≠ [] := List.cons_ne_nil _ _
  have target : splitTop "=>" t = [t] := by
    rw [ht.single.splitTop_eq, ht.solid]
  obtain ⟨before, earlier, he⟩ : ∃ before earlier, (splitTop " as " s).reverse = before :: earlier :=
    List.exists_cons_of_ne_nil (by simpa using given)
  have back : (before :: earlier).reverse = splitTop " as " s := by
    rw [← he, List.reverse_reverse]
  rw [loopHeader?, e, parts, List.reverse_append, List.reverse_singleton, List.singleton_append, he]
  simp only [back, target]
  simp only [Option.bind_eq_bind, Option.bind_some]
  split <;> rfl

section Squeezed

variable {c v : Text}

/-- The white space of a header is squeezed in its expression. -/
theorem join_words_as (given : isBlank c = false) (hv : isName v = true) :
    join " " (words (c ++ (" as " ++ v))) = squeeze (strip c) ++ (" as " ++ v) := by
  have solid : ∀ d ∈ v, isSpace d = false := fun d hd => not_isSpace_of_isWord (isWord_of_isName hv d hd)
  have named : v ≠ [] := by
    obtain ⟨d, r, rfl, -⟩ := name?_eq_some_self (of_decide_eq_true hv)
    exact List.cons_ne_nil d r
  have some : words c ≠ [] := by
    intro none
    rw [words_eq_nil.mp none] at given
    cases given
  have parts : words (c ++ ' ' :: ("as".toList ++ ' ' :: v)) = words c ++ ["as".toList, v] := by
    rw [words_append rfl, words_append rfl, words_solid named solid]
    rfl
  have behind : join " " ["as".toList, v] = "as ".toList ++ v := by
    rw [join_cons_cons, join_singleton]
    rfl
  have spelled : c ++ (" as " ++ v) = c ++ ' ' :: ("as".toList ++ ' ' :: v) := rfl
  rw [spelled, parts, join_append " " _ _ some (List.cons_ne_nil _ _), join_words, behind]
  rfl

/-- Squeezed, an expression is the pieces of itself with separators between them. -/
theorem join_pieces (given : isBlank c = false) :
    join " as " (splitTop " as " (squeeze (strip c))) = squeeze (strip c) := by
  obtain ⟨raw, e, whole⟩ := exists_splitTop (by decide : " as ".toList ≠ []) (squeeze (strip c))
  have sparse : Sparse true (squeeze (strip c)) := by
    rw [← join_words, (join_words_squeezed c).2]
    exact sparse_squeezeFrom true _
  have ends : stripRight (squeeze (strip c)) = squeeze (strip c) := by
    obtain ⟨y, x, ends, hx⟩ := exists_squeeze_strip given
    apply stripRight_eq_self
    rw [ends, List.getLast?_concat]
    exact hx
  cases raw with
  | nil => cases e
  | cons p ps =>
    rw [← whole] at sparse ends
    have kept := @strip_pieces "as" ps p sparse ends
    have same : (p :: ps).map strip = p :: ps := by
      rw [List.map_congr_left kept]
      exact List.map_id _
    rw [e, same, whole]

/-- **A header `c as v`** has the expression `c` with its white space squeezed as its collection, and
`v` as its target, unless `c` ends in a dangling separator.  What counts of `c` counts of the collection
if and only if every literal of `c` keeps its white space when it is squeezed. -/
theorem loopHeader?_as (hc : Balanced c) (given : isBlank c = false) (hv : isName v = true) :
    loopHeader? (c ++ (" as " ++ v)) =
        (if dangling (squeeze (strip c)) then none else some ⟨squeeze (strip c), v, false⟩) ∧
      (essence none (squeeze (strip c)) = essence none c ↔ ∀ l ∈ literals c, squeeze l = l) := by
  obtain ⟨hs, counts, same⟩ := hc.strip
  refine ⟨?_, by rw [← counts, ← same]; exact essence_squeezeFrom_iff hs false⟩
  have hq : Balanced (squeeze (strip c)) := hs.squeezeFrom false
  have words := join_words_as given hv
  split
  · next dangles =>
    -- The separator is found in front of the dangling one, and what stands behind it is no name.
    obtain ⟨s, e⟩ := exists_of_dangling dangles
    rw [e] at hq dangles words
    have front : Balanced s := hq.front rfl (by decide)
    have moved : s ++ " as".toList ++ (" as ".toList ++ v) = s ++ (" as ".toList ++ ("as ".toList ++ v)) := by
      rw [List.append_assoc]
      rfl
    rw [moved] at words
    rw [loopHeader?_of_join words front (not_dangling_front front dangles) (target_as hv),
      not_isLoopTarget_as hv, Bool.not_false, Bool.or_true, if_pos rfl]
  · next free =>
    have some : squeeze (strip c) ≠ [] := by
      obtain ⟨y, x, e, -⟩ := exists_squeeze_strip given
      rw [e]
      simp
    rw [loopHeader?_of_join words hq (Bool.eq_false_iff.mpr free) (target_name hv), join_pieces given,
      isLoopTarget_name hv, if_neg (by simpa using some)]

/-- Two blanks in a literal become one, and the collection is another expression. -/
theorem loopHeader?_as_spaced :
    loopHeader? ("f('a  b')".toList ++ (" as ".toList ++ "x".toList)) = some ⟨"f('a b')", "x", false⟩ ∧
      essence none "f('a b')" ≠ essence none "f('a  b')" := by
  have quoted : Quoted '\'' "a  b" := (quoted_plain (by decide) (by decide)).1
  have spelled : "f('a  b')".toList = 'f' :: '(' :: ('\'' :: ("a  b".toList ++ ['\'']) ++ [')']) := by
    decide
  have balanced : Balanced "f('a  b')" := by
    rw [spelled]
    exact .char rfl rfl rfl (.bracket (o := '(') rfl (.literal rfl quoted .nil) .nil)
  have shown : squeeze (strip "f('a  b')".toList) = "f('a b')".toList := by decide
  have ends : dangling "f('a b')" = false := by decide +kernel
  have stretch : ¬ ∀ l ∈ literals "f('a  b')", squeeze l = l := by decide +kernel
  obtain ⟨header, kept⟩ := loopHeader?_as (v := "x") balanced (by decide) (by decide)
  rw [shown, ends] at header
  rw [shown] at kept
  exact ⟨header, fun same => stretch (kept.mp same)⟩

end Squeezed

end Pagewright.Lowering
