import Mathlib.Data.Nat.Find
import Pagewright.Proofs.Directive.Essence
import Pagewright.Proofs.Directive.Span

/-! # Scanning from any offset

A scan looks for the first place where it has to stop, and goes on behind it (`Scans`).  Whether it
stops somewhere depends on the text around that place, and not on where the scan began, so behind a
directive it may be taken up again (`directives_resumed`).  What it reports is written in the text as
an at sign, a name and arguments in brackets (`written_of_at?`), and the arguments are parted at
commas that stand outside of brackets and literals (`argumentList_parted`).

Main definitions: `Stop`, `Quiet`, `Scans`, `Written`, `next?`. -/

namespace Pagewright.Directive

open Text

/-! ### Going from stop to stop -/

/-- What a scan stops at that stands at an offset, and where it goes on: at two at signs, behind both
of which it goes on without a directive, or at a directive. -/
inductive Stop (t : Text) (i : Nat) : Option Directive → Nat → Prop
  | pair {r : Text} : t.drop i = '@' :: '@' :: r → Stop t i none (i + 2)
  | directive {r : Text} {d : Directive} : t.drop i = '@' :: r →
      at? (t.take i).getLast? i r = some d → Stop t i (some d) d.stop

/-- Nothing stops a scan from one offset on up to another. -/
def Quiet (t : Text) (i j : Nat) : Prop := ∀ k, i ≤ k → k < j → ∀ o l, ¬ Stop t k o l

/-- The directives that a scan reports from an offset on, which goes from stop to stop and reports
those whose names are wanted. -/
inductive Scans (t : Text) (wanted : Text → Bool) : Nat → List Directive → Prop
  | done {pos : Nat} : Quiet t pos t.length → Scans t wanted pos []
  | next {pos i j : Nat} {o : Option Directive} {ds : List Directive} :
      pos ≤ i → Quiet t pos i → Stop t i o j → Scans t wanted j ds →
        Scans t wanted pos ((o.filter fun d => wanted d.name).toList ++ ds)

variable {t : Text} {wanted : Text → Bool}

theorem Stop.bounded {i j : Nat} {o : Option Directive} (h : Stop t i o j) :
    i < j ∧ j ≤ t.length := by
  have length : (t.drop i).length = t.length - i := List.length_drop
  cases h with
  | pair here =>
    rw [here, List.length_cons, List.length_cons] at length
    omega
  | directive here found =>
    obtain ⟨front, inside⟩ := at?_bounded found
    rw [here, List.length_cons] at length
    omega

/-- A scan that stands in front of a character looks back on it from the next offset. -/
theorem behind_character {pos : Nat} {c : Char} {r : Text} (h : t.drop pos = c :: r) :
    (t.take (pos + 1)).getLast? = some c ∧ t.drop (pos + 1) = r := by
  have here : t[pos]? = some c := by
    rw [← List.head?_drop, h, List.head?_cons]
  constructor
  · rw [List.take_add_one, here, Option.toList_some, List.getLast?_concat]
  · rw [← List.drop_drop, h, List.drop_one, List.tail_cons]

theorem directives_of_length_le {pos : Nat} (h : t.length ≤ pos) : directives t pos = [] := by
  rw [directives, List.drop_of_length_le h, scanFrom]

/-- Passing over characters is going on behind them. -/
theorem scanFrom_resumed (t : Text) (pos skip : Nat) :
    scanFrom (t.take pos).getLast? pos skip (t.drop pos) = directives t (pos + skip) := by
  induction skip generalizing pos with
  | zero => rfl
  | succ k ih =>
    cases h : t.drop pos with
    | nil =>
      have short : t.length ≤ pos := List.drop_eq_nil_iff.mp h
      rw [directives_of_length_le (by omega), scanFrom]
    | cons c r =>
      obtain ⟨last, rest⟩ := behind_character h
      rw [scanFrom, ← last, ← rest, ih (pos + 1), Nat.add_assoc, Nat.add_comm 1 k]

/-- What is found from a character on. -/
theorem directives_cons {pos : Nat} {c : Char} {r : Text} (h : t.drop pos = c :: r) :
    directives t pos =
      if c = '@' then
        if r.head? = some '@' then directives t (pos + 2)
        else match at? (t.take pos).getLast? pos r with
          | some d => d :: directives t d.stop
          | none => directives t (pos + 1)
      else directives t (pos + 1) := by
  obtain ⟨last, rest⟩ := behind_character h
  have resumed : ∀ skip, scanFrom (some c) (pos + 1) skip r = directives t (pos + 1 + skip) := by
    intro skip
    rw [← last, ← rest]
    exact scanFrom_resumed t (pos + 1) skip
  rw [directives, h, scanFrom]
  simp only [resumed]
  by_cases sign : c = '@'
  · rw [if_pos sign, if_pos sign]
    by_cases twice : r.head? = some '@'
    · rw [if_pos twice, if_pos twice]
    · rw [if_neg twice, if_neg twice]
      cases found : at? (t.take pos).getLast? pos r with
      | none => rfl
      | some d =>
        have front := (at?_bounded found).1
        have stop : pos + 1 + (d.stop - pos - 1) = d.stop := by omega
        simp only [stop]
  · rw [if_neg sign, if_neg sign]

/-- A directive is found where it stands, and what is found behind it follows. -/
theorem directives_of_stop {i j : Nat} {o : Option Directive} (h : Stop t i o j) :
    directives t i = o.toList ++ directives t j := by
  cases h with
  | pair here => rw [directives_cons here, if_pos rfl, List.head?_cons, if_pos rfl]; rfl
  | directive here found =>
    rename_i r d
    have single : r.head? ≠ some '@' := by
      intro twice
      obtain ⟨r', rfl⟩ := List.head?_eq_some_iff.mp twice
      cases at?_name found
    rw [directives_cons here, if_pos rfl, if_neg single, found]
    rfl

theorem directives_of_quiet {i j : Nat} (le : i ≤ j) (h : Quiet t i j) :
    directives t i = directives t j := by
  induction j, le using Nat.le_induction with
  | base => rfl
  | succ j le ih =>
    rw [ih fun k hk lt => h k hk (Nat.lt_succ_of_lt lt)]
    have calm := h j le (Nat.lt_succ_self j)
    cases here : t.drop j with
    | nil =>
      have short : t.length ≤ j := List.drop_eq_nil_iff.mp here
      rw [directives_of_length_le short, directives_of_length_le (by omega)]
    | cons c r =>
      rw [directives_cons here]
      split
      · next at_ =>
        subst at_
        split
        · next twice =>
          obtain ⟨r', rfl⟩ := List.head?_eq_some_iff.mp twice
          exact absurd (.pair here) (calm _ _)
        · split
          · next d found => exact absurd (.directive here found) (calm _ _)
          · rfl
      · rfl

/-- A scan comes to its first stop, or there is none. -/
theorem quiet_or_stop (t : Text) (pos : Nat) : Quiet t pos t.length ∨
    ∃ i o j, pos ≤ i ∧ Quiet t pos i ∧ Stop t i o j := by
  by_cases some : ∃ i, pos ≤ i ∧ ∃ o j, Stop t i o j
  · classical
    obtain ⟨le, o, j, stop⟩ := Nat.find_spec some
    refine Or.inr ⟨Nat.find some, o, j, le, fun k hk first o l here => ?_, stop⟩
    exact Nat.find_min some first ⟨hk, o, l, here⟩
  · exact Or.inl fun k hk _ o l here => some ⟨k, hk, o, l, here⟩

/-- What holds at an offset if it holds at all later ones in the text holds at every offset. -/
theorem induction_behind {P : Nat → Prop} (t : Text)
    (h : ∀ pos, (∀ j, pos < j → j ≤ t.length → P j) → P pos) (pos : Nat) : P pos := by
  induction left : t.length - pos using Nat.strong_induction_on generalizing pos with
  | _ n ih =>
    subst left
    exact h pos fun j lt le => ih (t.length - j) (by omega) j rfl

/-- A scan ends. -/
theorem exists_scans (t : Text) (wanted : Text → Bool) (pos : Nat) :
    ∃ ds, Scans t wanted pos ds := by
  induction pos using induction_behind t with
  | h pos ih =>
    obtain quiet | ⟨i, o, j, le, quiet, stop⟩ := quiet_or_stop t pos
    · exact ⟨[], .done quiet⟩
    · obtain ⟨front, inside⟩ := stop.bounded
      obtain ⟨ds, later⟩ := ih j (by omega) inside
      exact ⟨_, .next le quiet stop later⟩

theorem Scans.eq_filter {pos : Nat} {ds : List Directive} (h : Scans t wanted pos ds) :
    ds = (directives t pos).filter fun d => wanted d.name := by
  induction h with
  | @done pos quiet =>
    by_cases le : pos ≤ t.length
    · rw [directives_of_quiet le quiet, directives_of_length_le (Nat.le_refl _), List.filter_nil]
    · rw [directives_of_length_le (by omega), List.filter_nil]
  | next le quiet stop _ ih =>
    rw [directives_of_quiet le quiet, directives_of_stop stop, List.filter_append, ← ih,
      Option.toList_filter]

/-- **A scan that goes from stop to stop** ends, and reports the directives whose names are wanted. -/
theorem scans_iff {pos : Nat} {ds : List Directive} :
    Scans t wanted pos ds ↔ ds = (directives t pos).filter fun d => wanted d.name := by
  refine ⟨Scans.eq_filter, fun e => ?_⟩
  obtain ⟨ds', h⟩ := exists_scans t wanted pos
  rwa [e, ← h.eq_filter]

/-! ### Going on -/

/-- **Behind a directive the scan may be taken up again.** -/
theorem directives_behind {pos : Nat} {d : Directive} {ds : List Directive}
    (h : directives t pos = d :: ds) : directives t d.stop = ds := by
  induction pos using induction_behind t with
  | h pos ih =>
    obtain quiet | ⟨i, o, j, le, quiet, stop⟩ := quiet_or_stop t pos
    · have silent : Scans t (fun _ => true) pos [] := .done quiet
      have none := scans_iff.mp silent
      rw [h] at none
      cases none
    · obtain ⟨front, inside⟩ := stop.bounded
      rw [directives_of_quiet le quiet, directives_of_stop stop] at h
      cases stop with
      | pair => exact ih _ (by omega) inside h
      | directive => exact (List.cons.inj h).1 ▸ (List.cons.inj h).2

theorem directives_resumed {pos : Nat} {before after : List Directive} {d : Directive}
    (h : directives t pos = before ++ d :: after) : directives t d.stop = after := by
  induction before generalizing pos with
  | nil => exact directives_behind h
  | cons e before ih => exact ih (directives_behind h)

theorem named_resumed {names : List Text} {pos : Nat} {before after : List Directive} {d : Directive}
    (h : named names (directives t pos) = before ++ d :: after) :
    named names (directives t d.stop) = after := by
  obtain ⟨front, rest, whole, -, behind⟩ := List.filter_eq_append_iff.mp h
  obtain ⟨others, after', rfl, -, -, e⟩ := List.filter_eq_cons_iff.mp behind
  rw [← List.append_assoc] at whole
  rw [directives_resumed whole]
  exact e

/-! ### How a directive is written -/

/-- A text that a directive is written as: an at sign and its name, and behind blanks its arguments in
round brackets, if it has arguments. -/
inductive Written (d : Directive) : Text → Prop
  | alone : name? d.name = some d.name → d.args = none → Written d (Part.shown (.word d.name))
  | called {gap args : Text} : name? d.name = some d.name → d.args = some args →
      gap.all isGap = true → Balanced args → Written d (Part.shown (.call d.name gap args))

/-- A name that is read stands at the front. -/
theorem exists_of_name? {r n : Text} (h : name? r = some n) :
    name? n = some n ∧ r = n ++ r.drop n.length := by
  cases r with
  | nil => cases h
  | cons c r =>
    rw [name?] at h
    split at h
    · next start =>
      obtain rfl := Option.some.inj h
      refine ⟨?_, ?_⟩
      · rw [name?, if_pos start, List.takeWhile_idem]
      · have behind : (r.takeWhile isWord ++ r.dropWhile isWord).drop (r.takeWhile isWord).length =
            r.dropWhile isWord := List.drop_left
        rw [List.takeWhile_append_dropWhile] at behind
        rw [List.length_cons, List.drop_succ_cons, behind, List.cons_append,
          List.takeWhile_append_dropWhile]
    · cases h

/-- Arguments begin behind blanks. -/
theorem exists_of_argumentsStart? {u : Text} {n : Nat} (h : argumentsStart? u = some n) :
    ∃ gap r, u = gap ++ '(' :: r ∧ gap.length = n ∧ gap.all isGap = true := by
  unfold argumentsStart? at h
  simp only at h
  split at h
  · next opens =>
    obtain rfl := Option.some.inj h
    obtain ⟨r, hr⟩ := List.head?_eq_some_iff.mp opens
    refine ⟨u.takeWhile isGap, r, ?_, rfl, List.all_takeWhile⟩
    have behind : u.drop (u.takeWhile isGap).length = '(' :: r := hr
    rw [← behind, List.prefix_iff_eq_append.mp (List.takeWhile_prefix isGap)]
  · cases h

/-- A list that a bracket closes has balanced arguments. -/
theorem exists_of_closing? {r : Text} {close : Nat} (h : closing? ('(' :: r) = some close) :
    ∃ args, slice ('(' :: r) 1 close = args ∧
      ('(' :: r).take (close + 1) = '(' :: (args ++ [')']) ∧ Balanced args := by
  obtain ⟨room, grouped⟩ := (closing?_eq_some_iff rfl).mp h
  have length : (('(' :: r).take (close + 1)).length = close + 1 := by
    rw [List.length_take, Nat.min_eq_left room]
  generalize whole : ('(' :: r).take (close + 1) = v at grouped length
  cases grouped with
  | @intro o c inner opens balanced =>
    rw [List.take_succ_cons] at whole
    obtain ⟨rfl, inside⟩ := List.cons.inj whole
    obtain rfl : ')' = c := Option.some.inj opens
    simp only [List.length_cons, List.length_append, List.length_nil] at length
    obtain rfl : close = inner.length + 1 := by omega
    refine ⟨inner, ?_, rfl, balanced⟩
    have shorter := congrArg (List.take inner.length) inside
    rw [List.take_take, Nat.min_eq_left (Nat.le_succ _), List.take_left] at shorter
    exact shorter

/-- **A directive is written as its name and arguments say.** -/
theorem written_of_at? {prev : Option Char} {pos : Nat} {r : Text} {d : Directive}
    (h : at? prev pos r = some d) : Written d (('@' :: r).take (d.stop - d.start)) := by
  obtain ⟨name, front⟩ := exists_of_name? (at?_name h)
  have alone : ('@' :: r).take (pos + 1 + d.name.length - pos) = '@' :: d.name := by
    rw [show pos + 1 + d.name.length - pos = d.name.length + 1 by omega, List.take_succ_cons, front,
      List.take_left]
  cases at?_eq_some_iff.mp h with
  | bare | unclosed =>
    simp only [alone]
    exact .alone name rfl
  | @called n _ close _ _ _ start closes =>
    obtain ⟨gap, list, opens, rfl, blank⟩ := exists_of_argumentsStart? start
    rw [opens, List.drop_left] at closes
    obtain ⟨args, read, inside, balanced⟩ := exists_of_closing? closes
    have whole : ('@' :: r).take (pos + 1 + n.length + gap.length + close + 1 - pos) =
        Part.shown (.call n gap args) := by
      rw [show pos + 1 + n.length + gap.length + close + 1 - pos =
          n.length + (gap.length + (close + 1)) + 1 by omega, List.take_succ_cons, front, opens,
        List.take_length_add_append, List.take_length_add_append, inside]
      rfl
    simp only [whole, opens, List.drop_left, read]
    exact .called name rfl blank balanced

/-! ### Reported directives -/

theorem laid_directives {start : Nat} (h : start ≤ t.length) :
    Laid t.length start (directives t start) := by
  have laid := laid_scanFrom (t.take start).getLast? start 0 (t.drop start) (Nat.zero_le _)
  rwa [List.length_drop, Nat.add_sub_cancel' h] at laid

theorem apart_directives (t : Text) (start : Nat) :
    (directives t start).Pairwise fun d e => d.stop ≤ e.start := by
  by_cases room : start ≤ t.length
  · exact (laid_directives room).apart
  · rw [directives_of_length_le (by omega)]
    exact .nil

/-- A directive that is reported stands in the text as it is written. -/
theorem written_of_mem {start : Nat} {d : Directive} (h : d ∈ directives t start) :
    start ≤ d.start ∧ d.start < d.stop ∧ d.stop ≤ t.length ∧
      Written d (slice t d.start d.stop) := by
  have room : start ≤ t.length := by
    by_contra beyond
    rw [directives_of_length_le (by omega)] at h
    cases h
  obtain ⟨first, last⟩ := (laid_directives room).inside d h
  obtain ⟨r, prev, here, found⟩ := at?_of_mem_scanFrom rfl d h
  have front := (at?_bounded found).1
  refine ⟨first, by omega, last, ?_⟩
  rw [slice, here]
  exact written_of_at? found

/-- **Scanning is faithful and compositional.**  From every offset on, a scan that goes from stop to
stop ends, and one for some names reports the directives with these names among all directives.  The
directives stand one behind the other inside of the text, and each is written there as its name and
its arguments say.  From the end of each of them on the scan finds those that come behind it. -/
theorem scans_compositional (t : Text) (start : Nat) :
    (∀ ds, Scans t (fun _ => true) start ds ↔ ds = directives t start) ∧
    (∀ names ds, Scans t (fun n => names.contains n) start ds ↔
      ds = named names (directives t start)) ∧
    (∀ d ∈ directives t start, start ≤ d.start ∧ d.start < d.stop ∧ d.stop ≤ t.length ∧
      Written d (slice t d.start d.stop)) ∧
    (directives t start).Pairwise (fun d e => d.stop ≤ e.start) ∧
    (∀ before d after, directives t start = before ++ d :: after → directives t d.stop = after) ∧
    (∀ names before d after, named names (directives t start) = before ++ d :: after →
      named names (directives t d.stop) = after) := by
  refine ⟨fun ds => ?_, fun names ds => scans_iff, fun d hd => written_of_mem hd,
    apart_directives t start, fun _ _ _ => directives_resumed, fun _ _ _ _ => named_resumed⟩
  rw [scans_iff, List.filter_true]

/-! ### The next directive of a family -/

/-- The first directive with one of the names that a scan from an offset on reports. -/
def next? (names : List Text) (t : Text) (pos : Nat) : Option Directive :=
  (named names (directives t pos)).head?

section

variable {names : List Text} {pos : Nat} {d : Directive}

theorem next?_eq_none : next? names t pos = none ↔ ∀ d ∈ directives t pos, d.name ∉ names := by
  simp [next?, named]

/-- The next directive of a family stands behind directives of others, and the scan may be taken up
again behind it. -/
theorem next?_eq_some (h : next? names t pos = some d) : d.name ∈ names ∧
    ∃ before, directives t pos = before ++ d :: directives t d.stop ∧
      ∀ b ∈ before, b.name ∉ names := by
  obtain ⟨ds, hds⟩ := List.head?_eq_some_iff.mp h
  obtain ⟨before, after, whole, others, mem, -⟩ := List.filter_eq_cons_iff.mp hds
  refine ⟨by simpa using mem, before, ?_, fun b hb => by simpa using others b hb⟩
  rw [directives_resumed whole]
  exact whole

theorem next?_mem (h : next? names t pos = some d) : d ∈ directives t pos := by
  obtain ⟨-, before, whole, -⟩ := next?_eq_some h
  rw [whole]
  exact List.mem_append_right before List.mem_cons_self

/-- Going on behind the next directive comes nearer to the end of the text. -/
theorem next?_bounded (h : next? names t pos = some d) : pos < d.stop ∧ d.stop ≤ t.length := by
  obtain ⟨front, around, inside, -⟩ := written_of_mem (next?_mem h)
  exact ⟨by omega, inside⟩

end

/-! ### The arguments of a directive -/

/-- The arguments that are reported are balanced. -/
theorem balanced_args {start : Nat} {d : Directive} (h : d ∈ directives t start) {args : Text}
    (ha : d.args = some args) : Balanced args := by
  obtain ⟨-, -, -, written⟩ := written_of_mem h
  generalize slice t d.start d.stop = u at written
  cases written with
  | alone _ none => rw [none] at ha; cases ha
  | called _ some _ balanced => exact Option.some.inj (some.symm.trans ha) ▸ balanced

/-- **The arguments of a directive are parted at the commas on top level of its argument list.**  The
list is pieces with commas between them; every comma between two pieces stands outside of brackets
and literals, and none is left on top level of a piece.  The arguments are the pieces without the
white space at their ends, and each is balanced. -/
theorem argumentList_parted {t : Text} {start : Nat} {d : Directive} (hd : d ∈ directives t start)
    {args : Text} (ha : d.args = some args) :
    (∀ x ∈ d.argumentList, Balanced x ∧ ¬ TopLevel "," x) ∧
    ∃ pieces, join "," pieces = args ∧
      d.argumentList = (if isBlank args then [] else pieces.map strip) ∧
      (∀ p ∈ pieces, Balanced p ∧ ¬ TopLevel "," p) ∧
      ∀ before after, pieces = before ++ after → before ≠ [] → after ≠ [] →
        args = join "," before ++ ',' :: join "," after ∧
          Balanced (join "," before) ∧ Balanced (join "," after) := by
  have balanced := balanced_args hd ha
  have pieces : ∀ p ∈ (splitTopFrom "," 0 none 0 args).1 :: (splitTopFrom "," 0 none 0 args).2,
      Balanced p ∧ Whole "," p := forall_splitTopFrom (a := ',') rfl balanced
  have whole : join "," ((splitTopFrom "," 0 none 0 args).1 :: (splitTopFrom "," 0 none 0 args).2) =
      args := join_splitTopFrom (List.cons_ne_nil ',' []) 0 none 0 args (Nat.zero_le _)
  have list : d.argumentList = arguments args := by rw [Directive.argumentList, ha]; rfl
  have split : arguments args = if isBlank args then [] else
      ((splitTopFrom "," 0 none 0 args).1 :: (splitTopFrom "," 0 none 0 args).2).map strip := rfl
  rw [list, split]
  generalize (splitTopFrom "," 0 none 0 args).1 :: (splitTopFrom "," 0 none 0 args).2 = ps
    at pieces whole ⊢
  have single : ∀ p ∈ ps, Balanced p ∧ ¬ TopLevel "," p := fun p hp =>
    ⟨(pieces p hp).1, (pieces p hp).2.not_topLevel rfl⟩
  have joined : ∀ qs, (∀ q ∈ qs, q ∈ ps) → Balanced (join "," qs) := fun qs hqs =>
    balanced_join (.char rfl rfl rfl .nil) fun q hq => (single q (hqs q hq)).1
  refine ⟨fun x hx => ?_, ps, whole, rfl, single, fun before after e hb ha => ?_⟩
  · split at hx
    · cases hx
    · obtain ⟨p, hp, rfl⟩ := List.mem_map.mp hx
      exact ⟨(single p hp).1.strip.1, not_topLevel_strip (single p hp).2⟩
  · subst e
    refine ⟨?_, joined before fun q hq => List.mem_append_left after hq,
      joined after fun q hq => List.mem_append_right before hq⟩
    rw [join_append "," before after hb ha] at whole
    exact whole.symm

/-- A comma in brackets and one in a literal part nothing, nor do the blanks around an argument belong
to it. -/
theorem argumentList_parted_nested : ∃ d ∈ directives "a@f( g(1, [2]) , ',' )" 0,
    d.args = some " g(1, [2]) , ',' ".toList ∧
      d.argumentList = ["g(1, [2])".toList, "','".toList] ∧
      (∀ x ∈ d.argumentList, Balanced x ∧ ¬ TopLevel "," x) := by
  have found : (⟨"f", some " g(1, [2]) , ',' ", 1, 22, false⟩ : Directive) ∈
      directives "a@f( g(1, [2]) , ',' )" 0 := by decide +kernel
  exact ⟨_, found, rfl, by decide +kernel, (argumentList_parted found rfl).1⟩

end Pagewright.Directive
