import Mathlib.Logic.Relation
import Pagewright.Proofs.Library.Path
import Pagewright.Proofs.Text.Replace

/-! # References into a shelf

A reference leads out of a shelf if it starts at the root or climbs above it, that is, if at some point
on the way there were more steps back than names (`Leaves`).  Exactly these references are refused.  All
others lead to a canonical path, or to the shelf itself, and spellings lead to the same path exactly if
they can be reduced to the same components (`Shelf.locate_contained`).

What is left of the components of a reference is read off the stack on which they are put one after the
other: some steps back at the bottom, and names above them (`exists_foldl_step`).

Main definitions: `Climbs`, `Leaves`, `Cancels`, `Reduces`. -/

namespace Pagewright

open Text

namespace Path

/-! ### Steps -/

theorem step_name {rooted : Bool} (done : List Text) {c : Text} (h : c ≠ up) :
    step rooted done c = c :: done := by
  unfold step
  exact if_neg h

theorem step_back {rooted : Bool} {d : Text} (rest : List Text) (h : d ≠ up) :
    step rooted (d :: rest) up = rest := by
  unfold step
  rw [if_pos rfl]
  exact if_neg h

theorem step_above : ∀ above : Nat,
    step false (List.replicate above up) up = List.replicate (above + 1) up
  | 0 => rfl
  | _ + 1 => rfl

/-! ### Climbing -/

/-- On the way along some components there are more steps back than names. -/
def Climbs (cs : List Text) : Prop :=
  ∃ front, front <+: cs ∧ front.countP (· ≠ up) < front.count up

theorem not_climbs_nil : ¬ Climbs [] := by
  rintro ⟨front, hf, h⟩
  rw [List.prefix_nil.mp hf] at h
  exact absurd h (by decide)

theorem climbs_snoc {cs : List Text} {c : Text} :
    Climbs (cs ++ [c]) ↔
      Climbs cs ∨ (cs ++ [c]).countP (· ≠ up) < (cs ++ [c]).count up := by
  constructor
  · rintro ⟨front, hf, h⟩
    obtain rfl | hf := List.prefix_concat_iff.mp hf
    · exact Or.inr h
    · exact Or.inl ⟨front, hf, h⟩
  · rintro (⟨front, hf, h⟩ | h)
    · exact ⟨front, hf.trans (List.prefix_append _ _), h⟩
    · exact ⟨_, List.prefix_rfl, h⟩

/-- Where some components lead: `above` steps above the start, and then down along `names`.  The steps
back at the bottom of the stack are never taken off again, so the components climb exactly if there are
some at the end. -/
theorem exists_foldl_step (cs : List Text) : ∃ (names : List Text) (above : Nat),
    cs.foldl (step false) [] = names ++ List.replicate above up ∧ up ∉ names ∧
      names.length + cs.count up = cs.countP (· ≠ up) + above ∧ (Climbs cs ↔ 0 < above) := by
  induction cs using List.reverseRecOn with
  | nil => exact ⟨[], 0, rfl, List.not_mem_nil, rfl, iff_of_false not_climbs_nil (by decide)⟩
  | append_singleton cs c ih =>
    obtain ⟨names, above, stack, plain, balance, climbs⟩ := ih
    rw [List.foldl_append, stack, List.foldl_cons, List.foldl_nil, climbs_snoc, climbs,
      List.count_append, List.countP_append]
    by_cases hc : c = up
    · subst hc
      have counted : List.count up [up] = 1 ∧ List.countP (· ≠ up) [up] = 0 := by decide
      rw [counted.1, counted.2]
      cases names with
      | nil =>
        refine ⟨[], above + 1, step_above above, plain, ?_, ?_⟩
        · rw [← Nat.add_assoc, balance]
          rfl
        · rw [List.length_nil] at balance
          omega
      | cons name names =>
        rw [List.mem_cons, not_or] at plain
        rw [List.length_cons] at balance
        exact ⟨names, above, step_back _ (Ne.symm plain.1), plain.2, by omega, by omega⟩
    · have counted : List.count up [c] = 0 ∧ List.countP (· ≠ up) [c] = 1 := by
        simp [hc]
      rw [counted.1, counted.2]
      refine ⟨c :: names, above, step_name _ hc, ?_, ?_, by omega⟩
      · rw [List.mem_cons, not_or]
        exact ⟨Ne.symm hc, plain⟩
      · rw [List.length_cons]
        omega

/-- What climbs starts with a step back when it is reduced. -/
theorem Climbs.reduce {cs : List Text} (h : Climbs cs) :
    ∃ rest, Path.reduce false cs = up :: rest := by
  obtain ⟨names, above, stack, -, -, climbs⟩ := exists_foldl_step cs
  obtain ⟨n, rfl⟩ := Nat.exists_eq_succ_of_ne_zero (Nat.pos_iff_ne_zero.mp (climbs.mp h))
  refine ⟨List.replicate n up ++ names.reverse, ?_⟩
  rw [Path.reduce, stack, List.reverse_append, List.reverse_replicate, List.replicate_succ,
    List.cons_append]

/-- What does not climb holds no step back when it is reduced. -/
theorem up_not_mem_reduce {cs : List Text} (h : ¬ Climbs cs) : up ∉ Path.reduce false cs := by
  obtain ⟨names, above, stack, plain, -, climbs⟩ := exists_foldl_step cs
  obtain rfl : above = 0 := Nat.eq_zero_of_not_pos fun some => h (climbs.mpr some)
  rw [Path.reduce, stack, List.replicate_zero, List.append_nil, List.mem_reverse]
  exact plain

/-! ### Reducing -/

/-- A name and the step back behind it are taken out. -/
inductive Cancels : List Text → List Text → Prop
  | pair {name : Text} (h : name ≠ up) (before after : List Text) :
    Cancels (before ++ name :: up :: after) (before ++ after)

/-- Names and the steps back behind them are taken out one after the other. -/
def Reduces : List Text → List Text → Prop := Relation.ReflTransGen Cancels

theorem reduce_cancels {rooted : Bool} {cs ds : List Text} (h : Cancels cs ds) :
    Path.reduce rooted cs = Path.reduce rooted ds := by
  obtain ⟨differ, before, after⟩ := h
  rw [Path.reduce, Path.reduce, List.foldl_append, List.foldl_append, List.foldl_cons,
    List.foldl_cons, step_name _ differ, step_back _ differ]

theorem Reduces.reduce_eq {cs ds : List Text} (h : Reduces cs ds) :
    Path.reduce false cs = Path.reduce false ds := by
  induction h with
  | refl => rfl
  | tail _ last ih => exact ih.trans (reduce_cancels last)

theorem reduces_step (done cs : List Text) (c : Text) :
    Reduces (done.reverse ++ c :: cs) ((step false done c).reverse ++ cs) := by
  have kept : Reduces (done.reverse ++ c :: cs) ((c :: done).reverse ++ cs) := by
    rw [List.reverse_cons, List.append_assoc]
    exact Relation.ReflTransGen.refl
  by_cases hc : c = up
  · subst hc
    cases done with
    | nil => exact kept
    | cons d rest =>
      by_cases hd : d = up
      · subst hd
        exact kept
      · rw [step_back rest hd, List.reverse_cons, List.append_assoc]
        exact Relation.ReflTransGen.single (.pair hd _ _)
  · rw [step_name done hc]
    exact kept

theorem reduces_foldl : ∀ done cs : List Text,
    Reduces (done.reverse ++ cs) (cs.foldl (step false) done).reverse
  | done, [] => by
      rw [List.append_nil]
      exact Relation.ReflTransGen.refl
  | done, c :: cs => (reduces_step done cs c).trans (reduces_foldl (step false done c) cs)

theorem reduces_reduce (cs : List Text) : Reduces cs (Path.reduce false cs) :=
  reduces_foldl [] cs

/-- Components that can be reduced to the same ones are reduced to the same ones. -/
theorem reduce_eq_iff {cs ds : List Text} :
    Path.reduce false cs = Path.reduce false ds ↔ ∃ es, Reduces cs es ∧ Reduces ds es := by
  constructor
  · intro h
    exact ⟨_, reduces_reduce cs, h ▸ reduces_reduce ds⟩
  · rintro ⟨es, hc, hd⟩
    exact hc.reduce_eq.trans hd.reduce_eq.symm

/-! ### Normal forms -/

theorem mem_step {rooted : Bool} {done : List Text} {c d : Text} (h : d ∈ step rooted done c) :
    d ∈ done ∨ d = c := by
  unfold step at h
  split at h
  · next hc =>
    split at h
    · split at h
      · exact absurd h List.not_mem_nil
      · exact Or.inr ((List.mem_singleton.mp h).trans hc.symm)
    · split at h
      · exact (List.mem_cons.mp h).symm.imp_right fun e => e.trans hc.symm
      · exact Or.inl (List.mem_cons_of_mem _ h)
  · exact (List.mem_cons.mp h).symm

theorem mem_reduce {rooted : Bool} {cs : List Text} {d : Text} (h : d ∈ Path.reduce rooted cs) :
    d ∈ cs := by
  have run : ∀ (cs done : List Text), d ∈ cs.foldl (step rooted) done → d ∈ done ∨ d ∈ cs := by
    intro cs
    induction cs with
    | nil => exact fun done h => Or.inl h
    | cons c cs ih =>
      intro done h
      obtain h | h := ih _ h
      · obtain h | rfl := mem_step h
        · exact Or.inl h
        · exact Or.inr List.mem_cons_self
      · exact Or.inr (List.mem_cons_of_mem c h)
  exact (run cs [] (List.mem_reverse.mp h)).resolve_left List.not_mem_nil

theorem mem_parts {t c : Text} :
    c ∈ Path.parts t ↔ c ∈ splitOn "/" t ∧ c ≠ [] ∧ c ≠ ['.'] := by
  rw [Path.parts, List.mem_filter, decide_eq_true_iff]

/-- Components between slashes are found again. -/
theorem splitOn_join_parts {cs : List Text} (given : cs ≠ []) (h : ∀ c ∈ cs, '/' ∉ c) :
    splitOn "/" (join "/" cs) = cs := by
  obtain ⟨c, cs, rfl⟩ := List.exists_cons_of_ne_nil given
  refine (splitOn_join '/' c cs).trans ?_
  have alone : (c :: cs).flatMap (splitOn ['/']) = (c :: cs).flatMap fun c => [c] :=
    List.flatMap_congr fun d hd => splitOn_of_not_mem (h d hd)
  rw [alone, List.flatMap_singleton']

/-- What is left of the components of a path. -/
def rest (t : Text) : List Text := Path.reduce false (Path.parts t)

theorem slash_not_mem_rest {t c : Text} (h : c ∈ rest t) : '/' ∉ c :=
  not_mem_of_mem_splitOn (mem_parts.mp (mem_reduce h)).1

theorem rest_ne_nil {t c : Text} (h : c ∈ rest t) : c ≠ [] := (mem_parts.mp (mem_reduce h)).2.1

theorem rest_ne_dot {t c : Text} (h : c ∈ rest t) : c ≠ ['.'] := (mem_parts.mp (mem_reduce h)).2.2

/-- A path that does not start at the root is what is left of its components, between slashes. -/
theorem normal_relative {t : Text} (h : t.head? ≠ some '/') :
    normal t = if rest t = [] then ['.'] else join "/" (rest t) := by
  unfold normal
  simp only [lead_relative h, List.nil_append, decide_eq_false h, List.isEmpty_iff]
  by_cases empty : rest t = []
  · rw [if_pos empty, if_pos]
    exact congrArg (join "/") empty
  · rw [if_neg empty, if_neg]
    · rfl
    · obtain ⟨c, hc⟩ := List.exists_mem_of_ne_nil _ empty
      obtain ⟨x, hx⟩ := List.exists_mem_of_ne_nil _ (rest_ne_nil hc)
      exact List.ne_nil_of_mem (mem_join_of_mem "/" hc hx)

/-- A path that starts at the root keeps a slash in front of its components. -/
theorem lead_rooted {t : Text} (h : t.head? = some '/') : ∃ u, lead t = '/' :: u := by
  obtain ⟨r, rfl⟩ := List.head?_eq_some_iff.mp h
  unfold lead
  split
  · exact ⟨_, rfl⟩
  · exact ⟨_, rfl⟩
  · exact ⟨_, rfl⟩
  · next other => exact absurd rfl (other r)

theorem outside_of_rooted {t : Text} (h : t.head? = some '/') : Outside (normal t) := by
  obtain ⟨u, front⟩ := lead_rooted h
  left
  unfold normal
  simp only [front, List.cons_append, List.isEmpty_cons]
  rfl

theorem outside_of_climbs {t : Text} (h : t.head? ≠ some '/') (climbs : Climbs (Path.parts t)) :
    Outside (normal t) := by
  obtain ⟨more, left⟩ := climbs.reduce
  have steps : rest t = up :: more := left
  rw [normal_relative h, steps, if_neg (List.cons_ne_nil _ _)]
  cases more with
  | nil => exact Or.inr (Or.inl List.flatten_singleton)
  | cons c more =>
    rw [join_cons_cons]
    refine Or.inr (Or.inr (List.isPrefixOf_iff_prefix.mpr ⟨join "/" (c :: more), ?_⟩))
    exact List.append_assoc _ _ _

theorem canonical_join {t : Text} (given : rest t ≠ []) (level : ¬ Climbs (Path.parts t)) :
    Canonical (join "/" (rest t)) := by
  intro c hc
  rw [splitOn_join_parts given fun c => slash_not_mem_rest] at hc
  refine ⟨rest_ne_nil hc, rest_ne_dot hc, ?_⟩
  rintro rfl
  exact up_not_mem_reduce level hc

/-- Two paths that are what is left of components, between slashes, are the same exactly if these
are. -/
theorem normal_eq_iff {t u : Text} (ht : t.head? ≠ some '/') (hu : u.head? ≠ some '/') :
    normal t = normal u ↔ rest t = rest u := by
  have dot : ∀ {v : Text}, rest v ≠ [] → join "/" (rest v) ≠ ['.'] := by
    intro v given e
    have split := splitOn_join_parts given fun c => slash_not_mem_rest
    rw [e] at split
    have only : rest v = [['.']] := split.symm.trans (by decide)
    exact rest_ne_dot (only ▸ List.mem_singleton_self _ : ['.'] ∈ rest v) rfl
  rw [normal_relative ht, normal_relative hu]
  by_cases et : rest t = []
  · by_cases eu : rest u = []
    · rw [et, eu]
      exact iff_of_true rfl rfl
    · rw [if_pos et, if_neg eu, et]
      exact iff_of_false (Ne.symm (dot eu)) (Ne.symm eu)
  · by_cases eu : rest u = []
    · rw [if_neg et, if_pos eu, eu]
      exact iff_of_false (dot et) et
    · rw [if_neg et, if_neg eu]
      constructor
      · intro e
        rw [← splitOn_join_parts et fun c => slash_not_mem_rest, e,
          splitOn_join_parts eu fun c => slash_not_mem_rest]
      · exact congrArg (join "/")

/-- A path as it is read: backslashes count as slashes. -/
def slashed (t : Text) : Text := t.map fun c => if c = '\\' then '/' else c

theorem replaceAll_backslash : ∀ t : Text, replaceAll "\\" "/" t = slashed t
  | [] => rfl
  | c :: t => by
      have some_ : "\\".toList ≠ [] := by decide
      by_cases hc : c = '\\'
      · subst hc
        have here := replaceAll_hit some_ "/".toList t
        rw [replaceAll_backslash t] at here
        exact here
      · have other : ¬ "\\".toList <+: c :: t := fun h =>
          hc (List.cons_prefix_cons.mp h).1.symm
        rw [replaceAll_char some_ _ other, replaceAll_backslash t, slashed, slashed, List.map_cons,
          if_neg hc]

theorem backslash_not_mem_slashed (t : Text) : '\\' ∉ slashed t := by
  intro h
  obtain ⟨c, -, e⟩ := List.mem_map.mp h
  split at e
  · cases e
  · next hc => exact hc e

/-- A reference that does not stay below the root: it starts there, or climbs above it. -/
def Leaves (t : Text) : Prop := (slashed t).head? = some '/' ∨ Climbs (Path.parts (slashed t))

end Path

open Pagewright.Path

/-! ### Shelves -/

namespace Shelf

variable (scope : Text) {p : Text}

/-- A reference is refused if its normal form leads out of the shelf. -/
theorem locate_outside (h : Outside (normal (slashed p))) :
    locate scope p = .error (.outside p label scope) := by
  unfold locate
  rw [replaceAll_backslash]
  exact if_pos h

theorem locate_inside (h : ¬ Outside (normal (slashed p))) :
    locate scope p = .ok (normal (slashed p)) := by
  unfold locate
  rw [replaceAll_backslash]
  exact if_neg h

theorem locate_leaves (h : Leaves p) : locate scope p = .error (.outside p label scope) := by
  apply locate_outside
  by_cases rooted : (slashed p).head? = some '/'
  · exact outside_of_rooted rooted
  · exact outside_of_climbs rooted (h.resolve_left rooted)

theorem locate_dot : locate scope ['.'] = .ok ['.'] := rfl

/-- What stays below leads to the shelf itself or to a canonical path, which leads to itself. -/
theorem locate_stays (h : ¬ Leaves p) :
    locate scope p = .ok (normal (slashed p)) ∧
      (normal (slashed p) = ['.'] ∨ Canonical (normal (slashed p))) ∧
        ∀ scope', locate scope' (normal (slashed p)) = .ok (normal (slashed p)) := by
  obtain ⟨relative, level⟩ := not_or.mp h
  have form := normal_relative relative
  by_cases empty : rest (slashed p) = []
  · rw [if_pos empty] at form
    have inside : ¬ Outside (normal (slashed p)) := by
      rw [form]
      unfold Outside
      decide
    exact ⟨locate_inside scope inside, Or.inl form, fun scope' => form ▸ locate_dot scope'⟩
  · rw [if_neg empty] at form
    have canonical : Canonical (normal (slashed p)) := form ▸ canonical_join empty level
    have plain : '\\' ∉ normal (slashed p) := by
      rw [form]
      intro hm
      obtain hm | ⟨c, hc, hm⟩ := mem_join hm
      · exact absurd hm (by decide)
      · have mem := mem_join_of_mem "/" (mem_parts.mp (mem_reduce hc)).1 hm
        rw [show join "/" (splitOn "/" (slashed p)) = slashed p from join_splitOn '/' _] at mem
        exact backslash_not_mem_slashed p mem
    exact ⟨locate_inside scope canonical.not_outside, Or.inr canonical,
      fun scope' => locate_canonical scope' canonical plain⟩

/-- **A shelf is never left, and every place in it has one path.**  A reference is refused exactly if,
with its backslashes read as slashes, it starts at the root or has at some point on the way more steps
back than names.  Every other reference leads to the shelf itself or to a path whose components are
neither empty nor full stops, and that path leads to itself.  Two references lead to one path exactly if
their components can be reduced to the same ones by taking out names and the steps back behind them. -/
theorem locate_contained (scope p : Text) :
    (locate scope p = .error (.outside p label scope) ↔ Leaves p) ∧
      (¬ Leaves p → ∃ r, locate scope p = .ok r ∧ (r = ['.'] ∨ Canonical r) ∧
        (∀ scope', locate scope' r = .ok r) ∧
          ∀ scope' p' r', locate scope' p' = .ok r' →
            (r' = r ↔ ∃ cs, Reduces (Path.parts (slashed p')) cs ∧
              Reduces (Path.parts (slashed p)) cs)) := by
  constructor
  · constructor
    · intro refused
      by_contra h
      rw [(locate_stays scope h).1] at refused
      cases refused
    · exact locate_leaves scope
  · intro h
    obtain ⟨found, form, again⟩ := locate_stays scope h
    refine ⟨_, found, form, again, fun scope' p' r' found' => ?_⟩
    have h' : ¬ Leaves p' := by
      intro h'
      rw [locate_leaves scope' h'] at found'
      cases found'
    rw [(locate_stays scope' h').1] at found'
    obtain rfl := Except.ok.inj found'
    rw [normal_eq_iff (not_or.mp h').1 (not_or.mp h).1]
    exact reduce_eq_iff

example : locate "include" "a\\..\\b/./c" = .ok "b/c" := by decide

end Shelf

end Pagewright
