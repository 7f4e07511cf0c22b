import Pagewright.Proofs.Directive.Outline
import Pagewright.Proofs.Directive.Scan

/-! # Blocks that nest, against one scan

A block that a page carries over to a layout reaches up to the first closer at which openers and
closers of its family are equally many, counted from its opener on (`blockEnd?_eq_some_iff`).  Going
from block to block (`Gathers`), an opener that no closer balances is passed over, and one that stands
inside of a block is not looked at; all other openers begin blocks.  So every opener that a closer
balances stands in exactly one block (`carriedBlocks_balanced`), however families overlap.

Main definitions: `Level`, `LevelsAt`, `Balances`, `carriedOpeners`, `Gathers`, `Covers`. -/

namespace Pagewright.Directive

open Text

variable {t : Text}

/-! ### Counting openers and closers -/

/-- Openers and closers of a family are equally many among directives, with `k` openers more in front
of them. -/
def Level (f : Text × Text) (k : Nat) (ds : List Directive) : Prop :=
  ds.countP (fun d => d.name = f.1) + k = ds.countP fun d => d.name = f.2

/-- The closer `e` is the first one behind the directives `mid` at which openers and closers of a family
are equally many, with `k` openers more in front of them. -/
structure LevelsAt (f : Text × Text) (k : Nat) (mid : List Directive) (e : Directive) : Prop where
  closes : e.name = f.2
  level : Level f k (mid ++ [e])
  first : ∀ x c y, mid = x ++ c :: y → c.name = f.2 → ¬ Level f k (x ++ [c])

/-- Among the directives of a scan, `e` balances the opener `d` of a family: it is the first closer at
which, counted from `d` on, openers and closers are equally many. -/
def Balances (f : Text × Text) (ds : List Directive) (d e : Directive) : Prop :=
  ∃ before mid after, ds = before ++ d :: (mid ++ e :: after) ∧ d.name = f.1 ∧
    LevelsAt f 0 (d :: mid) e

section

variable {f : Text × Text} {k : Nat} {d e : Directive} {mid ds : List Directive}

theorem level_opener (hf : f.1 ≠ f.2) (hd : d.name = f.1) :
    Level f k (d :: ds) ↔ Level f (k + 1) ds := by
  have other : d.name ≠ f.2 := hd ▸ hf
  rw [Level, Level, List.countP_cons_of_pos (by simp [hd]), List.countP_cons_of_neg (by simp [other])]
  omega

theorem level_closer (hf : f.1 ≠ f.2) (hd : d.name = f.2) :
    Level f (k + 1) (d :: ds) ↔ Level f k ds := by
  have other : d.name ≠ f.1 := hd ▸ hf.symm
  rw [Level, Level, List.countP_cons_of_neg (by simp [other]), List.countP_cons_of_pos (by simp [hd])]
  omega

theorem level_other (ho : d.name ≠ f.1) (hc : d.name ≠ f.2) : Level f k (d :: ds) ↔ Level f k ds := by
  rw [Level, Level, List.countP_cons_of_neg (by simp [ho]), List.countP_cons_of_neg (by simp [hc])]

/-- A closer alone levels one opener. -/
theorem level_single (hf : f.1 ≠ f.2) (hd : d.name = f.2) : Level f k [d] ↔ k = 1 := by
  have other : d.name ≠ f.1 := hd ▸ hf.symm
  rw [Level, List.countP_cons_of_neg (by simp [other]), List.countP_cons_of_pos (by simp [hd]),
    List.countP_nil, List.countP_nil, Nat.zero_add]

/-- A first closer behind one directive and others. -/
theorem levelsAt_cons {j : Nat} (step : ∀ ds, Level f k (d :: ds) ↔ Level f j ds)
    (early : d.name = f.2 → ¬ Level f k [d]) :
    LevelsAt f k (d :: mid) e ↔ LevelsAt f j mid e := by
  constructor
  · rintro ⟨closes, level, first⟩
    refine ⟨closes, (step _).mp level, fun x c y cut hc here => ?_⟩
    exact first (d :: x) c y (congrArg (d :: ·) cut) hc ((step _).mpr here)
  · rintro ⟨closes, level, first⟩
    refine ⟨closes, (step _).mpr level, fun x c y cut hc here => ?_⟩
    cases x with
    | nil =>
      obtain ⟨rfl, -⟩ := List.cons.inj cut
      exact early hc here
    | cons b x =>
      obtain ⟨rfl, rest⟩ := List.cons.inj cut
      exact first x c y rest hc ((step _).mp here)

/-- A closer at the front is the first one that levels one opener. -/
theorem levelsAt_one_iff (hf : f.1 ≠ f.2) (hd : d.name = f.2) {i : Nat} :
    (∃ mid after, d :: ds = mid ++ e :: after ∧ mid.length = i ∧ LevelsAt f 1 mid e) ↔
      i = 0 ∧ e = d := by
  have level : Level f 1 [d] := (level_single hf hd).mpr rfl
  constructor
  · rintro ⟨mid, after, whole, rfl, levels⟩
    cases mid with
    | nil => exact ⟨rfl, (List.cons.inj whole).1.symm⟩
    | cons c mid =>
      obtain ⟨rfl, -⟩ := List.cons.inj whole
      exact absurd level (levels.first [] d mid rfl hd)
  · rintro ⟨rfl, rfl⟩
    exact ⟨[], ds, rfl, rfl, hd, level, fun x c y cut => by simp at cut⟩

theorem behind_eq_some {x : Option (Nat × Directive)} {i : Nat} :
    behind 1 x = some (i, e) ↔ ∃ j, j + 1 = i ∧ x = some (j, e) := by
  cases x with
  | none => simp [behind]
  | some p =>
    obtain ⟨j, d⟩ := p
    simp [behind, and_comm, eq_comm]

/-- Where no search ends at the first directive, it goes on behind it. -/
theorem exists_levelsAt_cons {j i : Nat} (step : ∀ ds, Level f k (d :: ds) ↔ Level f j ds)
    (early : d.name = f.2 → ¬ Level f k [d]) :
    (∃ mid after, d :: ds = mid ++ e :: after ∧ mid.length = i ∧ LevelsAt f k mid e) ↔
      ∃ n, n + 1 = i ∧
        ∃ mid after, ds = mid ++ e :: after ∧ mid.length = n ∧ LevelsAt f j mid e := by
  constructor
  · rintro ⟨mid, after, whole, rfl, levels⟩
    cases mid with
    | nil =>
      obtain ⟨rfl, -⟩ := List.cons.inj whole
      exact absurd levels.level (early levels.closes)
    | cons c mid =>
      obtain ⟨rfl, rest⟩ := List.cons.inj whole
      exact ⟨mid.length, rfl, mid, after, rest, rfl, (levelsAt_cons step early).mp levels⟩
  · rintro ⟨_, rfl, mid, after, rfl, rfl, levels⟩
    exact ⟨d :: mid, after, rfl, rfl, (levelsAt_cons step early).mpr levels⟩

/-- **A search ends at the first closer at which openers and closers are equally many**, the block that
it is for counted, too. -/
theorem balance?_eq_some_iff (hf : f.1 ≠ f.2) {depth i : Nat} :
    balance? f.1 f.2 depth ds = some (i, e) ↔
      ∃ mid after, ds = mid ++ e :: after ∧ mid.length = i ∧ LevelsAt f (depth + 1) mid e := by
  -- A directive changes the number of openers in front as it changes the depth.
  induction ds generalizing depth i with
  | nil => simp [balance?]
  | cons d ds ih =>
    by_cases opens : d.name = f.1
    · rw [balance?_opener depth opens, behind_eq_some,
        exists_levelsAt_cons (fun _ => level_opener hf opens) fun closes =>
          absurd (opens.symm.trans closes) hf]
      simp only [ih]
    · by_cases closes : d.name = f.2
      · cases depth with
        | zero =>
          rw [balance?_closed hf closes, levelsAt_one_iff hf closes, Option.some.injEq, Prod.mk.injEq,
            eq_comm, eq_comm (a := d)]
        | succ depth =>
          rw [balance?_closer hf depth closes, behind_eq_some,
            exists_levelsAt_cons (fun _ => level_closer hf closes) fun _ level => ?_]
          · simp only [ih]
          · have one := (level_single hf closes).mp level
            omega
      · rw [balance?_other depth opens closes, behind_eq_some,
          exists_levelsAt_cons (fun _ => level_other opens closes) fun name => absurd name closes]
        simp only [ih]

end

/-! ### Blocks that are carried over -/

/-- The names of the directives that open carried blocks. -/
def carriedOpeners : List Text := carriedFamilies.map Prod.fst

/-- The openers and closers of the carried blocks that are found from an offset on when one goes from
block to block: each time the next opener is looked for, and behind it the closer that balances it;
where there is none one goes on behind the opener. -/
inductive Gathers (t : Text) : Nat → List (Directive × Directive) → Prop
  | done {pos : Nat} : next? carriedOpeners t pos = none → Gathers t pos []
  | skipped {pos : Nat} {f : Text × Text} {d : Directive} {ps : List (Directive × Directive)} :
      next? carriedOpeners t pos = some d → f ∈ carriedFamilies → d.name = f.1 →
        blockEnd? f.1 f.2 t d.stop = none → Gathers t d.stop ps → Gathers t pos ps
  | block {pos : Nat} {f : Text × Text} {d e : Directive} {ps : List (Directive × Directive)} :
      next? carriedOpeners t pos = some d → f ∈ carriedFamilies → d.name = f.1 →
        blockEnd? f.1 f.2 t d.stop = some e → Gathers t e.stop ps → Gathers t pos ((d, e) :: ps)

/-- A block covers a directive. -/
def Covers (p : Directive × Directive) (d : Directive) : Prop :=
  p.1.start ≤ d.start ∧ d.stop ≤ p.2.stop

section

variable {f : Text × Text} {pos : Nat} {d e : Directive} {ps : List (Directive × Directive)}

/-- The end of a block is the first closer at which openers and closers are equally many. -/
theorem blockEnd?_eq_some_iff (hf : f.1 ≠ f.2) : blockEnd? f.1 f.2 t pos = some e ↔
    ∃ mid, directives t pos = mid ++ e :: directives t e.stop ∧ LevelsAt f 1 mid e := by
  constructor
  · intro found
    obtain ⟨⟨i, e'⟩, search, rfl⟩ := Option.map_eq_some_iff.mp found
    obtain ⟨mid, after, whole, -, levels⟩ := (balance?_eq_some_iff hf).mp search
    refine ⟨mid, ?_, levels⟩
    rw [directives_resumed whole]
    exact whole
  · rintro ⟨mid, whole, levels⟩
    have search := (balance?_eq_some_iff hf).mpr ⟨mid, _, whole, rfl, levels⟩
    exact congrArg (Option.map Prod.snd) search

theorem blockEnd?_bounded (hf : f.1 ≠ f.2) (h : blockEnd? f.1 f.2 t pos = some e) :
    pos < e.stop ∧ e.stop ≤ t.length := by
  obtain ⟨mid, whole, -⟩ := (blockEnd?_eq_some_iff hf).mp h
  have mem : e ∈ directives t pos := by
    rw [whole]
    exact List.mem_append_right mid List.mem_cons_self
  obtain ⟨front, around, inside, -⟩ := written_of_mem mem
  exact ⟨by omega, inside⟩

/-- **An opener of the scan is balanced by the end of its block**, if this has an end. -/
theorem balances_iff (hf : f.1 ≠ f.2) (hd : d.name = f.1) (mem : d ∈ directives t pos) :
    Balances f (directives t pos) d e ↔ blockEnd? f.1 f.2 t d.stop = some e := by
  have counted : ∀ mid, LevelsAt f 0 (d :: mid) e ↔ LevelsAt f 1 mid e := fun mid =>
    levelsAt_cons (fun _ => level_opener hf hd) fun closes => absurd (hd.symm.trans closes) hf
  rw [blockEnd?_eq_some_iff hf]
  constructor
  · rintro ⟨before', mid, after, split, -, levels⟩
    have rest := directives_resumed split
    refine ⟨mid, ?_, (counted mid).mp levels⟩
    rw [directives_resumed rest]
    exact rest
  · rintro ⟨mid, rest, levels⟩
    obtain ⟨before, after, whole⟩ := List.append_of_mem mem
    obtain rfl : after = _ := (directives_resumed whole).symm.trans rest
    exact ⟨before, mid, directives t e.stop, whole, hd, (counted mid).mpr levels⟩

/-- What stands behind an opener up to the end of its block is covered by the block. -/
theorem exists_covered (hf : f.1 ≠ f.2) (opener : d ∈ directives t pos)
    (last : blockEnd? f.1 f.2 t d.stop = some e) :
    ∃ inner, directives t d.stop = inner ++ directives t e.stop ∧ ∀ c ∈ inner, Covers (d, e) c := by
  obtain ⟨mid, rest, -⟩ := (blockEnd?_eq_some_iff hf).mp last
  rw [List.append_cons] at rest
  obtain ⟨-, around, -, -⟩ := written_of_mem opener
  have written : ∀ c ∈ mid ++ [e], d.stop ≤ c.start ∧ c.start < c.stop := fun c hc => by
    obtain ⟨front, inside, -⟩ := written_of_mem (rest ▸ List.mem_append_left _ hc)
    exact ⟨front, inside⟩
  have apart := apart_directives t d.stop
  rw [rest, List.pairwise_append, List.pairwise_append] at apart
  refine ⟨mid ++ [e], rest, fun c hc => ⟨?_, ?_⟩⟩
  · exact Nat.le_trans (Nat.le_of_lt around) (written c hc).1
  · obtain hm | he := List.mem_append.mp hc
    · have before := apart.1.2.2 c hm e (List.mem_singleton_self e)
      have last := (written e (List.mem_append_right mid (List.mem_singleton_self e))).2
      exact Nat.le_trans before (Nat.le_of_lt last)
    · rw [List.mem_singleton.mp he]

/-- Whether an opener is balanced depends on what comes behind it. -/
theorem Balances.before {ds : List Directive} (h : Balances f ds d e) (xs : List Directive) :
    Balances f (xs ++ ds) d e := by
  obtain ⟨before, mid, after, rfl, rest⟩ := h
  exact ⟨xs ++ before, mid, after, (List.append_assoc _ _ _).symm, rest⟩

theorem Balances.behind {xs ys : List Directive} (h : Balances f (xs ++ ys) d e) :
    d ∈ xs ∨ Balances f ys d e := by
  obtain ⟨before, mid, after, whole, rest⟩ := h
  obtain ⟨m, rfl, e'⟩ | ⟨m, rfl, e'⟩ := List.append_eq_append_iff.mp whole
  · exact Or.inr ⟨m, mid, after, e', rest⟩
  · cases m with
    | nil => exact Or.inr ⟨[], mid, after, e'.symm, rest⟩
    | cons c m =>
      obtain ⟨rfl, -⟩ := List.cons.inj e'
      exact Or.inl (List.mem_append_right before List.mem_cons_self)

theorem family_unique {g : Text × Text} (hf : f ∈ carriedFamilies) (hg : g ∈ carriedFamilies)
    (name : f.1 = g.1) : f = g := by
  by_contra differ
  exact ((family_names g hg).2.2.2.2 f hf differ).1 name

/-- The next opener of a carried block, with its family. -/
theorem exists_of_opener (h : next? carriedOpeners t pos = some d) :
    ∃ f ∈ carriedFamilies, d.name = f.1 := by
  obtain ⟨f, hf, name⟩ := List.mem_map.mp (next?_eq_some h).1
  exact ⟨f, hf, name.symm⟩

/-- Going from carried block to carried block ends. -/
theorem exists_gathers (t : Text) (pos : Nat) : ∃ ps, Gathers t pos ps := by
  induction pos using induction_behind t with
  | h pos ih =>
    cases opener : next? carriedOpeners t pos with
    | none => exact ⟨[], .done opener⟩
    | some d =>
      obtain ⟨f, hf, name⟩ := exists_of_opener opener
      obtain ⟨front, inside⟩ := next?_bounded opener
      cases last : blockEnd? f.1 f.2 t d.stop with
      | none =>
        obtain ⟨ps, behind⟩ := ih d.stop front inside
        exact ⟨ps, .skipped opener hf name last behind⟩
      | some e =>
        obtain ⟨front', inside'⟩ := blockEnd?_bounded (family_names f hf).1 last
        obtain ⟨ps, behind⟩ := ih e.stop (by omega) inside'
        exact ⟨_, .block opener hf name last behind⟩

/-- There is one way to go from carried block to carried block. -/
theorem Gathers.unique (h : Gathers t pos ps) : ∀ {qs}, Gathers t pos qs → qs = ps := by
  -- Both searches find the same opener, of the same family, and the same end of its block.
  induction h with
  | done none =>
    intro qs h'
    cases h' with
    | done => rfl
    | skipped opener => cases none.symm.trans opener
    | block opener => cases none.symm.trans opener
  | skipped opener hf name last _ ih =>
    intro qs h'
    cases h' with
    | done none => cases none.symm.trans opener
    | skipped opener' _ _ _ behind =>
      obtain rfl := Option.some.inj (opener.symm.trans opener')
      exact ih behind
    | block opener' hg name' last' _ =>
      obtain rfl := Option.some.inj (opener.symm.trans opener')
      obtain rfl := family_unique hf hg (name.symm.trans name')
      cases last.symm.trans last'
  | block opener hf name last _ ih =>
    intro qs h'
    cases h' with
    | done none => cases none.symm.trans opener
    | skipped opener' hg name' last' _ =>
      obtain rfl := Option.some.inj (opener.symm.trans opener')
      obtain rfl := family_unique hf hg (name.symm.trans name')
      cases last.symm.trans last'
    | block opener' hg name' last' behind =>
      obtain rfl := Option.some.inj (opener.symm.trans opener')
      obtain rfl := family_unique hf hg (name.symm.trans name')
      obtain rfl := Option.some.inj (last.symm.trans last')
      rw [ih behind]

/-! ### What is gathered -/

theorem carriedFrom_before (ds : List Directive) : ∀ {before : List Directive},
    (∀ b ∈ before, b.name ∉ carriedOpeners) → carriedFrom t 0 (before ++ ds) = carriedFrom t 0 ds
  | [], _ => rfl
  | b :: before, h => by
      have other : carriedFamilies.lookup b.name = none := by
        rw [List.lookup_eq_none_iff]
        intro f hf
        have differ : b.name ≠ f.1 := fun e =>
          h b List.mem_cons_self (e ▸ List.mem_map_of_mem hf)
        simpa using differ
      rw [List.cons_append, carriedFrom, other]
      exact carriedFrom_before ds fun c hc => h c (List.mem_cons_of_mem b hc)

/-- What a block is written as. -/
def blockText (t : Text) (p : Directive × Directive) : Text := slice t p.1.start p.2.stop

/-- **Going from block to block finds the carried blocks among the directives** of a single scan. -/
theorem Gathers.eq_carriedFrom (h : Gathers t pos ps) :
    carriedFrom t 0 (directives t pos) = ps.map (blockText t) := by
  induction h with
  | @done pos none =>
    have all := carriedFrom_before (t := t) [] (next?_eq_none.mp none)
    rw [List.append_nil] at all
    exact all
  | @skipped pos f d ps opener hf name last _ ih =>
    obtain ⟨-, before, whole, others⟩ := next?_eq_some opener
    have open_ : balance? f.1 f.2 0 (directives t d.stop) = none := Option.map_eq_none_iff.mp last
    rw [whole, carriedFrom_before _ others, carriedFrom, name, (family_names f hf).2.2.2.1]
    simp only [open_]
    exact ih
  | @block pos f d e ps opener hf name last _ ih =>
    obtain ⟨-, before, whole, others⟩ := next?_eq_some opener
    obtain ⟨mid, rest, levels⟩ := (blockEnd?_eq_some_iff (family_names f hf).1).mp last
    have search := (balance?_eq_some_iff (family_names f hf).1).mpr
      ⟨mid, directives t e.stop, rfl, rfl, levels⟩
    rw [whole, carriedFrom_before _ others, rest, carriedFrom_closed t hf name search, ih]
    rfl

/-- Blocks that are gathered stand one behind the other, and each reaches from an opener to the closer
that balances it. -/
theorem Gathers.laid (h : Gathers t pos ps) :
    (∀ p ∈ ps, pos ≤ p.1.start ∧ p.1.start < p.2.stop ∧ p.2.stop ≤ t.length ∧
      ∃ f ∈ carriedFamilies, Balances f (directives t pos) p.1 p.2) ∧
    ps.Pairwise fun p q => p.2.stop ≤ q.1.start := by
  induction h with
  | done => exact ⟨fun p hp => absurd hp List.not_mem_nil, .nil⟩
  | @skipped pos f d ps opener hf name last _ ih =>
    obtain ⟨front, -⟩ := next?_bounded opener
    obtain ⟨-, before, whole, -⟩ := next?_eq_some opener
    refine ⟨fun p hp => ?_, ih.2⟩
    obtain ⟨later, around, inside, g, hg, balances⟩ := ih.1 p hp
    refine ⟨by omega, around, inside, g, hg, ?_⟩
    rw [whole, List.append_cons]
    exact balances.before (before ++ [d])
  | @block pos f d e ps opener hf name last _ ih =>
    have differ := (family_names f hf).1
    have mem := next?_mem opener
    obtain ⟨start, around, -, -⟩ := written_of_mem mem
    obtain ⟨front, inside⟩ := blockEnd?_bounded differ last
    obtain ⟨-, before, whole, -⟩ := next?_eq_some opener
    obtain ⟨inner, rest, -⟩ := exists_covered differ mem last
    have first : Balances f (directives t pos) d e := (balances_iff differ name mem).mpr last
    refine ⟨List.forall_mem_cons.mpr ⟨⟨start, Nat.lt_trans around front, inside, f, hf, first⟩,
      fun p hp => ?_⟩, .cons (fun p hp => (ih.1 p hp).1) ih.2⟩
    obtain ⟨later, around', inside', g, hg, balances⟩ := ih.1 p hp
    refine ⟨by omega, around', inside', g, hg, ?_⟩
    rw [whole, rest, ← List.cons_append, ← List.append_assoc]
    exact balances.before (before ++ d :: inner)

/-- An opener is the next one or comes behind it. -/
theorem mem_behind_next (opener : next? carriedOpeners t pos = some d) {c : Directive}
    (hc : c ∈ directives t pos) (name : c.name ∈ carriedOpeners) :
    c = d ∨ c ∈ directives t d.stop := by
  obtain ⟨-, before, whole, others⟩ := next?_eq_some opener
  rw [whole] at hc
  obtain hc | hc := List.mem_append.mp hc
  · exact absurd name (others c hc)
  · exact List.mem_cons.mp hc

theorem Balances.mem {ds : List Directive} (h : Balances f ds d e) : d ∈ ds ∧ d.name = f.1 := by
  obtain ⟨before, mid, after, rfl, name, -⟩ := h
  exact ⟨List.mem_append_right before List.mem_cons_self, name⟩

/-- **Every opener with a closer that balances it is covered by a block.** -/
theorem Gathers.covered (h : Gathers t pos ps) {g : Text × Text} (hg : g ∈ carriedFamilies)
    {c x : Directive} (balances : Balances g (directives t pos) c x) : ∃ p ∈ ps, Covers p c := by
  have name : c.name ∈ carriedOpeners := balances.mem.2 ▸ List.mem_map_of_mem hg
  induction h with
  | done none => exact absurd name (next?_eq_none.mp none c balances.mem.1)
  | @skipped pos f d ps opener hf kind last _ ih =>
    obtain ⟨-, before, whole, others⟩ := next?_eq_some opener
    by_cases same : c = d
    · subst same
      obtain rfl := family_unique hf hg (kind.symm.trans balances.mem.2)
      have found := (balances_iff (family_names f hf).1 kind balances.mem.1).mp balances
      cases last.symm.trans found
    · rw [whole, List.append_cons] at balances
      obtain front | behind := balances.behind
      · obtain front | here := List.mem_append.mp front
        · exact absurd name (others c front)
        · exact absurd (List.mem_singleton.mp here) same
      · exact ih behind
  | @block pos f d e ps opener hf kind last _ ih =>
    have differ := (family_names f hf).1
    obtain ⟨-, before, whole, others⟩ := next?_eq_some opener
    obtain ⟨inner, rest, covered⟩ := exists_covered differ (next?_mem opener) last
    rw [whole, rest, ← List.cons_append, ← List.append_assoc] at balances
    -- It stands in this block, or it is balanced by what stands behind the block as well.
    obtain front | behind := balances.behind
    · refine ⟨(d, e), List.mem_cons_self, ?_⟩
      obtain front | front := List.mem_append.mp front
      · exact absurd name (others c front)
      · obtain rfl | within := List.mem_cons.mp front
        · exact ⟨Nat.le_refl _, Nat.le_of_lt (blockEnd?_bounded differ last).1⟩
        · exact covered c within
    · obtain ⟨p, hp, covers⟩ := ih behind
      exact ⟨p, List.mem_cons_of_mem _ hp, covers⟩

/-- **An opener outside of all blocks hides none**: the blocks behind it are those that are found when one
begins there. -/
theorem Gathers.resumed (h : Gathers t pos ps) {c : Directive} (hc : c ∈ directives t pos)
    (name : c.name ∈ carriedOpeners) (outside : ∀ p ∈ ps, ¬ Covers p c) :
    ∃ qs, qs <:+ ps ∧ Gathers t c.stop qs := by
  induction h with
  | done none => exact absurd name (next?_eq_none.mp none c hc)
  | @skipped pos f d ps opener _ _ _ behind ih =>
    obtain rfl | later := mem_behind_next opener hc name
    · exact ⟨ps, List.suffix_rfl, behind⟩
    · exact ih later outside
  | @block pos f d e ps opener hf _ last _ ih =>
    have differ := (family_names f hf).1
    obtain ⟨uncovered, others⟩ := List.forall_mem_cons.mp outside
    obtain rfl | later := mem_behind_next opener hc name
    · exact absurd ⟨Nat.le_refl _, Nat.le_of_lt (blockEnd?_bounded differ last).1⟩ uncovered
    · obtain ⟨inner, rest, covered⟩ := exists_covered differ (next?_mem opener) last
      rw [rest] at later
      obtain within | behind := List.mem_append.mp later
      · exact absurd (covered c within) uncovered
      · obtain ⟨qs, suffix, gathers⟩ := ih behind others
        exact ⟨qs, suffix.trans (List.suffix_cons _ _), gathers⟩

/-- Of blocks that stand one behind the other, one at most covers a directive. -/
theorem eq_of_covers {c : Directive} (around : c.start < c.stop) :
    ∀ {ps : List (Directive × Directive)}, ps.Pairwise (fun p q => p.2.stop ≤ q.1.start) →
      ∀ p ∈ ps, ∀ q ∈ ps, Covers p c → Covers q c → p = q
  | [], _, _, hp, _, _, _, _ => absurd hp List.not_mem_nil
  | r :: ps, h, p, hp, q, hq, cp, cq => by
      obtain ⟨first, later⟩ := List.pairwise_cons.mp h
      obtain ⟨startp, stopp⟩ := cp
      obtain ⟨startq, stopq⟩ := cq
      obtain ep | mp := List.mem_cons.mp hp
      · obtain eq | mq := List.mem_cons.mp hq
        · exact ep.trans eq.symm
        · have apart := first q mq
          rw [← ep] at apart
          omega
      · obtain eq | mq := List.mem_cons.mp hq
        · have apart := first p mp
          rw [← eq] at apart
          omega
        · exact eq_of_covers around later p mp q mq ⟨startp, stopp⟩ ⟨startq, stopq⟩

end

/-- **Carried blocks are matched by nesting.**  Going from block to block ends, and finds the carried
blocks of a text: they stand one behind the other, and each reaches from an opener to the closer that
balances it.  Every opener that a closer balances is covered by one block and no other, and one outside
of all blocks, which none balances, hides none of the blocks behind it. -/
theorem carriedBlocks_balanced (t : Text) : ∃ ps : List (Directive × Directive),
    (∀ qs, Gathers t 0 qs ↔ qs = ps) ∧
    carriedBlocks t = ps.map (fun p => slice t p.1.start p.2.stop) ∧
    (∀ p ∈ ps, p.1.start < p.2.stop ∧ p.2.stop ≤ t.length ∧
      ∃ f ∈ carriedFamilies, Balances f (directives t) p.1 p.2) ∧
    ps.Pairwise (fun p q => p.2.stop ≤ q.1.start) ∧
    (∀ f ∈ carriedFamilies, ∀ d e, Balances f (directives t) d e → ∃! p, p ∈ ps ∧ Covers p d) ∧
    (∀ d ∈ directives t, d.name ∈ carriedOpeners → (∀ p ∈ ps, ¬ Covers p d) →
      ∃ qs, qs <:+ ps ∧ Gathers t d.stop qs) := by
  obtain ⟨ps, gathers⟩ := exists_gathers t 0
  obtain ⟨inside, apart⟩ := gathers.laid
  refine ⟨ps, fun qs => ⟨fun h => gathers.unique h, fun e => e ▸ gathers⟩, gathers.eq_carriedFrom,
    fun p hp => (inside p hp).2, apart, fun f hf d e balances => ?_,
    fun d hd name outside => gathers.resumed hd name outside⟩
  obtain ⟨p, hp, covers⟩ := gathers.covered hf balances
  obtain ⟨-, around, -, -⟩ := written_of_mem balances.mem.1
  exact ⟨p, ⟨hp, covers⟩, fun q ⟨hq, covers'⟩ => eq_of_covers around apart q hq p hp covers' covers⟩

/-- A block hides what stands in it, of whatever family, and an opener that nothing balances hides
nothing. -/
example : carriedBlocks "@once@push('a')1@once@push('b')2@endpush@endpush@prepend('c')3@endprepend" =
    ["@push('a')1@once@push('b')2@endpush@endpush".toList, "@prepend('c')3@endprepend".toList] := by
  decide +kernel

end Pagewright.Directive
