import Mathlib.Algebra.Order.Ring.Rat
import Mathlib.Data.Finset.Card
import Mathlib.Data.Finset.Dedup
import Mathlib.Order.WithBot
import Pagewright.Proofs.Memo.Account

/-! # What a memo remembers

What a lookup answers is told from the log alone.  The value under a key is the one that was set last,
if the entry was not taken out or cleared since (`LastSet`) and its time is not over
(`Lifetime.span`).  An entry makes room for others only when as many other keys as the memo may hold
have been used after it (`recent`).  Both come from what every call keeps: the entries of a memo are
the last settings of their keys (`sound_replay`), and a last setting is among the entries as long as it
is fresh and few other keys were used (`mem_replay`).  `get_replay` is the lookup after any log.

Main definitions: `Lifetime.span`, `Ticking`, `LastSet`, `standing`, `recent`. -/

namespace Pagewright

/-! ### Lifetimes -/

/-- The longest time that a lifetime allows, in seconds.  What is not a number allows any time. -/
def Lifetime.span : Lifetime → WithBot (WithTop Rat)
  | .whole n => ((n : Rat) : WithTop Rat)
  | .decimal x =>
    match Number.decode x with
    | .finite negative mantissa exponent =>
      let (num, den) := Number.dyadic mantissa exponent
      ((mkRat (if negative then -(num : Int) else num) den : Rat) : WithTop Rat)
    | .infinite negative => if negative then ⊥ else ((⊤ : WithTop Rat) : WithBot (WithTop Rat))
    | .notANumber => ((⊤ : WithTop Rat) : WithBot (WithTop Rat))

/-- A time as a stretch that can be compared with the longest one. -/
def elapsed (q : Rat) : WithBot (WithTop Rat) := ((q : WithTop Rat) : WithBot (WithTop Rat))

theorem elapsed_lt_elapsed {p q : Rat} : elapsed p < elapsed q ↔ p < q := by
  simp [elapsed]

theorem elapsed_le_elapsed {p q : Rat} : elapsed p ≤ elapsed q ↔ p ≤ q := by
  simp [elapsed]

theorem Lifetime.isOver_iff (l : Lifetime) (q : Rat) : l.isOver q ↔ l.span < elapsed q := by
  cases l with
  | whole n =>
    rw [isOver, decide_eq_true_iff]
    exact elapsed_lt_elapsed.symm
  | decimal x =>
    rw [isOver, span]
    cases Number.decode x with
    | finite negative mantissa exponent =>
      simp only [decide_eq_true_iff]
      exact elapsed_lt_elapsed.symm
    | infinite negative => cases negative <;> simp [elapsed]
    | notANumber => simp [elapsed]

namespace Memo

variable {capacity : Int} {lifetime : Lifetime} {log : Log}
variable {m : Memo} {now t : Rat} {k v : Text} {e : Entry}

theorem isStale_eq_false_iff :
    m.isStale now e = false ↔ elapsed (now - e.stamp) ≤ m.lifetime.span := by
  rw [isStale, ← Bool.not_eq_true, Lifetime.isOver_iff, not_lt]

/-! ### The last setting of a key -/

/-- The clock did not go back from the first call of a log to a time. -/
def Ticking (now : Rat) (log : Log) : Prop := (now :: log.map Prod.fst).Pairwise (· ≥ ·)

instance (now : Rat) (log : Log) : Decidable (Ticking now log) :=
  inferInstanceAs (Decidable ((now :: log.map Prod.fst).Pairwise (· ≥ ·)))

/-- After a call of this kind an entry that a key had before no longer counts. -/
def Call.Settles (k : Text) : Call → Prop
  | .set k' _ => k' = k
  | .remove k' => k' = k
  | .clear => True
  | _ => False

/-- A key was set last to a value at a time, and was neither removed nor cleared since. -/
def LastSet (log : Log) (k v : Text) (t : Rat) : Prop :=
  ∃ newer older, log = newer ++ (t, .set k v) :: older ∧ ∀ s ∈ newer, ¬s.2.Settles k

/-- What a call at a time makes of the last value of a key and the time at which it was set. -/
def settle (k : Text) (now : Rat) (c : Call) (before : Option (Text × Rat)) : Option (Text × Rat) :=
  match c with
  | .set k' v => if k' = k then some (v, now) else before
  | .remove k' => if k' = k then none else before
  | .clear => none
  | _ => before

/-- The last value of a key and the time at which it was set. -/
def standing (k : Text) : Log → Option (Text × Rat)
  | [] => none
  | (now, c) :: log => settle k now c (standing k log)

theorem settle_of_not_settles {c : Call} {before : Option (Text × Rat)} (h : ¬c.Settles k) :
    settle k now c before = before := by
  cases c with
  | get k' => rfl
  | set k' v => exact if_neg h
  | remove k' => exact if_neg h
  | clear => exact absurd trivial h
  | sweep => rfl
  | stats => rfl

theorem settle_eq_some {c : Call} {before : Option (Text × Rat)} (h : c.Settles k)
    (hs : settle k now c before = some (v, t)) : c = .set k v ∧ t = now := by
  cases c with
  | get k' => exact absurd h id
  | set k' w =>
    obtain rfl : k' = k := h
    rw [settle, if_pos rfl] at hs
    obtain ⟨rfl, rfl⟩ := Prod.mk.inj (Option.some.inj hs)
    exact ⟨rfl, rfl⟩
  | remove k' =>
    obtain rfl : k' = k := h
    rw [settle, if_pos rfl] at hs
    cases hs
  | clear => cases hs
  | sweep => exact absurd h id
  | stats => exact absurd h id

theorem standing_append {newer older : Log} (h : ∀ s ∈ newer, ¬s.2.Settles k) :
    standing k (newer ++ older) = standing k older := by
  induction newer with
  | nil => rfl
  | cons s newer ih =>
    obtain ⟨own, others⟩ := List.forall_mem_cons.mp h
    rw [List.cons_append, standing, settle_of_not_settles own, ih others]

theorem standing_eq_some_iff : standing k log = some (v, t) ↔ LastSet log k v t := by
  constructor
  · intro h
    induction log with
    | nil => cases h
    | cons s log ih =>
      by_cases settles : s.2.Settles k
      · obtain ⟨hc, ht⟩ := settle_eq_some settles h
        refine ⟨[], log, ?_, fun s hs => absurd hs List.not_mem_nil⟩
        rw [List.nil_append, ← hc, ht]
      · rw [standing, settle_of_not_settles settles] at h
        obtain ⟨newer, older, rfl, quiet⟩ := ih h
        exact ⟨s :: newer, older, rfl, List.forall_mem_cons.mpr ⟨settles, quiet⟩⟩
  · rintro ⟨newer, older, rfl, quiet⟩
    rw [standing_append quiet, standing, settle, if_pos rfl]

/-! ### Entries are last settings -/

/-- Every entry is the last setting of its key. -/
def Sound (log : Log) (m : Memo) : Prop := ∀ e ∈ m.entries, standing e.key log = some (e.value, e.stamp)

theorem Sound.of_subset {m' : Memo} {s : Rat × Call} (h : Sound log m)
    (sub : ∀ e ∈ m'.entries, e ∈ m.entries ∧ ¬s.2.Settles e.key) : Sound (s :: log) m' := by
  intro e he
  obtain ⟨old, kept⟩ := sub e he
  rw [standing, settle_of_not_settles kept]
  exact h e old

theorem mem_step_get_subset (on : m.isEnabled) (he : e ∈ (m.step now (.get k)).entries) :
    e ∈ m.entries := by
  obtain ⟨-, hg⟩ | ⟨d, -, -, hg⟩ | ⟨d, hd, -, hg⟩ := get_cases on now k
  · rwa [step, hg] at he
  · rw [step, hg] at he
    exact (mem_others.mp he).1
  · rw [step, hg] at he
    rcases List.mem_append.mp he with he | he
    · exact (mem_others.mp he).1
    · rw [List.mem_singleton.mp he]
      exact (mem_of_find? hd).1

theorem Sound.set (h : Sound log m) (on : m.isEnabled) (now : Rat) (k v : Text) :
    Sound ((now, .set k v) :: log) (m.step now (.set k v)) := by
  intro e he
  rw [step, set_enabled on] at he
  rcases List.mem_append.mp (List.mem_of_mem_drop he) with he | he
  · obtain ⟨old, other⟩ := mem_others.mp he
    rw [standing, settle, if_neg other.symm]
    exact h e old
  · rw [List.mem_singleton.mp he]
    exact if_pos rfl

/-- **Every call leaves only last settings.** -/
theorem Sound.step (h : Sound log m) (on : m.isEnabled) (now : Rat) (c : Call) :
    Sound ((now, c) :: log) (m.step now c) := by
  cases c with
  | get k => exact h.of_subset fun e he => ⟨mem_step_get_subset on he, id⟩
  | set k v => exact h.set on now k v
  | remove k =>
    apply h.of_subset
    intro e he
    obtain ⟨old, other⟩ := mem_others.mp he
    exact ⟨old, fun same => other same.symm⟩
  | clear => exact fun e he => absurd he List.not_mem_nil
  | sweep => exact h.of_subset fun e he => ⟨(List.mem_filter.mp he).1, id⟩
  | stats => exact h.of_subset fun e he => ⟨he, id⟩

theorem isEnabled_replay (on : 0 < capacity) (lifetime : Lifetime) (log : Log) :
    (replay capacity lifetime log).isEnabled := by
  rw [isEnabled_iff, capacity_replay]
  exact on

theorem sound_replay (on : 0 < capacity) (lifetime : Lifetime) (log : Log) :
    Sound log (replay capacity lifetime log) := by
  induction log with
  | nil => exact fun e he => absurd he List.not_mem_nil
  | cons s log ih => exact ih.step (isEnabled_replay on lifetime log) s.1 s.2

/-! ### Room for an entry -/

/-- The keys that were set or found since a key was. -/
def recent (capacity : Int) (lifetime : Lifetime) (log : Log) (k : Text) : Finset Text :=
  ((used capacity lifetime log).takeWhile (· ≠ k)).toFinset

theorem mem_takeWhile_of_idxOf_lt {ks : List Text} {a : Text} (h : ks.idxOf a < ks.idxOf k) :
    a ∈ ks.takeWhile (· ≠ k) := by
  induction ks with
  | nil => exact absurd h (Nat.lt_irrefl _)
  | cons b ks ih =>
    by_cases hk : b = k
    · subst hk
      rw [List.idxOf_cons_self] at h
      exact absurd h (Nat.not_lt_zero _)
    · rw [List.takeWhile_cons_of_pos (by simpa using hk)]
      by_cases ha : b = a
      · exact ha ▸ List.mem_cons_self
      · rw [List.idxOf_cons_ne ks ha, List.idxOf_cons_ne ks hk] at h
        exact List.mem_cons_of_mem _ (ih (Nat.lt_of_succ_lt_succ h))

/-- An entry behind which fewer than `n` keys were used is among the last `n` ones. -/
theorem Ranked.mem_drop {ks : List Text} {es : List Entry} (h : Ranked ks es) (he : e ∈ es) {n : Nat}
    (few : (ks.takeWhile (· ≠ e.key)).toFinset.card < n) : e ∈ es.drop (es.length - n) := by
  obtain ⟨front, back, rfl⟩ := List.append_of_mem he
  have later : (back.map Entry.key).toFinset ⊆ (ks.takeWhile (· ≠ e.key)).toFinset := by
    intro a ha
    obtain ⟨d, hd, rfl⟩ := List.mem_map.mp (List.mem_toFinset.mp ha)
    apply List.mem_toFinset.mpr
    apply mem_takeWhile_of_idxOf_lt
    exact (List.pairwise_cons.mp (List.pairwise_append.mp h.order).2.1).1 d hd
  have distinct : (back.map Entry.key).Nodup :=
    (h.sublist ((List.sublist_cons_self e back).trans (List.sublist_append_right _ _))).nodup
  have short := Finset.card_le_card later
  rw [List.toFinset_card_of_nodup distinct, List.length_map] at short
  have inFront : (front ++ e :: back).length - n ≤ front.length := by
    simp only [List.length_append, List.length_cons]
    omega
  rw [List.drop_append_of_le_length inFront]
  exact List.mem_append_right _ List.mem_cons_self

/-! ### Last settings are entries -/

/-- A fresh entry survives every lookup. -/
theorem mem_step_get (h : m.Distinct) (on : m.isEnabled) (he : e ∈ m.entries)
    (fresh : m.isStale now e = false) : e ∈ (m.step now (.get k)).entries := by
  obtain ⟨-, hg⟩ | ⟨d, hd, stale, hg⟩ | ⟨d, hd, -, hg⟩ := get_cases on now k
  · rwa [step, hg]
  · rw [step, hg]
    obtain ⟨hm, rfl⟩ := mem_of_find? hd
    refine mem_others.mpr ⟨he, fun same => ?_⟩
    rw [h.eq_of_key he hm same, stale] at fresh
    cases fresh
  · rw [step, hg, List.mem_append, List.mem_singleton]
    exact (h.mem_iff hd).mp he

/-- An entry survives that another key is set if few keys were used after it. -/
theorem mem_step_set {ks : List Text} (h : Tidy ks m) (on : m.isEnabled) (he : e ∈ m.entries)
    (other : k ≠ e.key) (few : ((k :: ks).takeWhile (· ≠ e.key)).toFinset.card < m.capacity.toNat) :
    e ∈ (m.step now (.set k v)).entries := by
  rw [step, set_enabled on]
  apply (ranked_withEntry h.ranked now k v).mem_drop _ few
  exact List.mem_append_left _ (mem_others.mpr ⟨he, other.symm⟩)

/-- The entry that is found is the last setting of its key and stays. -/
theorem mem_step_get_self (last : Sound log m) (on : m.isEnabled)
    (stands : standing k log = some (v, t)) (found : (m.get now k).1.isSome) :
    ⟨k, v, t⟩ ∈ (m.step now (.get k)).entries := by
  obtain ⟨-, hg⟩ | ⟨e, -, -, hg⟩ | ⟨e, he, -, hg⟩ := get_cases on now k
  · rw [hg] at found
    cases found
  · rw [hg] at found
    cases found
  · obtain ⟨hm, rfl⟩ := mem_of_find? he
    have same := last e hm
    rw [stands] at same
    obtain ⟨rfl, rfl⟩ := Prod.mk.inj (Option.some.inj same)
    rw [step, hg]
    exact List.mem_append_right _ (List.mem_singleton.mpr rfl)

/-- The entry that is set never makes room itself. -/
theorem mem_step_set_self (on : m.isEnabled) (now : Rat) (k v : Text) :
    ⟨k, v, now⟩ ∈ (m.step now (.set k v)).entries := by
  have holds := isEnabled_iff.mp on
  have room : (m.withEntry now k v).length - m.capacity.toNat ≤ (m.others k).length := by
    rw [withEntry, List.length_append, List.length_singleton]
    omega
  rw [step, set_enabled on]
  rw [withEntry] at room ⊢
  rw [List.drop_append_of_le_length room]
  exact List.mem_append_right _ (List.mem_singleton.mpr rfl)

theorem recent_uses_subset (capacity : Int) (lifetime : Lifetime) {log : Log} {now : Rat} {c : Call}
    (other : ∀ ks, uses (replay capacity lifetime log) now c ks = ks ∨
      ∃ k', k' ≠ k ∧ uses (replay capacity lifetime log) now c ks = k' :: ks) :
    recent capacity lifetime log k ⊆ recent capacity lifetime ((now, c) :: log) k := by
  rw [recent, recent, used]
  obtain same | ⟨k', hk, more⟩ := other (used capacity lifetime log)
  · rw [same]
  · rw [more, List.takeWhile_cons_of_pos (by simpa using hk), List.toFinset_cons]
    exact Finset.subset_insert _ _

/-- **A last setting is among the entries** as long as its time is not over and fewer other keys were
used since than the memo may hold. -/
theorem mem_replay (on : 0 < capacity) (clock : Ticking now log)
    (stands : standing k log = some (v, t)) (fresh : elapsed (now - t) ≤ lifetime.span)
    (few : (recent capacity lifetime log k).card < capacity.toNat) :
    ⟨k, v, t⟩ ∈ (replay capacity lifetime log).entries := by
  induction log generalizing now with
  | nil => cases stands
  | cons s log ih =>
    obtain ⟨past, c⟩ := s
    obtain ⟨behind, clock⟩ := List.pairwise_cons.mp clock
    have enabled := isEnabled_replay on lifetime log
    have tidy := tidy_replay capacity lifetime log
    have notOver : elapsed (past - t) ≤ lifetime.span := by
      refine le_trans (elapsed_le_elapsed.mpr ?_) fresh
      exact sub_le_sub_right (behind past List.mem_cons_self) t
    have freshThen : (replay capacity lifetime log).isStale past ⟨k, v, t⟩ = false := by
      rw [isStale_eq_false_iff, lifetime_replay]
      exact notOver
    -- What the call leaves of the entry if the entry was there before it.
    have before := fun (same : standing k log = some (v, t))
        (fewer : recent capacity lifetime log k ⊆ recent capacity lifetime ((past, c) :: log) k) =>
      ih clock same notOver (lt_of_le_of_lt (Finset.card_le_card fewer) few)
    cases c with
    | get k' =>
      change standing k log = some (v, t) at stands
      by_cases hit : k' = k ∧ ((replay capacity lifetime log).get past k').1.isSome
      · obtain ⟨rfl, found⟩ := hit
        exact mem_step_get_self (sound_replay on lifetime log) enabled stands found
      · refine mem_step_get tidy.distinct enabled (before stands ?_) freshThen
        apply recent_uses_subset
        intro ks
        rw [uses]
        split
        · next found => exact Or.inr ⟨k', fun same => hit ⟨same, found⟩, rfl⟩
        · exact Or.inl rfl
    | set k' w =>
      by_cases same : k' = k
      · subst same
        rw [standing, settle, if_pos rfl] at stands
        obtain ⟨rfl, rfl⟩ := Prod.mk.inj (Option.some.inj stands)
        exact mem_step_set_self enabled _ _ _
      · rw [standing, settle, if_neg same] at stands
        have there := before stands (recent_uses_subset _ _ fun ks => Or.inr ⟨k', same, rfl⟩)
        apply mem_step_set tidy enabled there same
        rw [capacity_replay]
        exact few
    | remove k' =>
      by_cases same : k' = k
      · rw [standing, settle, if_pos same] at stands
        cases stands
      · rw [standing, settle, if_neg same] at stands
        have there := before stands (recent_uses_subset _ _ fun ks => Or.inl rfl)
        exact mem_others.mpr ⟨there, Ne.symm same⟩
    | clear => cases stands
    | sweep =>
      have there := before stands (recent_uses_subset _ _ fun ks => Or.inl rfl)
      exact List.mem_filter.mpr ⟨there, by rw [freshThen]; rfl⟩
    | stats => exact before stands (recent_uses_subset _ _ fun ks => Or.inl rfl)

/-! ### Lookups -/

theorem get_eq_some_iff (h : m.Distinct) (on : m.isEnabled) :
    (m.get now k).1 = some v ↔ ∃ t, ⟨k, v, t⟩ ∈ m.entries ∧ m.isStale now ⟨k, v, t⟩ = false := by
  obtain ⟨absent, hg⟩ | ⟨e, he, stale, hg⟩ | ⟨e, he, fresh, hg⟩ := get_cases on now k
  · rw [hg]
    refine iff_of_false (by simp) ?_
    rintro ⟨t, ht, -⟩
    exact find?_eq_none_iff.mp absent _ ht rfl
  · rw [hg]
    obtain ⟨hm, rfl⟩ := mem_of_find? he
    refine iff_of_false (by simp) ?_
    rintro ⟨t, ht, fresh⟩
    rw [h.eq_of_key ht hm rfl, stale] at fresh
    cases fresh
  · rw [hg]
    obtain ⟨hm, rfl⟩ := mem_of_find? he
    constructor
    · intro same
      obtain rfl := Option.some.inj same
      exact ⟨e.stamp, hm, fresh⟩
    · rintro ⟨t, ht, -⟩
      rw [← h.eq_of_key ht hm rfl]

/-- **A lookup after any calls.**  What is found is the value that was set last, was neither removed nor
cleared since, and whose time is not over; and such a value is found if fewer other keys than the
memo may hold were set or found since its own key was. -/
theorem get_replay (on : 0 < capacity) (lifetime : Lifetime) (clock : Ticking now log) (k v : Text) :
    (((replay capacity lifetime log).get now k).1 = some v →
        ∃ t, LastSet log k v t ∧ elapsed (now - t) ≤ lifetime.span) ∧
      ∀ t, LastSet log k v t → elapsed (now - t) ≤ lifetime.span →
        ((recent capacity lifetime log k).card : Int) < capacity →
          ((replay capacity lifetime log).get now k).1 = some v := by
  have found : ((replay capacity lifetime log).get now k).1 = some v ↔ _ :=
    get_eq_some_iff (tidy_replay capacity lifetime log).distinct (isEnabled_replay on lifetime log)
  constructor
  · intro h
    obtain ⟨t, ht, fresh⟩ := found.mp h
    refine ⟨t, standing_eq_some_iff.mp (sound_replay on lifetime log _ ht), ?_⟩
    rwa [isStale_eq_false_iff, lifetime_replay] at fresh
  · intro t last fresh few
    refine found.mpr ⟨t, mem_replay on clock (standing_eq_some_iff.mpr last) fresh (by omega), ?_⟩
    rwa [isStale_eq_false_iff, lifetime_replay]

/-- In a memo for two entries, the entry that was found at time 2 outlives the one that was set after
it, and is found once more as long as its own time lasts. -/
theorem get_replay_found_again :
    let log : Log := [(3, .set "c" "3"), (2, .get "a"), (1, .set "b" "2"), (0, .set "a" "1")]
    (0 : Int) < 2 ∧ Ticking 5 log ∧ LastSet log "a" "1" 0 ∧
      elapsed (5 - 0) ≤ (Lifetime.whole 5).span ∧
      ((recent 2 (.whole 5) log "a").card : Int) < 2 ∧
      ((replay 2 (.whole 5) log).get 5 "a").1 = some "1".toList := by
  intro log
  have clock : Ticking 5 log := by decide
  have last : LastSet log "a" "1" 0 :=
    ⟨[(3, .set "c" "3"), (2, .get "a"), (1, .set "b" "2")], [], rfl,
      by simp [Call.Settles]⟩
  have fresh : elapsed (5 - 0) ≤ (Lifetime.whole 5).span :=
    elapsed_le_elapsed.mpr (by decide +kernel)
  have few : ((recent 2 (.whole 5) log "a").card : Int) < 2 := by decide +kernel
  exact ⟨by decide, clock, last, fresh, few,
    (get_replay (by decide) (.whole 5) clock "a" "1").2 0 last fresh few⟩

end Memo

end Pagewright
