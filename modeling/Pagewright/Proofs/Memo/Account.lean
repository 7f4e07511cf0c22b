import Mathlib.Data.List.Nodup
import Pagewright.Memo

/-! # The books of a memo

A `Tally` counts what the calls of a log did since the memo was made or last cleared, each by what
the call answers or by the entries that it takes out (`lost`).  A call keeps the books of the memo
`Balanced` with it (`Balanced.step`): every lookup is a hit or a miss, and every entry that was added
is still there or was evicted, has expired or was removed.  `accounts_replay` says so for every log,
together with what else holds of a memo at any time.

Main definitions: `lost`, `Tally`, `tally`, `Balanced`. -/

/-! ## The log of a memo

What was done with a memo is a `Log`: calls with their times, the latest call first.  `replay` gives
the memo that a log leads to from an empty one, and `used` the keys that were set or found on the
way.  One lemma a call says what it leaves of the entries (`get_cases`, `set_enabled`); from these
every memo that is replayed is `Tidy`: it holds at most one entry a key and no more than it may, and
its entries stand in the order in which they were last used (`tidy_replay`).

Main definitions: `Call`, `Log`, `step`, `replay`, `used`, `Tidy`. -/

namespace Pagewright.Memo

/-! ### Calls -/

/-- What can be done with a memo. -/
inductive Call where
  | get (key : Text)
  | set (key value : Text)
  | remove (key : Text)
  | clear
  | sweep
  | stats
  deriving DecidableEq, Repr

/-- Calls with their times, the latest call first. -/
abbrev Log := List (Rat × Call)

/-- A memo after a call at a time. -/
def step (m : Memo) (now : Rat) : Call → Memo
  | .get k => (m.get now k).2
  | .set k v => m.set now k v
  | .remove k => (m.remove k).2
  | .clear => m.clear
  | .sweep => (m.sweep now).2
  | .stats => m

/-- The memo that the calls of a log lead to from an empty one. -/
def replay (capacity : Int) (lifetime : Lifetime) : Log → Memo
  | [] => { capacity, lifetime }
  | (now, c) :: log => (replay capacity lifetime log).step now c

/-- A key with those in front of it that a call has used: the key that it sets or finds. -/
def uses (m : Memo) (now : Rat) (c : Call) (ks : List Text) : List Text :=
  match c with
  | .set k _ => k :: ks
  | .get k => if (m.get now k).1.isSome then k :: ks else ks
  | _ => ks

/-- The keys that the calls of a log have set or found, the latest one first. -/
def used (capacity : Int) (lifetime : Lifetime) : Log → List Text
  | [] => []
  | (now, c) :: log => uses (replay capacity lifetime log) now c (used capacity lifetime log)

variable {m : Memo} {now : Rat} {k : Text} {d e : Entry}

/-! ### One entry a key -/

/-- No two entries of a memo have the same key. -/
def Distinct (m : Memo) : Prop := (m.entries.map Entry.key).Nodup

theorem mem_others : e ∈ m.others k ↔ e ∈ m.entries ∧ e.key ≠ k := by
  simp [others]

theorem find?_eq_none_iff : m.find? k = none ↔ ∀ e ∈ m.entries, e.key ≠ k := by
  simp [find?]

theorem others_eq_self (h : m.find? k = none) : m.others k = m.entries := by
  apply List.filter_eq_self.mpr
  intro e he
  simpa using find?_eq_none_iff.mp h e he

theorem mem_of_find? (h : m.find? k = some e) : e ∈ m.entries ∧ e.key = k :=
  ⟨List.mem_of_find?_eq_some h, by simpa [find?] using List.find?_some h⟩

theorem Distinct.eq_of_key (h : m.Distinct) (hd : d ∈ m.entries) (he : e ∈ m.entries)
    (hk : d.key = e.key) : d = e :=
  List.inj_on_of_nodup_map h hd he hk

/-- An entry and the entries under the other keys are all there are. -/
theorem Distinct.mem_iff (h : m.Distinct) (he : m.find? k = some e) :
    d ∈ m.entries ↔ d ∈ m.others k ∨ d = e := by
  obtain ⟨hm, rfl⟩ := mem_of_find? he
  rw [mem_others]
  constructor
  · intro hd
    by_cases hk : d.key = e.key
    · exact Or.inr (h.eq_of_key hd hm hk)
    · exact Or.inl ⟨hd, hk⟩
  · rintro (⟨hd, -⟩ | rfl)
    · exact hd
    · exact hm

theorem Distinct.length_others (h : m.Distinct) (he : m.find? k = some e) :
    m.entries.length = (m.others k).length + 1 := by
  obtain ⟨hm, rfl⟩ := mem_of_find? he
  have only : m.entries.filter (fun d => !(d.key != e.key)) = [e] := by
    have single : (m.entries.filter (fun d => !(d.key != e.key))).Nodup :=
      (List.Nodup.of_map _ h).filter _
    rw [← List.perm_singleton, List.perm_ext_iff_of_nodup single (List.nodup_singleton e)]
    intro d
    simp only [List.mem_filter, List.mem_singleton]
    constructor
    · rintro ⟨hd, hk⟩
      exact h.eq_of_key hd hm (by simpa using hk)
    · rintro rfl
      exact ⟨hm, by simp⟩
  have both := List.length_eq_length_filter_add (l := m.entries) fun d => d.key != e.key
  rw [only] at both
  exact both

/-! ### What a call leaves -/

/-- Asking an enabled memo for a key that it has no entry under, a stale entry, or a fresh one. -/
theorem get_cases (on : m.isEnabled) (now : Rat) (k : Text) :
    (m.find? k = none ∧ m.get now k = (none, { m with misses := m.misses + 1 })) ∨
    (∃ e, m.find? k = some e ∧ m.isStale now e ∧
      m.get now k = (none, { m with entries := m.others k, misses := m.misses + 1 })) ∨
    (∃ e, m.find? k = some e ∧ m.isStale now e = false ∧
      m.get now k = (some e.value, { m with entries := m.others k ++ [e], hits := m.hits + 1 })) := by
  unfold get
  rw [if_pos on]
  cases hf : m.find? k with
  | none => exact Or.inl ⟨rfl, rfl⟩
  | some e =>
    cases hs : m.isStale now e with
    | true => exact Or.inr (Or.inl ⟨e, rfl, hs, by simp [hs]⟩)
    | false => exact Or.inr (Or.inr ⟨e, rfl, hs, by simp [hs]⟩)

theorem get_disabled (off : ¬m.isEnabled) (now : Rat) (k : Text) : m.get now k = (none, m) := by
  rw [get, if_neg off]

/-- The entries with a new one behind them, before any of them makes room. -/
def withEntry (m : Memo) (now : Rat) (k v : Text) : List Entry := m.others k ++ [⟨k, v, now⟩]

theorem set_enabled (on : m.isEnabled) (now : Rat) (k v : Text) :
    m.set now k v =
      { m with
        entries := (m.withEntry now k v).drop ((m.withEntry now k v).length - m.capacity.toNat)
        evictions := m.evictions + ((m.withEntry now k v).length - m.capacity.toNat) } := by
  rw [set, if_pos on]
  rfl

theorem set_disabled (off : ¬m.isEnabled) (now : Rat) (k v : Text) : m.set now k v = m := by
  rw [set, if_neg off]

@[simp] theorem capacity_step (m : Memo) (now : Rat) (c : Call) :
    (m.step now c).capacity = m.capacity := by
  cases c with
  | get k =>
    by_cases on : m.isEnabled
    · obtain ⟨-, h⟩ | ⟨e, -, -, h⟩ | ⟨e, -, -, h⟩ := get_cases on now k <;> rw [step, h]
    · rw [step, get_disabled on]
  | set k v =>
    by_cases on : m.isEnabled
    · rw [step, set_enabled on]
    · rw [step, set_disabled on]
  | remove k => rfl
  | clear => rfl
  | sweep => rfl
  | stats => rfl

@[simp] theorem lifetime_step (m : Memo) (now : Rat) (c : Call) :
    (m.step now c).lifetime = m.lifetime := by
  cases c with
  | get k =>
    by_cases on : m.isEnabled
    · obtain ⟨-, h⟩ | ⟨e, -, -, h⟩ | ⟨e, -, -, h⟩ := get_cases on now k <;> rw [step, h]
    · rw [step, get_disabled on]
  | set k v =>
    by_cases on : m.isEnabled
    · rw [step, set_enabled on]
    · rw [step, set_disabled on]
  | remove k => rfl
  | clear => rfl
  | sweep => rfl
  | stats => rfl

@[simp] theorem capacity_replay (capacity : Int) (lifetime : Lifetime) (log : Log) :
    (replay capacity lifetime log).capacity = capacity := by
  induction log with
  | nil => rfl
  | cons s log ih => rw [replay, capacity_step, ih]

@[simp] theorem lifetime_replay (capacity : Int) (lifetime : Lifetime) (log : Log) :
    (replay capacity lifetime log).lifetime = lifetime := by
  induction log with
  | nil => rfl
  | cons s log ih => rw [replay, lifetime_step, ih]

theorem isEnabled_iff : m.isEnabled ↔ 0 < m.capacity := by
  simp [isEnabled]

/-! ### The order of the entries -/

/-- Entries whose keys were used, the latest use first in `ks`: of two entries the one behind was used
after the one in front. -/
structure Ranked (ks : List Text) (es : List Entry) : Prop where
  known : ∀ e ∈ es, e.key ∈ ks
  order : es.Pairwise fun d e => ks.idxOf e.key < ks.idxOf d.key

theorem ranked_nil (ks : List Text) : Ranked ks [] where
  known _ he := absurd he List.not_mem_nil
  order := List.Pairwise.nil

theorem Ranked.sublist {ks : List Text} {es es' : List Entry} (h : Ranked ks es)
    (sub : es'.Sublist es) : Ranked ks es' where
  known e he := h.known e (sub.subset he)
  order := h.order.sublist sub

/-- Entries in order have different keys. -/
theorem Ranked.nodup {ks : List Text} {es : List Entry} (h : Ranked ks es) :
    (es.map Entry.key).Nodup := by
  apply List.pairwise_map.mpr
  apply h.order.imp
  intro d e later same
  rw [same] at later
  exact Nat.lt_irrefl _ later

/-- The entry of the key that is used now goes behind all others. -/
theorem Ranked.append {ks : List Text} {es : List Entry} (h : Ranked ks es)
    (others : ∀ d ∈ es, d.key ≠ e.key) : Ranked (e.key :: ks) (es ++ [e]) := by
  have behind : ∀ d ∈ es, (e.key :: ks).idxOf d.key = ks.idxOf d.key + 1 := by
    intro d hd
    exact List.idxOf_cons_ne ks (others d hd).symm
  constructor
  · intro d hd
    rcases List.mem_append.mp hd with hd | hd
    · exact List.mem_cons_of_mem _ (h.known d hd)
    · rw [List.mem_singleton.mp hd]
      exact List.mem_cons_self
  · apply List.pairwise_append.mpr
    refine ⟨?_, List.pairwise_singleton _ _, ?_⟩
    · apply h.order.imp_of_mem
      intro d d' hd hd' later
      rw [behind d hd, behind d' hd']
      omega
    · intro d hd d' hd'
      rw [List.mem_singleton.mp hd', behind d hd, List.idxOf_cons_self]
      omega

/-! ### Tidy memos -/

/-- A memo whose entries stand in the order of use, that holds no more entries than it may, and that
holds and counts nothing if it may hold none. -/
structure Tidy (ks : List Text) (m : Memo) : Prop where
  ranked : Ranked ks m.entries
  fits : m.entries.length ≤ m.capacity.toNat
  idle : ¬m.isEnabled → m.hits = 0 ∧ m.misses = 0 ∧ m.evictions = 0

variable {ks : List Text}

theorem Tidy.distinct (h : Tidy ks m) : m.Distinct := h.ranked.nodup

theorem Tidy.empty_of_disabled (h : Tidy ks m) (off : ¬m.isEnabled) : m.entries = [] := by
  have fits := h.fits
  rw [isEnabled_iff] at off
  apply List.length_eq_zero_iff.mp
  omega

theorem ranked_others (h : Ranked ks m.entries) : Ranked ks (m.others k) :=
  h.sublist List.filter_sublist

/-- The entries with a new one behind them stand in the order of use. -/
theorem ranked_withEntry (h : Ranked ks m.entries) (now : Rat) (k v : Text) :
    Ranked (k :: ks) (m.withEntry now k v) :=
  (ranked_others h).append (e := ⟨k, v, now⟩) fun _ hd => (mem_others.mp hd).2

theorem Tidy.get (h : Tidy ks m) (now : Rat) (k : Text) :
    Tidy (uses m now (.get k) ks) (m.step now (.get k)) := by
  by_cases on : m.isEnabled
  · have others := List.length_filter_le (fun e => e.key != k) m.entries
    have fits := h.fits
    obtain ⟨-, hg⟩ | ⟨e, -, -, hg⟩ | ⟨e, he, -, hg⟩ := get_cases on now k
    · simp only [uses, step, hg, Option.isSome_none, Bool.false_eq_true, if_false]
      exact ⟨h.ranked, h.fits, fun off => absurd on off⟩
    · simp only [uses, step, hg, Option.isSome_none, Bool.false_eq_true, if_false]
      exact ⟨ranked_others h.ranked, Nat.le_trans others fits, fun off => absurd on off⟩
    · obtain ⟨-, hk⟩ := mem_of_find? he
      have longer := h.distinct.length_others he
      simp only [uses, step, hg, Option.isSome_some, if_true]
      refine ⟨?_, ?_, fun off => absurd on off⟩
      · rw [← hk]
        exact (ranked_others h.ranked).append fun d hd => (mem_others.mp hd).2
      · rw [List.length_append, List.length_singleton, ← longer]
        exact fits
  · simp only [uses, step, get_disabled on, Option.isSome_none, Bool.false_eq_true, if_false]
    exact h

theorem Tidy.set (h : Tidy ks m) (now : Rat) (k v : Text) :
    Tidy (uses m now (.set k v) ks) (m.step now (.set k v)) := by
  by_cases on : m.isEnabled
  · rw [step, set_enabled on]
    refine ⟨(ranked_withEntry h.ranked now k v).sublist (List.drop_sublist _ _), ?_,
      fun off => absurd on off⟩
    simp only [List.length_drop]
    omega
  · have empty := h.empty_of_disabled on
    rw [step, set_disabled on]
    refine ⟨?_, h.fits, h.idle⟩
    rw [empty]
    exact ranked_nil _

/-- **Every call keeps a memo tidy.** -/
theorem Tidy.step (h : Tidy ks m) (now : Rat) (c : Call) : Tidy (uses m now c ks) (m.step now c) := by
  cases c with
  | get k => exact h.get now k
  | set k v => exact h.set now k v
  | remove k => exact ⟨ranked_others h.ranked, Nat.le_trans (List.length_filter_le _ _) h.fits, h.idle⟩
  | clear =>
    exact ⟨ranked_nil _, Nat.zero_le _, fun _ => ⟨rfl, rfl, rfl⟩⟩
  | sweep =>
    exact ⟨h.ranked.sublist List.filter_sublist, Nat.le_trans (List.length_filter_le _ _) h.fits, h.idle⟩
  | stats => exact h

/-- **A memo is tidy after any calls.** -/
theorem tidy_replay (capacity : Int) (lifetime : Lifetime) (log : Log) :
    Tidy (used capacity lifetime log) (replay capacity lifetime log) := by
  induction log with
  | nil =>
    exact ⟨ranked_nil _, Nat.zero_le _, fun _ => ⟨rfl, rfl, rfl⟩⟩
  | cons s log ih => exact ih.step s.1 s.2

end Pagewright.Memo

namespace Pagewright.Memo

/-- The entries that a call takes out of a memo. -/
def lost (m : Memo) (now : Rat) (c : Call) : List Entry :=
  m.entries.filter fun e => e ∉ (m.step now c).entries

/-- What happened to a memo since it was made or last cleared. -/
structure Tally where
  /-- Lookups. -/
  asked : Nat := 0
  /-- Values that were set under keys without an entry. -/
  added : Nat := 0
  /-- Stale entries that were taken out, one by one or together. -/
  expired : Nat := 0
  /-- Entries that were taken out by their keys. -/
  removed : Nat := 0
  deriving DecidableEq, Repr

/-- A tally after a call to a memo. -/
def Tally.step (y : Tally) (m : Memo) (now : Rat) : Call → Tally
  | .get k =>
    { y with
      asked := y.asked + 1
      expired := y.expired + (m.lost now (.get k)).countP (m.isStale now) }
  | .set k _ => { y with added := y.added + if (m.find? k).isNone then 1 else 0 }
  | .remove k => { y with removed := y.removed + (m.lost now (.remove k)).length }
  | .clear => {}
  | .sweep => { y with expired := y.expired + (m.lost now .sweep).countP (m.isStale now) }
  | .stats => y

/-- The tally of a log. -/
def tally (capacity : Int) (lifetime : Lifetime) : Log → Tally
  | [] => {}
  | (now, c) :: log =>
    (tally capacity lifetime log).step (replay capacity lifetime log) now c

/-- The counts of a memo agree with a tally. -/
structure Balanced (y : Tally) (m : Memo) : Prop where
  lookups : m.hits + m.misses = y.asked
  entries : y.added = m.entries.length + m.evictions + y.expired + y.removed

variable {m : Memo} {now : Rat} {k : Text} {e : Entry} {y : Tally} {ks : List Text}

/-! ### What is lost -/

/-- A call that only takes entries out loses those that it does not keep. -/
theorem lost_of_filter {c : Call} {keep : Entry → Bool}
    (h : (m.step now c).entries = m.entries.filter keep) :
    m.lost now c = m.entries.filter fun e => !keep e := by
  rw [lost, h]
  apply List.filter_congr
  intro e he
  simp [he]

theorem length_lost_of_filter {c : Call} {keep : Entry → Bool}
    (h : (m.step now c).entries = m.entries.filter keep) :
    m.entries.length = (m.step now c).entries.length + (m.lost now c).length := by
  rw [lost_of_filter h, h]
  exact List.length_eq_length_filter_add _

/-- A call that keeps all entries loses none. -/
theorem lost_eq_nil {c : Call} (h : ∀ e ∈ m.entries, e ∈ (m.step now c).entries) :
    m.lost now c = [] := by
  apply List.filter_eq_nil_iff.mpr
  intro e he
  simpa using h e he

/-- Looking up a key takes nothing out but a stale entry. -/
theorem length_lost_get (h : m.Distinct) (on : m.isEnabled) (now : Rat) (k : Text) :
    m.entries.length =
      (m.step now (.get k)).entries.length + (m.lost now (.get k)).countP (m.isStale now) := by
  obtain ⟨-, hg⟩ | ⟨e, he, stale, hg⟩ | ⟨e, he, fresh, hg⟩ := get_cases on now k
  · have same : (m.step now (.get k)).entries = m.entries := by rw [step, hg]
    rw [lost_eq_nil (by simp [same]), same]
    rfl
  · have left : (m.step now (.get k)).entries = m.others k := by rw [step, hg]
    have count : (m.lost now (.get k)).countP (m.isStale now) = (m.lost now (.get k)).length := by
      apply List.countP_eq_length.mpr
      intro d hd
      rw [lost_of_filter left] at hd
      obtain ⟨hd, hk⟩ := List.mem_filter.mp hd
      obtain ⟨hm, hek⟩ := mem_of_find? he
      rw [h.eq_of_key hd hm (by simpa [hek] using hk)]
      exact stale
    rw [count]
    exact length_lost_of_filter left
  · have moved : (m.step now (.get k)).entries = m.others k ++ [e] := by rw [step, hg]
    have none : m.lost now (.get k) = [] := by
      apply lost_eq_nil
      intro d hd
      rw [moved, List.mem_append, List.mem_singleton]
      exact (h.mem_iff he).mp hd
    rw [none, moved, List.length_append, List.length_singleton, h.length_others he]
    rfl

/-- Sweeping takes nothing out but stale entries. -/
theorem length_lost_sweep (m : Memo) (now : Rat) :
    m.entries.length =
      (m.step now .sweep).entries.length + (m.lost now .sweep).countP (m.isStale now) := by
  have left : (m.step now .sweep).entries = m.entries.filter fun e => !m.isStale now e := rfl
  have count : (m.lost now .sweep).countP (m.isStale now) = (m.lost now .sweep).length := by
    apply List.countP_eq_length.mpr
    intro d hd
    rw [lost_of_filter left] at hd
    simpa using (List.mem_filter.mp hd).2
  rw [count]
  exact length_lost_of_filter left

/-- Setting a value adds an entry if there is none under the key. -/
theorem length_withEntry (h : m.Distinct) (now : Rat) (k v : Text) :
    (m.withEntry now k v).length =
      m.entries.length + if (m.find? k).isNone then 1 else 0 := by
  rw [withEntry, List.length_append, List.length_singleton]
  cases hf : m.find? k with
  | none => simp [others_eq_self hf]
  | some e => simp [h.length_others hf]

/-! ### Balance -/

theorem Balanced.get (b : Balanced y m) (h : m.Distinct) (on : m.isEnabled) (now : Rat) (k : Text) :
    Balanced (y.step m now (.get k)) (m.step now (.get k)) := by
  have lookups := b.lookups
  have entries := b.entries
  have left := length_lost_get h on now k
  have counts : (m.step now (.get k)).hits + (m.step now (.get k)).misses = m.hits + m.misses + 1 ∧
      (m.step now (.get k)).evictions = m.evictions := by
    obtain ⟨-, hg⟩ | ⟨e, -, -, hg⟩ | ⟨e, -, -, hg⟩ := get_cases on now k
    · rw [step, hg]
      exact ⟨(Nat.add_assoc _ _ _).symm, rfl⟩
    · rw [step, hg]
      exact ⟨(Nat.add_assoc _ _ _).symm, rfl⟩
    · rw [step, hg]
      exact ⟨Nat.add_right_comm _ _ _, rfl⟩
  obtain ⟨asked, evicted⟩ := counts
  constructor
  · show _ = y.asked + 1
    omega
  · show y.added = _ + _ + (y.expired + _) + y.removed
    omega

theorem Balanced.set (b : Balanced y m) (h : m.Distinct) (on : m.isEnabled) (now : Rat)
    (k v : Text) : Balanced (y.step m now (.set k v)) (m.step now (.set k v)) := by
  have entries := b.entries
  have longer := length_withEntry h now k v
  rw [step, set_enabled on]
  constructor
  · exact b.lookups
  · simp only [Tally.step, List.length_drop]
    omega

/-- **Every call keeps the books balanced.** -/
theorem Balanced.step (b : Balanced y m) (h : m.Distinct) (on : m.isEnabled) (now : Rat) (c : Call) :
    Balanced (y.step m now c) (m.step now c) := by
  have entries := b.entries
  cases c with
  | get k => exact b.get h on now k
  | set k v => exact b.set h on now k v
  | remove k =>
    have kept : (m.step now (.remove k)).entries = m.entries.filter (·.key != k) := rfl
    have left := length_lost_of_filter kept
    constructor
    · exact b.lookups
    · show y.added = _ + m.evictions + y.expired + (y.removed + _)
      omega
  | clear => exact ⟨rfl, rfl⟩
  | sweep =>
    have left := length_lost_sweep m now
    constructor
    · exact b.lookups
    · show y.added = _ + m.evictions + (y.expired + _) + y.removed
      omega
  | stats => exact b

/-- **The books of a memo are balanced after any calls.** -/
theorem balanced_replay {capacity : Int} (on : 0 < capacity) (lifetime : Lifetime) (log : Log) :
    Balanced (tally capacity lifetime log) (replay capacity lifetime log) := by
  induction log with
  | nil => exact ⟨rfl, rfl⟩
  | cons s log ih =>
    apply ih.step (tidy_replay capacity lifetime log).distinct
    rw [isEnabled_iff, capacity_replay]
    exact on

/-! ### Reports -/

theorem staleCount_le (m : Memo) (now : Rat) : m.staleCount now ≤ m.entries.length :=
  List.length_filter_le _ _

/-- **What holds of a memo at any time.**  Its keys are distinct; it holds no more entries than it may,
and if it may hold none, it counts nothing either; of two entries the one behind was set or found
after the one in front; every lookup since it was made or last cleared was a hit or a miss, and every
entry that was added since is there, was evicted, has expired or was removed; and a report divides the
entries into fresh and stale ones. -/
theorem accounts_replay (capacity : Int) (lifetime : Lifetime) (log : Log) :
    let m := replay capacity lifetime log
    let y := tally capacity lifetime log
    (m.entries.map Entry.key).Nodup ∧
      (0 < capacity → (m.entries.length : Int) ≤ capacity) ∧
      (capacity ≤ 0 → m.entries = [] ∧ m.hits = 0 ∧ m.misses = 0 ∧ m.evictions = 0) ∧
      Ranked (used capacity lifetime log) m.entries ∧
      (0 < capacity → m.hits + m.misses = y.asked ∧
        y.added = m.entries.length + m.evictions + y.expired + y.removed) ∧
      ∀ now, (m.stats now).total = m.entries.length ∧
        (m.stats now).stale = m.entries.countP (m.isStale now) ∧
        (m.stats now).total = (m.stats now).active + (m.stats now).stale := by
  intro m y
  have tidy := tidy_replay capacity lifetime log
  have fits : m.entries.length ≤ capacity.toNat := by
    have fits := tidy.fits
    rwa [capacity_replay] at fits
  refine ⟨tidy.distinct, ?_, ?_, tidy.ranked, ?_, ?_⟩
  · intro on
    omega
  · intro off
    have disabled : ¬m.isEnabled := by
      rw [isEnabled_iff, capacity_replay]
      omega
    exact ⟨tidy.empty_of_disabled disabled, tidy.idle disabled⟩
  · intro on
    have balanced := balanced_replay on lifetime log
    exact ⟨balanced.lookups, balanced.entries⟩
  · intro now
    have fewer := staleCount_le m now
    refine ⟨rfl, List.countP_eq_length_filter.symm, ?_⟩
    show m.entries.length = m.entries.length - m.staleCount now + m.staleCount now
    omega

/-- Of three entries that are added to a memo for one, the first is evicted, the second expires and the
third is removed. -/
theorem accounts_replay_emptied :
    let log : Log := [(9, .remove "c"), (8, .set "c" "3"), (7, .sweep), (3, .get "a"), (2, .get "b"),
      (1, .set "b" "2"), (0, .set "a" "1")]
    let m := replay 1 (.whole 5) log
    tally 1 (.whole 5) log = ⟨2, 3, 1, 1⟩ ∧ m.hits + m.misses = 2 ∧
      3 = m.entries.length + m.evictions + 1 + 1 := by
  intro log m
  have books : tally 1 (.whole 5) log = ⟨2, 3, 1, 1⟩ := by decide +kernel
  have held := (accounts_replay 1 (.whole 5) log).2.2.2.2.1 (by decide)
  simp only [books] at held
  exact ⟨books, held⟩

end Pagewright.Memo
