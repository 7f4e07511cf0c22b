import Mathlib.Data.List.Nodup
import Mathlib.Data.List.Perm.Basic
import Pagewright.Assembly.Collection

/-! # Partners among the markers of fragments

Markers of fragments may stand in any order.  Reading them from the front, a closing marker is the
partner of the innermost opening marker that is still open, if both are for the same stack and the
same kind of fragment (`partner?`).  What is still open are the opening markers that found no partner
so far (`mem_opened_iff`), the later ones inside the earlier ones (`opened_sorted`).  So partners
enclose each other or stand apart: what the text behind a marker belongs to is the innermost marker
that is open there, if it finds a partner at all, and else it belongs to nothing (`home?_eq`).  Of every
kind as many opening markers have a partner as closing ones (`countP_closed`).

Main definitions: `opened`, `partner?`, `Closed`, `home?`. -/

namespace Pagewright.Assembly

/-- Two markers are for the same kind of fragment and the same stack. -/
def FragmentMarker.Agrees (o m : FragmentMarker) : Prop :=
  o.prepended = m.prepended ∧ o.name = m.name

instance (o m : FragmentMarker) : Decidable (o.Agrees m) := inferInstanceAs (Decidable (_ ∧ _))

/-- The opening markers that are open behind marker number `k`, with their numbers and from the
innermost on, where those are given that are open in front of it. -/
def settle (m : FragmentMarker) (k : Nat) (os : List (FragmentMarker × Nat)) :
    List (FragmentMarker × Nat) :=
  if m.closing then
    match os with
    | (o, i) :: rest => if o.Agrees m then rest else (o, i) :: rest
    | [] => []
  else (m, k) :: os

variable (ms : List FragmentMarker)

/-- The opening markers that are open in front of marker number `k`, with their numbers and from the
innermost on. -/
def opened (k : Nat) : List (FragmentMarker × Nat) :=
  (ms.take k).zipIdx.foldl (fun os (m, i) => settle m i os) []

/-- The partner of a closing marker: the innermost opening marker that is open, if they agree. -/
def partner? (j : Nat) : Option Nat :=
  match ms[j]?, opened ms j with
  | some m, (o, i) :: _ => if m.closing ∧ o.Agrees m then some i else none
  | _, _ => none

/-- An opening marker is open in front of marker number `k`: it found no partner so far. -/
def StillOpen (k : Nat) (o : FragmentMarker) (i : Nat) : Prop :=
  i < k ∧ ms[i]? = some o ∧ o.closing = false ∧ ∀ j < k, partner? ms j ≠ some i

/-- An opening marker that has a partner. -/
def Closed (i : Nat) : Prop := ∃ j < ms.length, partner? ms j = some i

instance (i : Nat) : Decidable (Closed ms i) := Nat.decidableExistsLT _

/-- The text behind marker number `k` stands between marker number `i` and its partner. -/
def Around (k i : Nat) : Prop := i ≤ k ∧ ∃ j < ms.length, k < j ∧ partner? ms j = some i

instance (k i : Nat) : Decidable (Around ms k i) := inferInstanceAs (Decidable (_ ∧ _))

/-- The innermost partners around the text behind marker number `k`, known by the opening one. -/
def home? (k : Nat) : Option Nat := ((List.range (k + 1)).filter (Around ms k)).max?

variable {ms}

/-! ### What is open -/

theorem opened_succ {k : Nat} {m : FragmentMarker} (h : ms[k]? = some m) :
    opened ms (k + 1) = settle m k (opened ms k) := by
  obtain ⟨hk, rfl⟩ := List.getElem?_eq_some_iff.mp h
  unfold opened
  rw [List.take_succ_eq_append_getElem hk, List.zipIdx_append, List.foldl_append]
  simp [Nat.min_eq_left (Nat.le_of_lt hk)]

theorem opened_done {k : Nat} (h : ms[k]? = none) : opened ms (k + 1) = opened ms k := by
  have short := List.getElem?_eq_none_iff.mp h
  unfold opened
  rw [List.take_of_length_le short, List.take_of_length_le (Nat.le_succ_of_le short)]

theorem partner?_eq_some_iff {i j : Nat} :
    partner? ms j = some i ↔ ∃ m o rest, ms[j]? = some m ∧ opened ms j = (o, i) :: rest ∧
      m.closing = true ∧ o.Agrees m := by
  unfold partner?
  constructor
  · intro h
    split at h
    · next m o i' rest hm ho =>
      split at h
      · next hc =>
        obtain rfl := Option.some.inj h
        exact ⟨m, o, rest, hm, ho, hc⟩
      · cases h
    · cases h
  · rintro ⟨m, o, rest, hm, ho, hc⟩
    rw [hm, ho]
    exact if_pos hc

/-- What a marker does to what is open. -/
theorem opened_step (ms : List FragmentMarker) (k : Nat) :
    (∃ o i, partner? ms k = some i ∧ opened ms k = (o, i) :: opened ms (k + 1)) ∨
      (partner? ms k = none ∧ opened ms (k + 1) = opened ms k ∧
        ∀ m, ms[k]? = some m → m.closing = true) ∨
      (partner? ms k = none ∧ ∃ m, ms[k]? = some m ∧ m.closing = false ∧
        opened ms (k + 1) = (m, k) :: opened ms k) := by
  cases hm : ms[k]? with
  | none =>
    refine Or.inr (Or.inl ⟨?_, opened_done hm, fun m e => by cases e⟩)
    unfold partner?
    rw [hm]
  | some m =>
    have next := opened_succ hm
    unfold settle at next
    cases hc : m.closing with
    | false =>
      rw [hc, if_neg Bool.false_ne_true] at next
      refine Or.inr (Or.inr ⟨Option.eq_none_iff_forall_ne_some.mpr fun i h => ?_, m, rfl, hc, next⟩)
      obtain ⟨m', -, -, hm', -, hc', -⟩ := partner?_eq_some_iff.mp h
      obtain rfl := Option.some.inj (hm.symm.trans hm')
      exact Bool.false_ne_true (hc.symm.trans hc')
    | true =>
      rw [hc, if_pos rfl] at next
      cases ho : opened ms k with
      | nil =>
        rw [ho] at next
        refine Or.inr (Or.inl ⟨?_, next, fun m' e => Option.some.inj e ▸ hc⟩)
        unfold partner?
        rw [hm, ho]
      | cons p rest =>
        obtain ⟨o, i⟩ := p
        rw [ho] at next
        simp only at next
        by_cases agree : o.Agrees m
        · rw [if_pos agree] at next
          exact Or.inl ⟨o, i, partner?_eq_some_iff.mpr ⟨m, o, rest, hm, ho, hc, agree⟩, by rw [next]⟩
        · rw [if_neg agree] at next
          refine Or.inr (Or.inl ⟨?_, next, fun m' e => Option.some.inj e ▸ hc⟩)
          unfold partner?
          rw [hm, ho]
          exact if_neg fun h => agree h.2

/-- What is open later was opened later. -/
theorem opened_sorted (ms : List FragmentMarker) (k : Nat) :
    (opened ms k).Pairwise (fun p q => q.2 < p.2) ∧ ∀ p ∈ opened ms k, p.2 < k := by
  induction k with
  | zero => exact ⟨List.Pairwise.nil, fun p hp => absurd hp List.not_mem_nil⟩
  | succ k ih =>
    obtain ⟨sorted, before⟩ := ih
    rcases opened_step ms k with ⟨o, i, -, pop⟩ | ⟨-, same, -⟩ | ⟨-, m, -, -, push⟩
    · rw [pop] at sorted before
      exact ⟨(List.pairwise_cons.mp sorted).2,
        fun p hp => Nat.lt_succ_of_lt (before p (List.mem_cons_of_mem _ hp))⟩
    · rw [same]
      exact ⟨sorted, fun p hp => Nat.lt_succ_of_lt (before p hp)⟩
    · rw [push]
      refine ⟨List.pairwise_cons.mpr ⟨before, sorted⟩, List.forall_mem_cons.mpr ⟨Nat.lt_succ_self k, ?_⟩⟩
      exact fun p hp => Nat.lt_succ_of_lt (before p hp)

theorem lt_of_partner? {i j : Nat} (h : partner? ms j = some i) : i < j := by
  obtain ⟨m, o, rest, -, ho, -⟩ := partner?_eq_some_iff.mp h
  exact (opened_sorted ms j).2 (o, i) (ho ▸ List.mem_cons_self)

theorem closing_of_partner? {i j : Nat} (h : partner? ms j = some i) {m : FragmentMarker}
    (hm : ms[j]? = some m) : m.closing = true := by
  obtain ⟨m', -, -, hm', -, closing, -⟩ := partner?_eq_some_iff.mp h
  obtain rfl := Option.some.inj (hm.symm.trans hm')
  exact closing

/-- **What is open** in front of a marker are the opening markers that found no partner so far. -/
theorem mem_opened_iff {k i : Nat} {o : FragmentMarker} :
    (o, i) ∈ opened ms k ↔ StillOpen ms k o i := by
  induction k with
  | zero => exact iff_of_false List.not_mem_nil fun h => absurd h.1 (Nat.not_lt_zero i)
  | succ k ih =>
    -- An opening marker that is open behind marker number `k` is that marker or was open before.
    have earlier : StillOpen ms (k + 1) o i ↔
        (StillOpen ms k o i ∧ partner? ms k ≠ some i) ∨
          (i = k ∧ ms[k]? = some o ∧ o.closing = false) := by
      unfold StillOpen
      rw [Nat.forall_lt_succ_right, Nat.lt_succ_iff_lt_or_eq]
      constructor
      · rintro ⟨hi | rfl, ho, opening, free, now⟩
        · exact Or.inl ⟨⟨hi, ho, opening, free⟩, now⟩
        · exact Or.inr ⟨rfl, ho, opening⟩
      · rintro (⟨⟨hi, ho, opening, free⟩, now⟩ | ⟨rfl, ho, opening⟩)
        · exact ⟨Or.inl hi, ho, opening, free, now⟩
        · refine ⟨Or.inr rfl, ho, opening, fun j hj h => ?_, fun h => ?_⟩
          · exact absurd (lt_of_partner? h) (Nat.not_lt_of_lt hj)
          · exact absurd (lt_of_partner? h) (Nat.lt_irrefl i)
    rw [earlier, ← ih]
    rcases opened_step ms k with
      ⟨o', i', paired, pop⟩ | ⟨free, same, closing⟩ | ⟨free, m, hm, opening, push⟩
    · have sorted := (List.pairwise_cons.mp (pop ▸ (opened_sorted ms k).1)).1
      rw [pop, paired, List.mem_cons]
      constructor
      · intro h
        have outer : i < i' := sorted _ h
        exact Or.inl ⟨Or.inr h, fun e => Nat.ne_of_gt outer (Option.some.inj e)⟩
      · rintro (⟨e | h, other⟩ | ⟨rfl, ho, opening⟩)
        · exact absurd (congrArg (fun p => some p.2) e).symm other
        · exact h
        · exact absurd (closing_of_partner? paired ho) (by rw [opening]; exact Bool.false_ne_true)
    · rw [same, free]
      refine ⟨fun h => Or.inl ⟨h, Option.some_ne_none i ∘ Eq.symm⟩, ?_⟩
      rintro (⟨h, -⟩ | ⟨rfl, ho, opening⟩)
      · exact h
      · exact absurd (closing o ho) (by rw [opening]; exact Bool.false_ne_true)
    · rw [push, free, List.mem_cons]
      constructor
      · rintro (e | h)
        · obtain ⟨rfl, rfl⟩ := Prod.mk.inj e
          exact Or.inr ⟨rfl, hm, opening⟩
        · exact Or.inl ⟨h, Option.some_ne_none i ∘ Eq.symm⟩
      · rintro (⟨h, -⟩ | ⟨rfl, ho, -⟩)
        · exact Or.inr h
        · obtain rfl := Option.some.inj (hm.symm.trans ho)
          exact Or.inl rfl

theorem mem_map_opened_iff {k i : Nat} {o : FragmentMarker}
    (ho : ms[i]? = some o) : i ∈ (opened ms k).map Prod.snd ↔ StillOpen ms k o i := by
  rw [List.mem_map]
  constructor
  · rintro ⟨⟨o', i⟩, hp, rfl⟩
    have still := mem_opened_iff.mp hp
    obtain rfl := Option.some.inj (ho.symm.trans still.2.1)
    exact still
  · exact fun still => ⟨(o, i), mem_opened_iff.mpr still, rfl⟩

/-! ### Partners -/

/-- A closing marker has the innermost opening marker that is still open as its partner, if they agree,
and no partner otherwise. -/
theorem partner?_rule {i j : Nat} :
    partner? ms j = some i ↔ ∃ m o, ms[j]? = some m ∧ m.closing = true ∧ o.Agrees m ∧
      StillOpen ms j o i ∧ ∀ o' i', StillOpen ms j o' i' → i' ≤ i := by
  constructor
  · intro h
    obtain ⟨m, o, rest, hm, ho, closing, agree⟩ := partner?_eq_some_iff.mp h
    have sorted := (List.pairwise_cons.mp (ho ▸ (opened_sorted ms j).1)).1
    refine ⟨m, o, hm, closing, agree, mem_opened_iff.mp (ho ▸ List.mem_cons_self), fun o' i' h' => ?_⟩
    rcases List.mem_cons.mp (ho ▸ mem_opened_iff.mpr h') with e | inside
    · exact Nat.le_of_eq (congrArg Prod.snd e)
    · exact Nat.le_of_lt (sorted _ inside)
  · rintro ⟨m, o, hm, closing, agree, still, innermost⟩
    cases ho : opened ms j with
    | nil => exact absurd (ho ▸ mem_opened_iff.mpr still) List.not_mem_nil
    | cons p rest =>
      obtain ⟨o', i'⟩ := p
      have sorted := (List.pairwise_cons.mp (ho ▸ (opened_sorted ms j).1)).1
      have top : StillOpen ms j o' i' := mem_opened_iff.mp (ho ▸ List.mem_cons_self)
      -- The innermost one is the last, and nothing deeper on the stack opened later.
      rcases List.mem_cons.mp (ho ▸ mem_opened_iff.mpr still) with e | deeper
      · obtain ⟨rfl, rfl⟩ := Prod.mk.inj e
        exact partner?_eq_some_iff.mpr ⟨m, o, rest, hm, ho, closing, agree⟩
      · exact absurd (sorted _ deeper) (Nat.not_lt_of_le (innermost o' i' top))

theorem stillOpen_of_partner? {i j : Nat} (h : partner? ms j = some i) :
    ∃ o, StillOpen ms j o i := by
  obtain ⟨m, o, -, -, -, still, -⟩ := partner?_rule.mp h
  exact ⟨o, still⟩

/-- An opening marker is the partner of one closing marker at most. -/
theorem partner?_inj {i j j' : Nat} (h : partner? ms j = some i) (h' : partner? ms j' = some i) :
    j = j' := by
  obtain ⟨o, -, -, -, free⟩ := stillOpen_of_partner? h
  obtain ⟨o', -, -, -, free'⟩ := stillOpen_of_partner? h'
  rcases Nat.lt_trichotomy j j' with lt | e | gt
  · exact absurd h (free' j lt)
  · exact e
  · exact absurd h' (free j' gt)

theorem opening_of_closed {i : Nat} (h : Closed ms i) : ∃ o, ms[i]? = some o ∧ o.closing = false := by
  obtain ⟨j, -, paired⟩ := h
  obtain ⟨o, -, ho, opening, -⟩ := stillOpen_of_partner? paired
  exact ⟨o, ho, opening⟩

theorem not_closed_of_closing {k : Nat} {m : FragmentMarker}
    (hm : ms[k]? = some m) (closing : m.closing = true) : ¬ Closed ms k := by
  intro closed
  obtain ⟨o, ho, opening⟩ := opening_of_closed closed
  obtain rfl := Option.some.inj (hm.symm.trans ho)
  exact Bool.false_ne_true (opening.symm.trans closing)

/-- What is open at the end has no partner. -/
theorem closed_iff_not_stillOpen {i : Nat} {o : FragmentMarker} (ho : ms[i]? = some o)
    (opening : o.closing = false) : Closed ms i ↔ ¬ StillOpen ms ms.length o i := by
  constructor
  · rintro ⟨j, hj, paired⟩ ⟨-, -, -, free⟩
    exact free j hj paired
  · intro h
    by_contra never
    exact h ⟨(List.getElem?_eq_some_iff.mp ho).1, ho, opening, fun j hj e => never ⟨j, hj, e⟩⟩

/-- What is open inside an opening marker with a partner has a partner too. -/
theorem closed_of_inside {k i i' : Nat} {o o' : FragmentMarker} (outer : StillOpen ms k o i)
    (inner : StillOpen ms k o' i') (h : i ≤ i') (closed : Closed ms i) : Closed ms i' := by
  obtain ⟨j, hj, paired⟩ := closed
  obtain ⟨m, o₁, -, -, -, -, innermost⟩ := partner?_rule.mp paired
  have later : k ≤ j := Nat.le_of_not_lt fun lt => outer.2.2.2 j lt paired
  by_contra never
  -- It would still be open where the outer one meets its partner.
  have still : StillOpen ms j o' i' :=
    ⟨Nat.lt_of_lt_of_le inner.1 later, inner.2.1, inner.2.2.1,
      fun j' lt e => never ⟨j', Nat.lt_trans lt hj, e⟩⟩
  exact never (Nat.le_antisymm (innermost o' i' still) h ▸ ⟨j, hj, paired⟩)

theorem around_iff {k i : Nat} :
    Around ms k i ↔ Closed ms i ∧ ∃ o, StillOpen ms (k + 1) o i := by
  constructor
  · rintro ⟨hi, j, hj, lt, paired⟩
    obtain ⟨o, -, ho, opening, free⟩ := stillOpen_of_partner? paired
    exact ⟨⟨j, hj, paired⟩, o, Nat.lt_succ_of_le hi, ho, opening,
      fun j' lt' => free j' (Nat.lt_of_lt_of_le lt' lt)⟩
  · rintro ⟨⟨j, hj, paired⟩, o, hi, -, -, free⟩
    exact ⟨Nat.le_of_lt_succ hi, j, hj, Nat.lt_of_not_le fun le => free j (Nat.lt_succ_of_le le) paired,
      paired⟩

theorem home?_eq_some_iff {k i : Nat} :
    home? ms k = some i ↔ Around ms k i ∧ ∀ i', Around ms k i' → i' ≤ i := by
  unfold home?
  rw [List.max?_eq_some_iff]
  have among : ∀ i', i' ∈ (List.range (k + 1)).filter (Around ms k) ↔ Around ms k i' := by
    intro i'
    rw [List.mem_filter, List.mem_range, decide_eq_true_iff]
    exact and_iff_right_of_imp fun h => Nat.lt_succ_of_le h.1
  simp only [among]

/-- **What the text behind a marker belongs to** is the innermost marker that is open there, if that one
finds a partner. -/
theorem home?_eq (ms : List FragmentMarker) (k : Nat) :
    home? ms k = ((opened ms (k + 1)).head?.map Prod.snd).filter (Closed ms ·) := by
  apply Option.ext
  intro i
  rw [home?_eq_some_iff]
  cases ho : opened ms (k + 1) with
  | nil =>
    refine iff_of_false (fun h => ?_) (Option.some_ne_none i ∘ Eq.symm)
    obtain ⟨-, o, still⟩ := around_iff.mp h.1
    exact absurd (ho ▸ mem_opened_iff.mpr still) List.not_mem_nil
  | cons p rest =>
    obtain ⟨o, top⟩ := p
    have sorted := (List.pairwise_cons.mp (ho ▸ (opened_sorted ms (k + 1)).1)).1
    have still : StillOpen ms (k + 1) o top := mem_opened_iff.mp (ho ▸ List.mem_cons_self)
    have deepest : ∀ o' i', StillOpen ms (k + 1) o' i' → i' ≤ top := by
      intro o' i' h
      rcases List.mem_cons.mp (ho ▸ mem_opened_iff.mpr h) with e | deeper
      · exact Nat.le_of_eq (congrArg Prod.snd e)
      · exact Nat.le_of_lt (sorted _ deeper)
    rw [List.head?_cons, Option.map_some, Option.filter_eq_some_iff, Option.some.injEq,
      decide_eq_true_iff]
    constructor
    · rintro ⟨around, last⟩
      obtain ⟨closed, o', open'⟩ := around_iff.mp around
      have inside := deepest o' i open'
      have topClosed := closed_of_inside open' still inside closed
      exact ⟨Nat.le_antisymm (last top (around_iff.mpr ⟨topClosed, o, still⟩)) inside, closed⟩
    · rintro ⟨rfl, closed⟩
      refine ⟨around_iff.mpr ⟨closed, o, still⟩, fun i' around => ?_⟩
      obtain ⟨-, o', open'⟩ := around_iff.mp around
      exact deepest o' i' open'

/-! ### Counting -/

/-- There are as many opening markers with a partner as closing ones, also among those that a property
holds of that partners share. -/
theorem countP_closed (ms : List FragmentMarker) {p : FragmentMarker → Prop} [DecidablePred p]
    (shared : ∀ o m, o.Agrees m → (p o ↔ p m)) :
    (ms.zipIdx.countP fun (o, i) => Closed ms i ∧ p o) =
      ms.zipIdx.countP fun (m, j) => (partner? ms j).isSome ∧ p m := by
  let openers := (ms.zipIdx.filter fun (o, i) => Closed ms i ∧ p o).map Prod.snd
  let closers := (ms.zipIdx.filter fun (m, j) => (partner? ms j).isSome ∧ p m).map Prod.snd
  have distinct : (ms.zipIdx.map Prod.snd).Nodup := by
    rw [List.zipIdx_map_snd]
    exact List.nodup_range'
  have openersDistinct : openers.Nodup := distinct.sublist (List.filter_sublist.map _)
  have closersDistinct : closers.Nodup := distinct.sublist (List.filter_sublist.map _)
  have mem_openers : ∀ i, i ∈ openers ↔ ∃ o, ms[i]? = some o ∧ Closed ms i ∧ p o := by
    intro i
    simp [openers, List.mem_zipIdx_iff_getElem?]
  have mem_closers : ∀ j, j ∈ closers ↔ ∃ m, ms[j]? = some m ∧ (partner? ms j).isSome ∧ p m := by
    intro j
    simp [closers, List.mem_zipIdx_iff_getElem?]
  have matched : openers.Perm (closers.filterMap (partner? ms)) := by
    rw [List.perm_ext_iff_of_nodup openersDistinct
      (closersDistinct.filterMap fun j j' i h h' => partner?_inj h h')]
    intro i
    rw [mem_openers, List.mem_filterMap]
    constructor
    · rintro ⟨o, ho, ⟨j, hj, paired⟩, holds⟩
      obtain ⟨m, o', hm, -, agree, still, -⟩ := partner?_rule.mp paired
      obtain rfl := Option.some.inj (ho.symm.trans still.2.1)
      exact ⟨j, (mem_closers j).mpr ⟨m, hm, by rw [paired]; rfl, (shared o m agree).mp holds⟩, paired⟩
    · rintro ⟨j, hj, paired⟩
      obtain ⟨m, hm, -, holds⟩ := (mem_closers j).mp hj
      obtain ⟨m', o, hm', -, agree, still, -⟩ := partner?_rule.mp paired
      obtain rfl := Option.some.inj (hm.symm.trans hm')
      exact ⟨o, still.2.1, ⟨j, (List.getElem?_eq_some_iff.mp hm).1, paired⟩,
        (shared o m agree).mpr holds⟩
  have all : (closers.filterMap (partner? ms)).length = closers.length :=
    List.filterMap_length_eq_length.mpr fun j hj => by
      obtain ⟨m, -, some, -⟩ := (mem_closers j).mp hj
      exact some
  have lengths := matched.length_eq.trans all
  rwa [List.length_map, List.length_map, ← List.countP_eq_length_filter,
    ← List.countP_eq_length_filter] at lengths

end Pagewright.Assembly
