import Mathlib.Data.List.Nodup
import Pagewright.Text.Named

/-! # Looking up named values

Of several values put under one name the last one counts (`lookup_putAll`).  Names are never put
down twice (`nodup_putAll`), so that the order of the values does not matter for looking one up. -/

namespace Pagewright.Named

variable {α : Type}

theorem lookup_cons_eq (name k : Text) (a : α) (all : List (Text × α)) :
    ((k, a) :: all).lookup name = if name = k then some a else all.lookup name := by
  by_cases h : name = k
  · rw [List.lookup_cons, beq_iff_eq.mpr h, if_pos h]
  · rw [List.lookup_cons, beq_eq_false_iff_ne.mpr h, if_neg h]

/-- What is looked up among named members of a list is the value of the first one of that name. -/
theorem lookup_map {β : Type} (name : β → Text) (value : β → α) (n : Text) : ∀ l : List β,
    (l.map fun b => (name b, value b)).lookup n = (l.find? fun b => name b = n).map value
  | [] => rfl
  | b :: l => by
      rw [List.map_cons, lookup_cons_eq, lookup_map name value n l, List.find?_cons]
      by_cases same : n = name b
      · rw [if_pos same, decide_eq_true same.symm]
        rfl
      · rw [if_neg same, decide_eq_false fun e => same e.symm]

theorem lookup_put (name k : Text) (a : α) : ∀ all : List (Text × α),
    (put k a all).lookup name = if name = k then some a else all.lookup name
  | [] => lookup_cons_eq name k a []
  | (j, b) :: all => by
      rw [put]
      split
      · next e =>
        subst e
        rw [lookup_cons_eq, lookup_cons_eq]
        split <;> rfl
      · next ne =>
        rw [lookup_cons_eq, lookup_cons_eq, lookup_put name k a all]
        by_cases h : name = j
        · rw [if_pos h, if_pos h, if_neg fun e => ne (h.symm.trans e)]
        · rw [if_neg h, if_neg h]

/-- **The last value put under a name counts.** -/
theorem lookup_putAll (name : Text) : ∀ base new : List (Text × α),
    (putAll base new).lookup name = (new.reverse.lookup name).or (base.lookup name)
  | base, [] => rfl
  | base, (k, a) :: new => by
      have ih := lookup_putAll name (put k a base) new
      have e : putAll base ((k, a) :: new) = putAll (put k a base) new := rfl
      rw [e, ih, lookup_put, List.reverse_cons, List.lookup_append, Option.or_assoc, lookup_cons_eq]
      split <;> rfl

/-- Of the members of a list, the last one of a name has its value there. -/
theorem lookup_putAll_map {β : Type} (name : β → Text) (value : β → α) {n : Text} {a : α}
    {l : List β} : (putAll [] (l.map fun b => (name b, value b))).lookup n = some a ↔
      ∃ before b after, l = before ++ b :: after ∧ name b = n ∧ (∀ c ∈ after, name c ≠ n) ∧
        value b = a := by
  rw [lookup_putAll, List.lookup_nil, Option.or_none, ← List.map_reverse, lookup_map,
    Option.map_eq_some_iff]
  constructor
  · rintro ⟨b, last, holds⟩
    obtain ⟨named, after, before, split, others⟩ := List.find?_eq_some_iff_append.mp last
    rw [List.reverse_eq_iff, List.reverse_append, List.reverse_cons, List.append_assoc] at split
    refine ⟨before.reverse, b, after.reverse, split, of_decide_eq_true named, fun c hc => ?_, holds⟩
    simpa using others c (List.mem_reverse.mp hc)
  · rintro ⟨before, b, after, rfl, named, others, holds⟩
    refine ⟨b, List.find?_eq_some_iff_append.mpr
      ⟨decide_eq_true named, after.reverse, before.reverse, ?_, fun c hc => ?_⟩, holds⟩
    · rw [List.reverse_append, List.reverse_cons, List.append_assoc]
      rfl
    · simpa using others c (List.mem_reverse.mp hc)

theorem mem_put {k : Text} {a : α} {e : Text × α} : ∀ {all : List (Text × α)},
    e ∈ put k a all → e = (k, a) ∨ e ∈ all
  | [], h => Or.inl (List.mem_singleton.mp h)
  | (j, b) :: all, h => by
      rw [put] at h
      split at h
      · next e' =>
        obtain rfl | h := List.mem_cons.mp h
        · exact Or.inl (by rw [e'])
        · exact Or.inr (List.mem_cons_of_mem _ h)
      · obtain rfl | h := List.mem_cons.mp h
        · exact Or.inr List.mem_cons_self
        · exact (mem_put h).imp id (List.mem_cons_of_mem _)

theorem mem_putAll {e : Text × α} : ∀ {base new : List (Text × α)}, e ∈ putAll base new →
    e ∈ base ∨ e ∈ new
  | _, [], h => Or.inl h
  | base, (k, a) :: new, h => by
      obtain h | h : e ∈ put k a base ∨ e ∈ new := mem_putAll h
      · obtain rfl | h := mem_put h
        · exact Or.inr List.mem_cons_self
        · exact Or.inl h
      · exact Or.inr (List.mem_cons_of_mem _ h)

theorem nodup_put (k : Text) (a : α) : ∀ {all : List (Text × α)}, (all.map Prod.fst).Nodup →
    ((put k a all).map Prod.fst).Nodup
  | [], _ => List.nodup_singleton k
  | (j, b) :: all, h => by
      obtain ⟨hj, ha⟩ := List.nodup_cons.mp h
      rw [put]
      split
      · next e => exact e ▸ h
      · next ne =>
        refine List.nodup_cons.mpr ⟨fun hm => ?_, nodup_put k a ha⟩
        obtain ⟨e, he, hk⟩ := List.mem_map.mp hm
        obtain rfl | he := mem_put he
        · exact ne hk.symm
        · exact hj (List.mem_map.mpr ⟨e, he, hk⟩)

/-- No name is put down twice. -/
theorem nodup_putAll : ∀ {base : List (Text × α)} (new : List (Text × α)),
    (base.map Prod.fst).Nodup → ((putAll base new).map Prod.fst).Nodup
  | _, [], h => h
  | _, (k, a) :: new, h => nodup_putAll new (nodup_put k a h)

theorem put_absent {k : Text} (a : α) : ∀ {all : List (Text × α)}, k ∉ all.map Prod.fst →
    put k a all = all ++ [(k, a)]
  | [], _ => rfl
  | (j, b) :: all, h => by
      obtain ⟨hj, ha⟩ := not_or.mp (mt List.mem_cons.mpr h)
      rw [put, if_neg fun e => hj e.symm, put_absent a ha, List.cons_append]

/-- **Values under names that are all different** stand in the order in which they were put down. -/
theorem putAll_eq_append : ∀ {base new : List (Text × α)}, ((base ++ new).map Prod.fst).Nodup →
    putAll base new = base ++ new
  | base, [], _ => (List.append_nil base).symm
  | base, (k, a) :: new, h => by
      have absent : k ∉ base.map Prod.fst := by
        rw [List.map_append, List.map_cons] at h
        exact fun hm => (List.nodup_append.mp h).2.2 k hm k List.mem_cons_self rfl
      have first : putAll base ((k, a) :: new) = putAll (put k a base) new := rfl
      rw [List.append_cons] at h ⊢
      rw [first, put_absent a absent, putAll_eq_append h]

/-- Where no name stands twice, the order does not matter. -/
theorem lookup_reverse (name : Text) : ∀ {l : List (Text × α)}, (l.map Prod.fst).Nodup →
    l.reverse.lookup name = l.lookup name
  | [], _ => rfl
  | (k, a) :: l, h => by
      obtain ⟨hk, hl⟩ := List.nodup_cons.mp h
      rw [List.reverse_cons, List.lookup_append, lookup_reverse name hl, lookup_cons_eq,
        lookup_cons_eq]
      by_cases e : name = k
      · have absent : l.lookup name = none := by
          refine List.lookup_eq_none_iff.mpr fun p hp => bne_iff_ne.mpr fun h => hk ?_
          exact List.mem_map.mpr ⟨p, hp, h.symm.trans e⟩
        rw [absent, if_pos e, if_pos e, Option.none_or]
      · rw [if_neg e, if_neg e, List.lookup_nil, Option.or_none]

end Pagewright.Named
