import Pagewright.Assembly.Inclusion
import Pagewright.Proofs.Template.Data
import Pagewright.Proofs.Text.Named

/-! # Data through layers

Data under names are layered as named values are put down (`namedData_foldl`): layers of data under
names give such data (`named_layered`), and of the values under one name that of the last layer
counts, whatever else the layers hold (`Binds.onto`). -/

namespace Pagewright.Assembly

open Text Template

theorem named?_eq_lookup (n : Text) : ∀ es : List (Text × Value), named? n es = es.lookup n
  | [] => rfl
  | (m, v) :: es => by
      have ih := named?_eq_lookup n es
      unfold named? at ih ⊢
      by_cases e : n = m
      · rw [Named.lookup_cons_eq, if_pos e]
        exact congrArg (Option.map Prod.snd) (List.find?_cons_of_pos (by simp [e]))
      · rw [Named.lookup_cons_eq, if_neg e, ← ih]
        exact congrArg (Option.map Prod.snd) (List.find?_cons_of_neg (by simp [Ne.symm e]))

/-- Keys that are texts are equal when the texts are. -/
theorem eqv_iff_of_text? {k j : Value} {n m : Text} (hk : k.text? = some n) (hj : j.text? = some m) :
    Value.eqv k j = true ↔ m = n := by
  cases k with
  | str t | markup t =>
      obtain rfl := Option.some.inj hk
      rw [Value.eqv, hj, beq_iff_eq, Option.some_inj]
  | _ => cases hk

/-- Data whose names can be read start with a name. -/
theorem namedData_cons_inv {k v : Value} {data : List (Value × Value)}
    {named : List (Text × Value)} (h : namedData ((k, v) :: data) = .ok named) :
    ∃ n rest, k.text? = some n ∧ namedData data = .ok rest ∧ named = (n, v) :: rest := by
  unfold namedData at h
  rw [List.mapM_cons] at h
  cases hk : k.text? with
  | none =>
      simp only [hk] at h
      cases h
  | some n =>
      simp only [hk] at h
      cases hd : namedData data with
      | error e =>
          unfold namedData at hd
          rw [hd] at h
          cases h
      | ok rest =>
          refine ⟨n, rest, rfl, rfl, ?_⟩
          unfold namedData at hd
          rw [hd] at h
          exact (Except.ok.inj h).symm

theorem namedData_insert {k v : Value} {n : Text} (hk : k.text? = some n) :
    ∀ {data : List (Value × Value)} {named : List (Text × Value)}, namedData data = .ok named →
      namedData (Value.insert k v data) = .ok (Named.put n v named)
  | [], named, h => by
      obtain rfl := Except.ok.inj h
      exact namedData_cons hk rfl
  | (j, w) :: data, named, h => by
      obtain ⟨m, rest, hj, hr, rfl⟩ := namedData_cons_inv h
      rw [Value.insert, Named.put, if_congr (eqv_iff_of_text? hk hj) rfl rfl]
      by_cases e : m = n
      · rw [if_pos e, if_pos e]
        exact namedData_cons hj hr
      · rw [if_neg e, if_neg e]
        exact namedData_cons hj (namedData_insert hk hr)

theorem namedData_foldl : ∀ {layer all : List (Value × Value)} {new base : List (Text × Value)},
    namedData layer = .ok new → namedData all = .ok base →
      namedData (layer.foldl (fun all (k, v) => Value.insert k v all) all) =
        .ok (Named.putAll base new)
  | [], _, _, _, hl, ha => by
      obtain rfl := Except.ok.inj hl
      exact ha
  | (k, v) :: layer, all, new, base, hl, ha => by
      obtain ⟨n, rest, hk, hr, rfl⟩ := namedData_cons_inv hl
      show namedData (layer.foldl _ (Value.insert k v all)) =
        .ok (Named.putAll (Named.put n v base) rest)
      exact namedData_foldl hr (namedData_insert hk ha)

theorem named_of_namedData : ∀ {data : List (Value × Value)} {named : List (Text × Value)},
    namedData data = .ok named → Template.Named data
  | [], _, _ => fun _ hm => absurd hm List.not_mem_nil
  | (k, v) :: data, _, h => by
      obtain ⟨n, rest, hk, hr, -⟩ := namedData_cons_inv h
      exact List.forall_mem_cons.mpr ⟨⟨n, hk⟩, named_of_namedData hr⟩

/-- Layers of data under names give data with no name twice. -/
theorem namedData_layered {layers : List (List (Value × Value))}
    (h : ∀ layer ∈ layers, Template.Named layer) :
    ∃ named, namedData (layered layers) = .ok named ∧ (named.map Prod.fst).Nodup := by
  have onto : ∀ (layers : List (List (Value × Value))) (all : List (Value × Value))
      (base : List (Text × Value)), (∀ layer ∈ layers, Template.Named layer) →
        namedData all = .ok base → (base.map Prod.fst).Nodup → ∃ named, namedData
          (layers.foldl (fun all layer => layer.foldl (fun all (k, v) => Value.insert k v all) all)
            all) = .ok named ∧ (named.map Prod.fst).Nodup := by
    intro layers
    induction layers with
    | nil => exact fun _ base _ hall nodup => ⟨base, hall, nodup⟩
    | cons layer layers ih =>
        intro all base hl hall nodup
        obtain ⟨own, others⟩ := List.forall_mem_cons.mp hl
        obtain ⟨new, hnew⟩ := namedData_ok own
        exact ih _ _ others (namedData_foldl hnew hall) (Named.nodup_putAll new nodup)
  exact onto layers [] [] h rfl List.nodup_nil

/-- Layers of data under names give data under names. -/
theorem named_layered (layers : List (List (Value × Value)))
    (h : ∀ layer ∈ layers, Template.Named layer) : Template.Named (layered layers) := by
  obtain ⟨named, hd, -⟩ := namedData_layered h
  exact named_of_namedData hd

/-- Data with one value under a name, and no name twice. -/
def Binds (n : Text) (v : Value) (data : List (Value × Value)) : Prop :=
  ∃ named, namedData data = .ok named ∧ named.lookup n = some v ∧ (named.map Prod.fst).Nodup

theorem binds_single (n : Text) (v : Value) : Binds n v [(.str n, v)] :=
  ⟨[(n, v)], rfl, by simp, List.nodup_singleton n⟩

theorem Binds.named {n : Text} {v : Value} {data : List (Value × Value)} (h : Binds n v data) :
    Template.Named data := by
  obtain ⟨named, hd, -⟩ := h
  exact named_of_namedData hd

/-- **What the last layer binds wins** over what lies below it. -/
theorem Binds.onto {n : Text} {v : Value} {below : List (List (Value × Value))}
    {data : List (Value × Value)} (hb : ∀ layer ∈ below, Template.Named layer) (h : Binds n v data) :
    Binds n v (Assembly.layered (below ++ [data])) := by
  obtain ⟨low, hlow, distinct⟩ := namedData_layered hb
  obtain ⟨named, hd, hv, nodup⟩ := h
  refine ⟨Named.putAll low named, ?_, ?_, Named.nodup_putAll named distinct⟩
  · unfold Assembly.layered at hlow ⊢
    rw [List.foldl_append]
    exact namedData_foldl hd hlow
  · rw [Named.lookup_putAll, Named.lookup_reverse n nodup, hv, Option.some_or]

/-- What a layer binds wins over a single layer below it. -/
theorem Binds.layered {n : Text} {v : Value} {base data : List (Value × Value)}
    (hb : Template.Named base) (h : Binds n v data) : Binds n v (layered [base, data]) :=
  Binds.onto (List.forall_mem_singleton.mpr hb) h

end Pagewright.Assembly
