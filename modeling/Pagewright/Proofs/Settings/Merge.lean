import Pagewright.Proofs.Number.Sign
import Pagewright.Settings.Load

/-! # Merging data

Mappings are merged entry by entry, and level by level where both sides have a mapping.  What that does
is seen along paths of keys (`at?`): at a path at which the second mapping has anything but a mapping,
the result has the same; what the first one has is kept where the second one leaves the path free; and
nothing else is there (`deepMerge_spec`).  The law holds for one entry put under a key
(`lookup?_insert`), then for a list of entries (`lookup?_deepMerge`), and then along a path.

Main definitions: `IsKey`, `Keyed`, `at?`, `LeavesFree`. -/

/-! ## Keys

Keys are compared by value: numbers of all kinds by their exact value, texts by their characters, tuples
item by item.  On keys this is symmetric and transitive (`eqv_symm`, `eqv_trans`), but what is not a
number is not equal to itself, so it is never found again.

Main definition: `IsKey`. -/

namespace Pagewright.Value

open Number

/-- What can be a key of data: a value without parts, or a tuple of keys. -/
inductive IsKey : Value → Prop
  | none : IsKey .none
  | bool (b : Bool) : IsKey (.bool b)
  | int (n : Int) : IsKey (.int n)
  | float (x : Float) : IsKey (.float x)
  | str (t : Text) : IsKey (.str t)
  | markup (t : Text) : IsKey (.markup t)
  | tuple {xs : List Value} (h : ∀ x ∈ xs, IsKey x) : IsKey (.tuple xs)

/-! ### Numbers -/

/-- The exact value of a value that is a number. -/
def amount? : Value → Option Amount
  | .bool b => some (.finite (if b then 1 else 0))
  | .int n => some (.finite n)
  | .float x => (decode x).amount?
  | _ => Option.none

theorem amount?_eq_int? {v : Value} (hv : ∀ x, v ≠ .float x) :
    v.amount? = v.int?.map fun n => .finite n := by
  cases v with
  | bool b => cases b <;> simp [amount?, int?]
  | float x => exact absurd rfl (hv x)
  | _ => rfl

/-- A double and a value of another kind. -/
theorem compareInt_int?_iff (x : Float) {w : Value} (hw : ∀ y, w ≠ .float y) :
    (w.int?.map fun n => compareInt x n == some .eq) = some true ↔
      ∃ a, (decode x).amount? = some a ∧ w.amount? = some a := by
  rw [amount?_eq_int? hw]
  cases w.int? with
  | none => simp
  | some n => simp [compareInt_eq_iff]

/-- **Numbers are equal exactly if they have the same exact value.** -/
theorem numbersEqual?_iff (v w : Value) : numbersEqual? v w = some true ↔
    ∃ a, v.amount? = some a ∧ w.amount? = some a := by
  unfold numbersEqual?
  split
  case h_1 x y =>
    rw [Option.some.injEq, beq_iff]
    rfl
  case h_2 x hw => exact compareInt_int?_iff x hw
  case h_3 y hv =>
    rw [compareInt_int?_iff y hv]
    simp only [and_comm]
    rfl
  case h_4 hv hw _ =>
    rw [amount?_eq_int? hv, amount?_eq_int? hw]
    cases v.int? with
    | none => simp
    | some m =>
      cases w.int? with
      | none => simp
      | some n =>
        simp
        exact eq_comm

theorem eqv_number {v w : Value} (h : eqv v w = (numbersEqual? v w).getD false) :
    eqv v w = true ↔ ∃ a, v.amount? = some a ∧ w.amount? = some a := by
  rw [h, ← numbersEqual?_iff]
  cases numbersEqual? v w <;> simp

/-! ### Exact values of keys -/

/-- What a key is compared by. -/
inductive KeyValue where
  | nothing
  | number (a : Amount)
  | text (t : Text)
  | tuple (cs : List KeyValue)

mutual

/-- What a value is compared by as a key, if it can be equal to a key at all. -/
def keyValue? : Value → Option KeyValue
  | .none => some .nothing
  | .str t => some (.text t)
  | .markup t => some (.text t)
  | .tuple xs => (keyValues? xs).map .tuple
  | .bool b => (Value.bool b).amount?.map .number
  | .int n => (Value.int n).amount?.map .number
  | .float x => (Value.float x).amount?.map .number
  | _ => Option.none

/-- What the items of a tuple are compared by. -/
def keyValues? : List Value → Option (List KeyValue)
  | [] => some []
  | x :: xs => (keyValue? x).bind fun c => (keyValues? xs).map (c :: ·)

end

theorem keyValue?_nothing {v : Value} : keyValue? v = some .nothing ↔ v = .none := by
  cases v <;> simp [keyValue?]

theorem keyValue?_text {v : Value} {t : Text} : keyValue? v = some (.text t) ↔ v.text? = some t := by
  cases v <;> simp [keyValue?, text?]

theorem keyValue?_number {v : Value} {a : Amount} :
    keyValue? v = some (.number a) ↔ v.amount? = some a := by
  cases v <;> simp [keyValue?, amount?]

theorem keyValue?_tuple {v : Value} {cs : List KeyValue} :
    keyValue? v = some (.tuple cs) ↔ ∃ xs, v = .tuple xs ∧ keyValues? xs = some cs := by
  cases v <;> simp [keyValue?]

theorem keyValues?_cons {x : Value} {xs : List Value} {cs : List KeyValue} :
    keyValues? (x :: xs) = some cs ↔
      ∃ d ds, keyValue? x = some d ∧ keyValues? xs = some ds ∧ d :: ds = cs := by
  simp [keyValues?, Option.bind_eq_some_iff]

/-- Lists whose items are equal as keys. -/
theorem eqvAll_iff {xs : List Value} (ih : ∀ x ∈ xs, ∀ {w}, eqv x w = true ↔
    ∃ c, keyValue? x = some c ∧ keyValue? w = some c) {ys : List Value} :
    eqvAll xs ys = true ↔ ∃ cs, keyValues? xs = some cs ∧ keyValues? ys = some cs := by
  induction xs generalizing ys with
  | nil =>
    cases ys with
    | nil => simp [eqvAll, keyValues?]
    | cons y ys =>
      refine iff_of_false (by simp [eqvAll]) ?_
      rintro ⟨cs, none, some_⟩
      cases none
      obtain ⟨d, ds, -, -, e⟩ := keyValues?_cons.mp some_
      cases e
  | cons x xs rest =>
    obtain ⟨first, others⟩ := List.forall_mem_cons.mp ih
    cases ys with
    | nil => simp [eqvAll, keyValues?, Option.bind_eq_some_iff]
    | cons y ys =>
      rw [eqvAll, Bool.and_eq_true, first, rest others]
      simp only [keyValues?_cons]
      constructor
      · rintro ⟨⟨d, hx, hy⟩, ds, hxs, hys⟩
        exact ⟨d :: ds, ⟨d, ds, hx, hxs, rfl⟩, ⟨d, ds, hy, hys, rfl⟩⟩
      · rintro ⟨cs, ⟨d, ds, hx, hxs, rfl⟩, ⟨d', ds', hy, hys, e⟩⟩
        obtain ⟨rfl, rfl⟩ := List.cons.inj e
        exact ⟨⟨d', hx, hy⟩, ds', hxs, hys⟩

theorem eqv_iff_of_number {v w : Value} (h : eqv v w = (numbersEqual? v w).getD false)
    (hv : keyValue? v = v.amount?.map .number) : eqv v w = true ↔
      ∃ c, keyValue? v = some c ∧ keyValue? w = some c := by
  rw [eqv_number h, hv]
  constructor
  · rintro ⟨a, ha, hb⟩
    exact ⟨.number a, by rw [ha]; rfl, keyValue?_number.mpr hb⟩
  · rintro ⟨c, hc, hw⟩
    obtain ⟨a, ha, rfl⟩ := Option.map_eq_some_iff.mp hc
    exact ⟨a, ha, keyValue?_number.mp hw⟩

/-- **A key is equal to what is compared by the same.** -/
theorem eqv_iff {v w : Value} (hv : IsKey v) : eqv v w = true ↔
    ∃ c, keyValue? v = some c ∧ keyValue? w = some c := by
  induction hv generalizing w with
  | none =>
    have alone : eqv .none w = true ↔ w = .none := by cases w <;> simp [eqv]
    rw [alone, ← keyValue?_nothing]
    simp [keyValue?]
  | str t =>
    rw [eqv, beq_iff_eq, ← keyValue?_text]
    simp [keyValue?]
  | markup t =>
    rw [eqv, beq_iff_eq, ← keyValue?_text]
    simp [keyValue?]
  | bool b => exact eqv_iff_of_number (by rw [eqv]) (by rw [keyValue?])
  | int n => exact eqv_iff_of_number (by rw [eqv]) (by rw [keyValue?])
  | float x => exact eqv_iff_of_number (by rw [eqv]) (by rw [keyValue?])
  | tuple keys ih =>
    constructor
    · intro h
      cases w with
      | tuple ys =>
        rw [eqv, eqvAll_iff fun x hx => ih x hx] at h
        obtain ⟨cs, hxs, hys⟩ := h
        exact ⟨.tuple cs, keyValue?_tuple.mpr ⟨_, rfl, hxs⟩, keyValue?_tuple.mpr ⟨_, rfl, hys⟩⟩
      | _ => simp [eqv] at h
    · rintro ⟨c, hv, hw⟩
      rw [keyValue?] at hv
      obtain ⟨cs, hxs, rfl⟩ := Option.map_eq_some_iff.mp hv
      obtain ⟨ys, rfl, hys⟩ := keyValue?_tuple.mp hw
      rw [eqv, eqvAll_iff fun x hx => ih x hx]
      exact ⟨cs, hxs, hys⟩

mutual

/-- Only keys are compared by something. -/
theorem isKey_of_keyValue? : ∀ {v : Value} {c : KeyValue}, keyValue? v = some c → IsKey v
  | .none, _, _ => .none
  | .bool b, _, _ => .bool b
  | .int n, _, _ => .int n
  | .float x, _, _ => .float x
  | .str t, _, _ => .str t
  | .markup t, _, _ => .markup t
  | .tuple xs, _, h => by
    rw [keyValue?] at h
    obtain ⟨cs, hxs, -⟩ := Option.map_eq_some_iff.mp h
    exact .tuple (isKey_of_keyValues? hxs)

theorem isKey_of_keyValues? : ∀ {xs : List Value} {cs : List KeyValue}, keyValues? xs = some cs →
    ∀ x ∈ xs, IsKey x
  | [], _, _ => fun _ hx => nomatch hx
  | x :: xs, _, h => by
    obtain ⟨d, ds, hd, hds, -⟩ := keyValues?_cons.mp h
    exact List.forall_mem_cons.mpr ⟨isKey_of_keyValue? hd, isKey_of_keyValues? hds⟩

end

/-! ### Equal keys -/

theorem IsKey.of_eqv {v w : Value} (hv : IsKey v) (h : eqv v w = true) : IsKey w := by
  obtain ⟨c, -, hw⟩ := (eqv_iff hv).mp h
  exact isKey_of_keyValue? hw

theorem eqv_symm {v w : Value} (hv : IsKey v) (h : eqv v w = true) : eqv w v = true := by
  obtain ⟨c, hc, hw⟩ := (eqv_iff hv).mp h
  exact (eqv_iff (isKey_of_keyValue? hw)).mpr ⟨c, hw, hc⟩

theorem eqv_trans {u v w : Value} (hu : IsKey u) (huv : eqv u v = true) (hvw : eqv v w = true) :
    eqv u w = true := by
  obtain ⟨c, hc, hv⟩ := (eqv_iff hu).mp huv
  obtain ⟨d, hv', hw⟩ := (eqv_iff (isKey_of_keyValue? hv)).mp hvw
  obtain rfl : c = d := Option.some.inj (hv.symm.trans hv')
  exact (eqv_iff hu).mpr ⟨c, hc, hw⟩

/-- Equal keys are equal to the same values. -/
theorem eqv_congr {u v : Value} (hu : IsKey u) (h : eqv u v = true) (w : Value) :
    eqv u w = eqv v w := by
  have hv := hu.of_eqv h
  rw [Bool.eq_iff_iff]
  exact ⟨eqv_trans hv (eqv_symm hu h), eqv_trans hu h⟩

theorem isKey_of_eqvAll : ∀ {xs ys : List Value}, (∀ y ∈ ys, ∀ {x}, eqv x y = true → IsKey x) →
    eqvAll xs ys = true → ∀ x ∈ xs, IsKey x
  | [], _, _, _ => fun _ hx => nomatch hx
  | x :: xs, [], _, h => by simp [eqvAll] at h
  | x :: xs, y :: ys, each, h => by
    rw [eqvAll, Bool.and_eq_true] at h
    obtain ⟨first, others⟩ := List.forall_mem_cons.mp each
    exact List.forall_mem_cons.mpr ⟨first h.1, isKey_of_eqvAll others h.2⟩

/-- Only keys are equal to a key. -/
theorem isKey_of_eqv {v w : Value} (hw : IsKey w) (h : eqv v w = true) : IsKey v := by
  induction hw generalizing v with
  | tuple keys ih =>
    cases v with
    | tuple xs =>
      rw [eqv] at h
      exact .tuple (isKey_of_eqvAll (fun y hy => ih y hy) h)
    | bool | int | float | none | str | markup => constructor
    | _ => simp [eqv, isUndefined] at h
  | _ =>
    cases v with
    | bool | int | float | none | str | markup => constructor
    | _ => simp [eqv, isUndefined] at h

end Pagewright.Value

/-! ## Entries

Main definition: `Keyed`. -/

namespace Pagewright.Value

/-! ### One entry -/

variable {k k' : Value} {v : Value} {es : List (Value × Value)}

theorem lookup?_congr (hk : IsKey k) (h : eqv k k' = true) : lookup? k es = lookup? k' es := by
  induction es with
  | nil => rfl
  | cons e es ih => rw [lookup?, lookup?, eqv_congr hk h, ih]

/-- An entry is found under the keys equal to its own, and hides nothing else. -/
theorem lookup?_insert (hk : IsKey k') :
    lookup? k (insert k' v es) = if eqv k k' then some v else lookup? k es := by
  induction es with
  | nil => rfl
  | cons e es ih =>
    obtain ⟨own, w⟩ := e
    rw [insert]
    by_cases here : eqv k' own = true
    · have same : eqv k own = eqv k k' := by
        rw [Bool.eq_iff_iff]
        have hown := hk.of_eqv here
        exact ⟨fun h => eqv_trans (isKey_of_eqv hown h) h (eqv_symm hk here),
          fun h => eqv_trans (isKey_of_eqv hk h) h here⟩
      rw [if_pos here, lookup?, lookup?, same]
      split <;> rfl
    · rw [if_neg here, lookup?, lookup?, ih]
      split
      · next found =>
        have other : ¬ eqv k k' = true := by
          intro h
          have hkey := isKey_of_eqv hk h
          exact here (eqv_trans hk (eqv_symm hkey h) found)
        rw [if_neg other]
      · rfl

/-- A key that is there keeps its place, and a new one comes last. -/
theorem keys_insert : (insert k v es).map Prod.fst =
    if (lookup? k es).isSome then es.map Prod.fst else es.map Prod.fst ++ [k] := by
  induction es with
  | nil => rfl
  | cons e es ih =>
    obtain ⟨own, w⟩ := e
    rw [insert, lookup?]
    split
    · rfl
    · rw [List.map_cons, ih]
      split <;> rfl

/-! ### Mappings -/

/-- Whether a value is a mapping. -/
def isMapping : Value → Bool
  | .dict _ => true
  | _ => false

/-- A value in which every mapping, as far as mappings lead, has keys of which no two are equal. -/
inductive Keyed : Value → Prop
  | mapping {es : List (Value × Value)} (keys : ∀ e ∈ es, IsKey e.1)
      (distinct : (es.map Prod.fst).Pairwise fun j k => eqv j k = false)
      (values : ∀ e ∈ es, Keyed e.2) : Keyed (.dict es)
  | other {v : Value} (h : v.isMapping = false) : Keyed v

theorem Keyed.entries (h : Keyed (.dict es)) : (∀ e ∈ es, IsKey e.1) ∧
    ((es.map Prod.fst).Pairwise fun j k => eqv j k = false) ∧ ∀ e ∈ es, Keyed e.2 := by
  cases h with
  | mapping keys distinct values => exact ⟨keys, distinct, values⟩
  | other h => cases h

theorem Keyed.tail {e : Value × Value} (h : Keyed (.dict (e :: es))) : Keyed (.dict es) := by
  obtain ⟨keys, distinct, values⟩ := h.entries
  exact .mapping (List.forall_mem_cons.mp keys).2 (List.pairwise_cons.mp distinct).2
    (List.forall_mem_cons.mp values).2

theorem Keyed.nil : Keyed (.dict []) :=
  .mapping nofun List.Pairwise.nil nofun

theorem Keyed.cons (hk : IsKey k) (other : ∀ j ∈ es.map Prod.fst, eqv k j = false) (hv : Keyed v)
    (h : Keyed (.dict es)) : Keyed (.dict ((k, v) :: es)) := by
  obtain ⟨keys, distinct, values⟩ := h.entries
  exact .mapping (List.forall_mem_cons.mpr ⟨hk, keys⟩) (List.pairwise_cons.mpr ⟨other, distinct⟩)
    (List.forall_mem_cons.mpr ⟨hv, values⟩)

theorem lookup?_eq_none_iff : lookup? k es = Option.none ↔ ∀ j ∈ es.map Prod.fst, eqv k j = false := by
  induction es with
  | nil => simp [lookup?]
  | cons e es ih =>
    rw [lookup?, List.map_cons, List.forall_mem_cons, ← ih]
    cases eqv k e.1 <;> simp

theorem exists_of_lookup? {w : Value} (h : lookup? k es = some w) : ∃ e ∈ es, e.2 = w := by
  induction es with
  | nil => cases h
  | cons e es ih =>
    rw [lookup?] at h
    split at h
    · exact ⟨e, List.mem_cons_self, Option.some.inj h⟩
    · obtain ⟨f, hf, rfl⟩ := ih h
      exact ⟨f, List.mem_cons_of_mem e hf, rfl⟩

theorem Keyed.lookup? {w : Value} (h : Keyed (.dict es)) (found : Value.lookup? k es = some w) :
    Keyed w := by
  obtain ⟨e, he, rfl⟩ := exists_of_lookup? found
  exact h.entries.2.2 e he

theorem mem_insert {e : Value × Value} (h : e ∈ insert k v es) :
    e.2 = v ∨ ∃ f ∈ es, f.2 = e.2 := by
  induction es with
  | nil => exact Or.inl (List.mem_singleton.mp h ▸ rfl)
  | cons f es ih =>
    rw [insert] at h
    split at h
    · obtain rfl | h := List.mem_cons.mp h
      · exact Or.inl rfl
      · exact Or.inr ⟨e, List.mem_cons_of_mem f h, rfl⟩
    · obtain rfl | h := List.mem_cons.mp h
      · exact Or.inr ⟨_, List.mem_cons_self, rfl⟩
      · exact (ih h).imp_right fun ⟨g, hg, same⟩ => ⟨g, List.mem_cons_of_mem f hg, same⟩

/-- An entry put under a key keeps the keys apart. -/
theorem Keyed.insert (h : Keyed (.dict es)) (hk : IsKey k) (hv : Keyed v) :
    Keyed (.dict (Value.insert k v es)) := by
  obtain ⟨keys, distinct, values⟩ := h.entries
  have own : ∀ j ∈ es.map Prod.fst, IsKey j := by simpa using fun j w hw => keys (j, w) hw
  have listed : (∀ j ∈ (Value.insert k v es).map Prod.fst, IsKey j) ∧
      ((Value.insert k v es).map Prod.fst).Pairwise fun j k => eqv j k = false := by
    rw [keys_insert]
    split
    · exact ⟨own, distinct⟩
    · next absent =>
      rw [Option.not_isSome_iff_eq_none, lookup?_eq_none_iff] at absent
      refine ⟨?_, List.pairwise_append.mpr ⟨distinct, List.pairwise_singleton _ _, ?_⟩⟩
      · simpa [or_imp, forall_and] using ⟨fun j w hw => keys (j, w) hw, hk⟩
      · intro j hj k' hk'
        obtain rfl := List.mem_singleton.mp hk'
        rw [Bool.eq_false_iff]
        intro same
        exact absurd (absent j hj) (by rw [eqv_symm (own j hj) same]; decide)
  refine .mapping (fun e he => listed.1 _ (List.mem_map_of_mem he)) listed.2 fun e he => ?_
  obtain e' | ⟨f, hf, same⟩ := mem_insert he
  · exact e' ▸ hv
  · exact same ▸ values f hf

end Pagewright.Value

/-! ## Merged mappings

Both sides of a law are split as `merged` is: what is new is a mapping or not, and so is what it meets.
Along a path, the induction is on the path, as a step through a merged mapping leads to something merged
again (`lookup?_deepMerge`).

Main definitions: `at?`, `LeavesFree`. -/

namespace Pagewright.Value

variable {k : Value} {base es fs : List (Value × Value)} {new old v w : Value}

/-! ### One level -/

theorem isMapping_iff : v.isMapping = true ↔ ∃ es, v = .dict es := by
  cases v <;> simp [isMapping]

theorem merged_none (new : Value) : merged Option.none new = new := by
  cases new <;> rfl

theorem merged_of_not_mapping (h : new.isMapping = false) (old : Option Value) :
    merged old new = new := by
  cases new with
  | dict es => cases h
  | _ => rfl

theorem merged_over (h : old.isMapping = false) (new : Value) : merged (some old) new = new := by
  cases new with
  | dict es =>
    cases old with
    | dict fs => cases h
    | _ => rfl
  | _ => rfl

/-- What is merged is a mapping exactly if what is new is one. -/
theorem isMapping_merged (old new : Value) :
    (merged (some old) new).isMapping = new.isMapping := by
  cases new with
  | dict es => cases old <;> rfl
  | _ => rfl

/-- The keys behind the first one are not equal to it. -/
theorem Keyed.eqv_head (h : Keyed (.dict ((k, v) :: es))) : ∀ j ∈ es.map Prod.fst, eqv j k = false := by
  obtain ⟨keys, distinct, -⟩ := h.entries
  intro j hj
  obtain ⟨e, he, rfl⟩ := List.mem_map.mp hj
  rw [Bool.eq_false_iff]
  intro same
  have back := eqv_symm (keys e (List.mem_cons_of_mem _ he)) same
  exact absurd ((List.pairwise_cons.mp distinct).1 e.1 hj) (by rw [back]; decide)

/-- What is found under a key of merged mappings. -/
theorem lookup?_deepMerge (k : Value) (h : Keyed (.dict fs)) : lookup? k (deepMerge base fs) =
    match lookup? k fs with
    | Option.none => lookup? k base
    | some v => some (merged (lookup? k base) v) := by
  induction fs generalizing base with
  | nil => rw [deepMerge, lookup?]
  | cons f fs ih =>
    obtain ⟨own, v⟩ := f
    have hown : IsKey own := h.entries.1 (own, v) List.mem_cons_self
    rw [deepMerge, ih h.tail, lookup?_insert hown, lookup?]
    by_cases here : eqv k own = true
    · have hk := isKey_of_eqv hown here
      have gone : lookup? k fs = Option.none := by
        rw [lookup?_congr hk here, lookup?_eq_none_iff]
        exact (List.pairwise_cons.mp h.entries.2.1).1
      rw [gone, if_pos here, if_pos here, lookup?_congr hk here]
    · rw [if_neg here, if_neg here]

/-- The keys of merged mappings: those of the first one, and the new ones of the second one. -/
theorem keys_deepMerge (h : Keyed (.dict fs)) : (deepMerge base fs).map Prod.fst =
    base.map Prod.fst ++ (fs.map Prod.fst).filter fun k => (lookup? k base).isNone := by
  induction fs generalizing base with
  | nil => rw [deepMerge, List.map_nil, List.filter_nil, List.append_nil]
  | cons f fs ih =>
    obtain ⟨own, v⟩ := f
    have hown : IsKey own := h.entries.1 (own, v) List.mem_cons_self
    have others : ∀ k ∈ fs.map Prod.fst, lookup? k (insert own (merged (lookup? own base) v) base) =
        lookup? k base := fun k hk => by
      rw [lookup?_insert hown, if_neg (by rw [h.eqv_head k hk]; decide)]
    rw [deepMerge, ih h.tail, keys_insert, List.map_cons, List.filter_cons,
      List.filter_congr fun k hk => by rw [others k hk]]
    cases lookup? own base with
    | none => simp
    | some w => simp

/-! ### Keys of what is merged -/

mutual

theorem keyed_merged : ∀ {new : Value} {old : Option Value}, Keyed new →
    (∀ v, old = some v → Keyed v) → Keyed (merged old new)
  | .dict new, Option.none, hn, _ => hn
  | .dict new, some old, hn, ho => by
    cases hm : old.isMapping with
    | false => rwa [merged_over hm]
    | true =>
      obtain ⟨es, rfl⟩ := isMapping_iff.mp hm
      exact keyed_deepMerge hn (ho _ rfl)
  | .none, _, hn, _ | .bool _, _, hn, _ | .int _, _, hn, _ | .float _, _, hn, _
  | .str _, _, hn, _ | .markup _, _, hn, _ | .list _, _, hn, _ | .tuple _, _, hn, _
  | .set _, _, hn, _ | .undefined .., _, hn, _ | .position .., _, hn, _ | .row .., _, hn, _
  | .range .., _, hn, _ | .cell _, _, hn, _ | .view .., _, hn, _ | .function _, _, hn, _
  | .method .., _, hn, _ | .type _, _, hn, _ | .block .., _, hn, _ | .self, _, hn, _ => hn

theorem keyed_deepMerge : ∀ {new base : List (Value × Value)}, Keyed (.dict new) →
    Keyed (.dict base) → Keyed (.dict (deepMerge base new))
  | [], _, _, hb => by rwa [deepMerge]
  | (k, v) :: new, base, hn, hb => by
    obtain ⟨keys, -, values⟩ := hn.entries
    rw [deepMerge]
    have value : Keyed (merged (lookup? k base) v) :=
      keyed_merged (values (k, v) List.mem_cons_self) fun w found => hb.lookup? found
    exact keyed_deepMerge hn.tail (hb.insert (keys (k, v) List.mem_cons_self) value)

end

/-! ### Paths -/

/-- What a path of keys leads to. -/
def at? : Value → List Value → Option Value
  | v, [] => some v
  | .dict es, k :: ks => (lookup? k es).bind fun w => at? w ks
  | _, _ :: _ => Option.none

/-- A value has nothing at a path, and nothing but mappings on the way. -/
def LeavesFree (v : Value) (p : List Value) : Prop :=
  at? v p = Option.none ∧ ∀ q, q <+: p → q ≠ p → ∀ w, at? v q = some w → w.isMapping = true

variable {ks p : List Value}

theorem at?_nil (v : Value) : at? v [] = some v := by
  rw [at?]

theorem at?_cons : at? (.dict es) (k :: ks) = (lookup? k es).bind fun w => at? w ks := by
  rw [at?]

theorem at?_below (h : v.isMapping = false) : at? v (k :: ks) = Option.none := by
  cases v with
  | dict es => cases h
  | _ => rfl

theorem not_leavesFree_nil (v : Value) : ¬ LeavesFree v [] := fun h => by
  rw [LeavesFree, at?_nil] at h
  cases h.1

theorem not_leavesFree_below (h : v.isMapping = false) : ¬ LeavesFree v (k :: ks) := fun free => by
  have whole := free.2 [] List.nil_prefix (by simp) v (at?_nil v)
  rw [h] at whole
  cases whole

theorem leavesFree_cons :
    LeavesFree (.dict es) (k :: ks) ↔ ∀ w, lookup? k es = some w → LeavesFree w ks := by
  constructor
  · rintro ⟨nothing, mappings⟩ w found
    rw [at?_cons, found, Option.bind_some] at nothing
    refine ⟨nothing, fun q hq shorter u hu => mappings (k :: q) ?_ ?_ u ?_⟩
    · exact List.cons_prefix_cons.mpr ⟨rfl, hq⟩
    · exact fun same => shorter (List.cons.inj same).2
    · rw [at?_cons, found, Option.bind_some, hu]
  · intro h
    refine ⟨?_, fun q hq shorter u hu => ?_⟩
    · rw [at?_cons]
      exact Option.bind_eq_none_iff.mpr fun w found => (h w found).1
    · cases q with
      | nil =>
        rw [at?_nil] at hu
        exact Option.some.inj hu ▸ rfl
      | cons j q =>
        obtain ⟨rfl, below⟩ := List.cons_prefix_cons.mp hq
        rw [at?_cons] at hu
        obtain ⟨w, found, hw⟩ := Option.bind_eq_some_iff.mp hu
        exact (h w found).2 q below (fun same => shorter (by rw [same])) u hw

/-- **What is not a mapping, in what is merged**: it is new, or it was there and was left alone. -/
theorem at?_merged (hn : Keyed new) (hv : v.isMapping = false) :
    at? (merged (some old) new) p = some v ↔
      at? new p = some v ∨ at? old p = some v ∧ LeavesFree new p := by
  induction p generalizing old new with
  | nil =>
    simp only [not_leavesFree_nil, and_false, or_false]
    cases hm : new.isMapping with
    | false => rw [merged_of_not_mapping hm]
    | true =>
      have other : ∀ {u : Value}, u.isMapping = true → at? u [] ≠ some v := fun hu e => by
        rw [at?_nil] at e
        rw [Option.some.inj e, hv] at hu
        cases hu
      exact iff_of_false (other ((isMapping_merged _ _).trans hm)) (other hm)
  | cons k ks ih =>
    cases hm : new.isMapping with
    | false =>
      rw [merged_of_not_mapping hm]
      simp only [not_leavesFree_below hm, and_false, or_false]
    | true =>
      obtain ⟨fs, rfl⟩ := isMapping_iff.mp hm
      cases ho : old.isMapping with
      | false =>
        rw [merged_over ho, at?_below ho]
        simp
      | true =>
        obtain ⟨es, rfl⟩ := isMapping_iff.mp ho
        rw [merged, at?_cons, at?_cons, at?_cons, lookup?_deepMerge k hn, leavesFree_cons]
        cases newer : lookup? k fs with
        | none => simp
        | some w =>
          cases older : lookup? k es with
          | none => simp [merged_none]
          | some u => simpa using ih (hn.lookup? newer)

/-- **Where both are mappings, so is what is merged**, and the new keys come last. -/
theorem at?_merged_mappings (hn : Keyed new) (older : at? old p = some (.dict es))
    (newer : at? new p = some (.dict fs)) :
    ∃ ms, at? (merged (some old) new) p = some (.dict ms) ∧
      ms.map Prod.fst =
        es.map Prod.fst ++ (fs.map Prod.fst).filter fun k => (lookup? k es).isNone := by
  induction p generalizing old new with
  | nil =>
    rw [at?_nil] at older newer
    obtain rfl := Option.some.inj older
    obtain rfl := Option.some.inj newer
    exact ⟨deepMerge es fs, by rw [merged, at?_nil], keys_deepMerge hn⟩
  | cons k ks ih =>
    cases old with
    | dict es' =>
      cases new with
      | dict fs' =>
        rw [at?_cons] at older newer
        obtain ⟨u, hu, older⟩ := Option.bind_eq_some_iff.mp older
        obtain ⟨w, hw, newer⟩ := Option.bind_eq_some_iff.mp newer
        obtain ⟨ms, found, keys⟩ := ih (hn.lookup? hw) older newer
        refine ⟨ms, ?_, keys⟩
        rw [merged, at?_cons, lookup?_deepMerge k hn, hw, hu]
        exact found
      | _ => cases newer
    | _ => cases older

/-- **Merging loses no data.**  The result is a mapping with distinct keys at every level; what is not a
mapping in it is what the second mapping has, and what the first one has where the second one leaves the
path free; and where both have a mapping, the keys of the first one come first, and the new keys of the
second one behind them. -/
theorem deepMerge_spec {a b : List (Value × Value)} (ha : Keyed (.dict a)) (hb : Keyed (.dict b)) :
    Keyed (.dict (deepMerge a b)) ∧
      (∀ p v, v.isMapping = false → (at? (.dict (deepMerge a b)) p = some v ↔
        at? (.dict b) p = some v ∨ at? (.dict a) p = some v ∧ LeavesFree (.dict b) p)) ∧
      ∀ p es fs, at? (.dict a) p = some (.dict es) → at? (.dict b) p = some (.dict fs) →
        ∃ ms, at? (.dict (deepMerge a b)) p = some (.dict ms) ∧
          ms.map Prod.fst =
            es.map Prod.fst ++ (fs.map Prod.fst).filter fun k => (lookup? k es).isNone := by
  have whole : Value.dict (deepMerge a b) = merged (some (.dict a)) (.dict b) := by rw [merged]
  rw [whole]
  refine ⟨?_, fun p v hv => at?_merged hb hv, fun p es fs => at?_merged_mappings hb⟩
  exact whole ▸ keyed_deepMerge hb ha

/-- A mapping takes the place of a number, beside a text that is left alone. -/
theorem deepMerge_spec_site :
    Keyed (.dict [(.str "site", .dict [(.str "name", .str "A"), (.str "year", .int 1)])]) ∧
    Keyed (.dict [(.bool true, .none), (.str "site", .dict [(.str "year", .dict [])])]) ∧
    at? (.dict (deepMerge
        [(.str "site", .dict [(.str "name", .str "A"), (.str "year", .int 1)])]
        [(.bool true, .none), (.str "site", .dict [(.str "year", .dict [])])]))
      [.str "site", .str "name"] = some (.str "A") := by
  have text (t : Text) : Keyed (.str t) := .other rfl
  have below : Keyed (.dict [(.str "name", .str "A"), (.str "year", .int 1)]) :=
    .cons (.str _) (by decide +kernel) (text _) (.cons (.str _) nofun (.other rfl) .nil)
  have first : Keyed (.dict [(.str "site", .dict [(.str "name", .str "A"), (.str "year", .int 1)])]) :=
    .cons (.str _) nofun below .nil
  have second : Keyed (.dict [(.bool true, .none), (.str "site", .dict [(.str "year", .dict [])])]) :=
    .cons (.bool true) (by decide +kernel) (.other rfl)
      (.cons (.str _) nofun (.cons (.str _) nofun .nil .nil) .nil)
  refine ⟨first, second, ((deepMerge_spec first second).2.1 _ _ rfl).mpr (Or.inr ⟨by cbv, ?_⟩)⟩
  refine leavesFree_cons.mpr fun w found => ?_
  obtain rfl : Value.dict [(.str "year", .dict [])] = w := by
    cbv at found
    exact Option.some.inj found
  exact leavesFree_cons.mpr fun w found => by
    cbv at found
    cases found

end Pagewright.Value
