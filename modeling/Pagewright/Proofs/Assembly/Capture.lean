import Pagewright.Proofs.Assembly.Gaps
import Pagewright.Proofs.Assembly.Partner
import Pagewright.Proofs.Assembly.Stack

/-! # Cutting fragments out of any text

A text is read as what stands in front of its first marker of a fragment, and each marker with the
stretch behind it (`MarkedText`).  While fragments are cut out, a stretch is put into the innermost
fragment that is open, so what every open fragment holds is known from the markers alone: `snapshot`
says what is where in front of each marker, `snapshot_step` is one marker and the stretch behind it,
and `run_snapshot` the whole run.  An opening marker that never finds its partner becomes text at the
end, and since everything open inside it becomes text too, this puts the stretches back in their order
(`loose_snapshot`).

Main definitions: `MarkedText`, `marked`, `MarkedText.kept`, `MarkedText.snapshot`. -/

namespace Pagewright.Assembly

open Text Lowering

/-! ### Markers and stretches -/

/-- A text with markers of fragments: what stands in front of the first one, and each marker with what
stands behind it up to the next one. -/
structure MarkedText where
  lead : Text
  rows : List (FragmentMarker × Text)

/-- A text by its markers of fragments. -/
def marked (t : Text) : MarkedText :=
  ⟨(gaps (pieces fragmentMarker? t)).headD [],
    (hits fragmentMarker? t).zip (gaps (pieces fragmentMarker? t)).tail⟩

/-- A marker that has no partner stays. -/
def Stays (ms : List FragmentMarker) (k : Nat) : Prop := partner? ms k = none ∧ ¬ Closed ms k

instance (ms : List FragmentMarker) (k : Nat) : Decidable (Stays ms k) :=
  inferInstanceAs (Decidable (_ ∧ _))

/-- The stretches that belong to `dest`, each with its marker in front if that stays. -/
def gathered (home : Nat → Option Nat) (stays : Nat → Prop) [DecidablePred stays]
    (rows : List (FragmentMarker × Text)) (dest : Option Nat) : Text :=
  rows.zipIdx.flatMap fun ((m, u), k) =>
    if home k = dest then (if stays k then m.shown else []) ++ u else []

namespace MarkedText

variable (d : MarkedText)

/-- A text with its markers as it is written. -/
def shown : Text := d.lead ++ d.rows.flatMap fun (m, u) => m.shown ++ u

def markers : List FragmentMarker := d.rows.map Prod.fst

/-- What belongs to the fragment of an opening marker, or to none, in the order of the text. -/
def kept (dest : Option Nat) : Text :=
  (if dest = none then d.lead else []) ++ gathered (home? d.markers) (Stays d.markers) d.rows dest

/-- The fragments of the opening markers with a partner, in the order in which they open. -/
def fragments : List Fragment :=
  (d.markers.zipIdx.filter fun (_, i) => Closed d.markers i).map fun (o, i) =>
    ⟨o.prepended, o.name, some (d.kept (some i))⟩

end MarkedText

/-- The markers and the stretches between them are the whole text. -/
theorem shown_marked (t : Text) : (marked t).shown = t := by
  have recites : Recites fragmentMarker? FragmentMarker.shown :=
    ⟨FragmentMarker.shown_ne_nil, eq_of_fragmentMarker?⟩
  have whole := weave_piecesFrom recites 0 t
  have count := length_gaps (pieces fragmentMarker? t)
  rw [← pieces, ← hits_eq] at whole
  rw [← hits_eq] at count
  unfold marked MarkedText.shown
  obtain ⟨g, gs, e⟩ := List.exists_cons_of_ne_nil (gaps_ne_nil (pieces fragmentMarker? t))
  rw [e] at whole count ⊢
  rw [weave_cons g (by simpa using (Nat.succ.inj count).symm), List.zip_map_left,
    List.flatMap_map] at whole
  exact whole

/-! ### Openings -/

section Openings

variable (ms : List FragmentMarker)

/-- The opening markers among the first markers, with their numbers. -/
def openings (k : Nat) : List (FragmentMarker × Nat) :=
  (ms.take k).zipIdx.filter fun p => !p.1.closing

variable {ms}

theorem openings_succ {k : Nat} {m : FragmentMarker} (h : ms[k]? = some m) :
    openings ms (k + 1) = openings ms k ++ if m.closing then [] else [(m, k)] := by
  obtain ⟨hk, rfl⟩ := List.getElem?_eq_some_iff.mp h
  unfold openings
  rw [List.take_succ_eq_append_getElem hk, List.zipIdx_append, List.filter_append]
  cases h : ms[k].closing <;> simp [Nat.min_eq_left (Nat.le_of_lt hk), h]

theorem mem_openings_iff {k i : Nat} {o : FragmentMarker} :
    (o, i) ∈ openings ms k ↔ i < k ∧ ms[i]? = some o ∧ o.closing = false := by
  unfold openings
  rw [List.mem_filter, List.mem_zipIdx_iff_getElem?, List.getElem?_take]
  by_cases hi : i < k <;> simp [hi]

/-- As many openings stand in front of an opening as its place says. -/
theorem length_openings {k j i : Nat} {o : FragmentMarker} (h : (openings ms k)[j]? = some (o, i)) :
    (openings ms i).length = j := by
  induction k with
  | zero => cases h
  | succ k ih =>
    cases hm : ms[k]? with
    | none =>
      have short := List.getElem?_eq_none_iff.mp hm
      unfold openings at h ih
      rw [List.take_of_length_le (Nat.le_succ_of_le short)] at h
      rw [List.take_of_length_le short] at ih
      exact ih h
    | some m =>
      rw [openings_succ hm] at h
      rw [List.getElem?_append] at h
      split at h
      · exact ih h
      · next beyond =>
        cases hc : m.closing with
        | true =>
          rw [hc, if_pos rfl] at h
          cases h
        | false =>
          rw [hc, if_neg Bool.false_ne_true, List.getElem?_singleton] at h
          split at h
          · next last =>
            obtain ⟨-, rfl⟩ := Prod.mk.inj (Option.some.inj h)
            exact Nat.le_antisymm (Nat.le_of_not_lt beyond) (Nat.le_of_sub_eq_zero last)
          · cases h

end Openings

/-! ### What is where -/

section Gathering

variable {home : Nat → Option Nat} {stays : Nat → Prop} [DecidablePred stays]

theorem gathered_take_succ {rows : List (FragmentMarker × Text)} {k : Nat} {m : FragmentMarker}
    {u : Text} (h : rows[k]? = some (m, u)) (dest : Option Nat) :
    gathered home stays (rows.take (k + 1)) dest = gathered home stays (rows.take k) dest ++
      if home k = dest then (if stays k then m.shown else []) ++ u else [] := by
  obtain ⟨hk, e⟩ := List.getElem?_eq_some_iff.mp h
  unfold gathered
  rw [List.take_succ_eq_append_getElem hk, List.zipIdx_append, List.flatMap_append, e]
  simp [Nat.min_eq_left (Nat.le_of_lt hk)]

/-- Nothing belongs to a fragment before it opens. -/
theorem gathered_take_eq_nil {rows : List (FragmentMarker × Text)} {k : Nat} {dest : Option Nat}
    (h : ∀ r < k, home r ≠ dest) : gathered home stays (rows.take k) dest = [] := by
  unfold gathered
  rw [List.flatMap_eq_nil_iff]
  rintro ⟨⟨m, u⟩, r⟩ hr
  have lt : r < k := by
    obtain ⟨lt, -⟩ := List.getElem?_eq_some_iff.mp (List.mem_zipIdx_iff_getElem?.mp hr)
    exact Nat.lt_of_lt_of_le lt (List.length_take_le k rows)
  exact if_neg (h r lt)

/-- Two ways to gather agree on a destination to which the same stretches belong with the same
markers. -/
theorem gathered_congr {home' : Nat → Option Nat} {stays' : Nat → Prop} [DecidablePred stays']
    {rows : List (FragmentMarker × Text)} {dest : Option Nat}
    (same : ∀ r < rows.length, home r = dest ↔ home' r = dest)
    (also : ∀ r < rows.length, home r = dest → (stays r ↔ stays' r)) :
    gathered home stays rows dest = gathered home' stays' rows dest := by
  unfold gathered
  refine List.flatMap_congr ?_
  rintro ⟨⟨m, u⟩, r⟩ hr
  have lt : r < rows.length :=
    (List.getElem?_eq_some_iff.mp (List.mem_zipIdx_iff_getElem?.mp hr)).1
  by_cases h : home r = dest
  · simp only [if_pos h, if_pos ((same r lt).mp h), also r lt h]
  · simp only [if_neg h, if_neg (mt (same r lt).mpr h)]

end Gathering

/-- The innermost opening marker that is open behind marker number `k`. -/
def top? (ms : List FragmentMarker) (k : Nat) : Option Nat := (opened ms (k + 1)).head?.map Prod.snd

/-- A closing marker without a partner. -/
def Stray (ms : List FragmentMarker) (k : Nat) : Prop :=
  partner? ms k = none ∧ ms[k]?.any FragmentMarker.closing = true

instance (ms : List FragmentMarker) (k : Nat) : Decidable (Stray ms k) :=
  inferInstanceAs (Decidable (_ ∧ _))

namespace Capture

variable (ms : List FragmentMarker)

/-- What is where when fragments are cut out: outside, in the fragments that are open, and in those
that were closed. -/
def placed (there : Option Nat → Text) (os begun : List (FragmentMarker × Nat)) : Capture where
  outside := there none
  opened := os.map fun p => ⟨p.1, (openings ms p.2).length, there (some p.2)⟩
  fragments := begun.map fun p =>
    ⟨p.1.prepended, p.1.name, if p.2 ∈ os.map Prod.snd then none else some (there (some p.2))⟩

/-- Text put behind what is there, at the innermost place. -/
def extended (there : Option Nat → Text) (os : List (FragmentMarker × Nat)) (u : Text)
    (dest : Option Nat) : Text :=
  there dest ++ if os.head?.map Prod.snd = dest then u else []

variable {ms} {there : Option Nat → Text} {os begun : List (FragmentMarker × Nat)}

theorem extended_self (there : Option Nat → Text) (os : List (FragmentMarker × Nat)) (u : Text) :
    extended there os u (os.head?.map Prod.snd) = there (os.head?.map Prod.snd) ++ u := by
  rw [extended, if_pos rfl]

theorem extended_of_ne (there : Option Nat → Text) (os : List (FragmentMarker × Nat))
    {dest : Option Nat} (h : os.head?.map Prod.snd ≠ dest) (u : Text) :
    extended there os u dest = there dest := by
  rw [extended, if_neg h, List.append_nil]

theorem placed_write (sorted : os.Pairwise fun p q => q.2 < p.2) (u : Text) :
    (placed ms there os begun).write u = placed ms (extended there os u) os begun := by
  cases os with
  | nil =>
    have inside : placed ms (extended there [] u) [] begun =
        { placed ms there [] begun with outside := there none ++ u } := by
      simp [placed, extended]
    rw [inside]
    rfl
  | cons p rest =>
    obtain ⟨o, i⟩ := p
    have deeper : ∀ p ∈ rest, some i ≠ some p.2 := fun p hp e =>
      Nat.lt_irrefl i (Option.some.inj e ▸ (List.pairwise_cons.mp sorted).1 p hp)
    have top : extended there ((o, i) :: rest) u (some i) = there (some i) ++ u :=
      extended_self there ((o, i) :: rest) u
    have other : ∀ dest, some i ≠ dest → extended there ((o, i) :: rest) u dest = there dest :=
      fun _ h => extended_of_ne there ((o, i) :: rest) h u
    unfold placed write
    rw [List.map_cons]
    simp only [Capture.mk.injEq]
    refine ⟨(other none (Option.some_ne_none i)).symm, ?_, ?_⟩
    · rw [List.map_cons, top]
      refine congrArg (_ :: ·) (List.map_congr_left fun p hp => ?_)
      rw [other _ (deeper p hp)]
    · refine List.map_congr_left fun p _ => ?_
      by_cases h : p.2 ∈ ((o, i) :: rest).map Prod.snd
      · rw [if_pos h, if_pos h]
      · have ne : some i ≠ some p.2 := fun e => h (Option.some.inj e ▸ List.mem_cons_self)
        rw [if_neg h, if_neg h, other _ ne]

/-- A closing marker with a partner closes the innermost fragment. -/
theorem placed_pop {k : Nat} {m o : FragmentMarker} {i : Nat} (closing : m.closing = true)
    (agree : o.Agrees m) (sorted : ((o, i) :: os).Pairwise fun p q => q.2 < p.2)
    (mem : (o, i) ∈ openings ms k) :
    (placed ms there ((o, i) :: os) (openings ms k)).mark m = placed ms there os (openings ms k) := by
  have gone : i ∉ os.map Prod.snd := by
    rw [List.mem_map]
    rintro ⟨p, hp, rfl⟩
    exact Nat.lt_irrefl _ ((List.pairwise_cons.mp sorted).1 p hp)
  have filed : (placed ms there ((o, i) :: os) (openings ms k)).fragments.modify
      (openings ms i).length (fun g => { g with content := some (there (some i)) }) =
        (placed ms there os (openings ms k)).fragments := by
    obtain ⟨j, hj⟩ := List.getElem?_of_mem mem
    have number := length_openings hj
    refine List.ext_getElem? fun j' => ?_
    unfold placed
    rw [List.getElem?_modify, List.getElem?_map, List.getElem?_map, number]
    cases h : (openings ms k)[j']? with
    | none => split <;> rfl
    | some p =>
      obtain ⟨o', i'⟩ := p
      by_cases e : j = j'
      · obtain ⟨rfl, rfl⟩ := Prod.mk.inj (Option.some.inj (hj.symm.trans (e ▸ h)))
        simp [e, gone]
      · have other : i' ≠ i := fun e' => e (number.symm.trans (e' ▸ length_openings h))
        have same : i' ∈ ((o, i) :: os).map Prod.snd ↔ i' ∈ os.map Prod.snd := by
          rw [List.map_cons, List.mem_cons, or_iff_right other]
        simp only [Option.map_some, if_neg e, if_congr same rfl rfl]
        rfl
  unfold mark
  rw [if_pos closing]
  exact (if_pos agree).trans (congrArg (Capture.mk _ _) filed)

/-- A closing marker without a partner is text. -/
theorem placed_stray {m : FragmentMarker} (closing : m.closing = true)
    (other : ∀ p ∈ os.head?, ¬ p.1.Agrees m) :
    (placed ms there os begun).mark m = (placed ms there os begun).write m.shown := by
  unfold mark
  rw [if_pos closing]
  cases os with
  | nil => rfl
  | cons p rest => exact if_neg (other p rfl)

/-- An opening marker opens a fragment. -/
theorem placed_push {k : Nat} {m : FragmentMarker} (opening : m.closing = false)
    (fresh : there (some k) = []) :
    (placed ms there os (openings ms k)).mark m =
      placed ms there ((m, k) :: os) (openings ms k ++ [(m, k)]) := by
  have filed : ∀ p ∈ openings ms k, (p.2 ∈ ((m, k) :: os).map Prod.snd ↔ p.2 ∈ os.map Prod.snd) := by
    intro p hp
    have lt := (mem_openings_iff.mp hp).1
    rw [List.map_cons, List.mem_cons, or_iff_right (Nat.ne_of_lt lt)]
  unfold mark
  rw [if_neg (by rw [opening]; exact Bool.false_ne_true)]
  unfold placed
  rw [List.map_cons, List.map_append, List.length_map, fresh]
  congr 1
  refine congr (congrArg _ (List.map_congr_left fun p hp => ?_)) ?_
  · rw [if_congr (filed p hp) rfl rfl]
  · simp

end Capture

namespace MarkedText

variable (d : MarkedText)

/-- What is in a fragment that is open in front of marker number `k`, or outside. -/
def behind (k : Nat) (dest : Option Nat) : Text :=
  (if dest = none then d.lead else []) ++
    gathered (top? d.markers) (Stray d.markers) (d.rows.take k) dest

/-- What is where in front of marker number `k`. -/
def snapshot (k : Nat) : Capture :=
  Capture.placed d.markers (d.behind k) (opened d.markers k) (openings d.markers k)

variable {d}

theorem getElem?_markers {k : Nat} {m : FragmentMarker} {u : Text} (h : d.rows[k]? = some (m, u)) :
    d.markers[k]? = some m := by
  rw [markers, List.getElem?_map, h, Option.map_some]

theorem behind_succ {k : Nat} {m : FragmentMarker} {u : Text} (h : d.rows[k]? = some (m, u)) :
    d.behind (k + 1) = Capture.extended (d.behind k) (opened d.markers (k + 1))
      ((if Stray d.markers k then m.shown else []) ++ u) := by
  funext dest
  rw [behind, gathered_take_succ h, ← List.append_assoc]
  rfl

/-- Nothing is in a fragment that opens with the next marker. -/
theorem behind_fresh (k : Nat) : d.behind k (some k) = [] := by
  rw [behind, if_neg (Option.some_ne_none k), List.nil_append]
  refine gathered_take_eq_nil fun r hr e => ?_
  obtain ⟨p, hp, rfl⟩ := Option.map_eq_some_iff.mp e
  have lt := (opened_sorted d.markers (r + 1)).2 p (List.mem_of_head? hp)
  exact absurd hr (Nat.not_lt_of_le (Nat.le_of_lt_succ lt))

/-- **One marker** and the stretch behind it. -/
theorem snapshot_step {k : Nat} {m : FragmentMarker} {u : Text} (h : d.rows[k]? = some (m, u)) :
    ((d.snapshot k).mark m).write u = d.snapshot (k + 1) := by
  have hm := getElem?_markers h
  have sorted := (opened_sorted d.markers k).1
  have sorted' := (opened_sorted d.markers (k + 1)).1
  unfold snapshot
  rw [behind_succ h, openings_succ hm]
  rcases opened_step d.markers k with
    ⟨o, i, paired, pop⟩ | ⟨free, same, closing⟩ | ⟨free, m', hm', opening, push⟩
  · have closing := closing_of_partner? paired hm
    obtain ⟨m', o', rest, hm', ho, -, agree⟩ := partner?_eq_some_iff.mp paired
    obtain rfl := Option.some.inj (hm.symm.trans hm')
    obtain ⟨rfl, -⟩ := Prod.mk.inj (List.cons.inj (pop.symm.trans ho)).1
    have still := mem_opened_iff.mp (pop ▸ List.mem_cons_self)
    have begun := mem_openings_iff.mpr ⟨still.1, still.2.1, still.2.2.1⟩
    have paired' : ¬ Stray d.markers k := fun stray => by rw [stray.1] at paired; cases paired
    rw [if_pos closing, List.append_nil, if_neg paired', List.nil_append, pop,
      Capture.placed_pop closing agree (pop ▸ sorted) begun, Capture.placed_write sorted']
  · have stray : Stray d.markers k := ⟨free, by rw [hm]; exact closing m hm⟩
    have other : ∀ p ∈ (opened d.markers k).head?, ¬ p.1.Agrees m := by
      intro p hp agree
      have top : opened d.markers k = (p.1, p.2) :: (opened d.markers k).tail :=
        (List.cons_head?_tail hp).symm
      have paired := partner?_eq_some_iff.mpr ⟨m, p.1, _, hm, top, closing m hm, agree⟩
      rw [free] at paired
      cases paired
    rw [if_pos (closing m hm), List.append_nil, if_pos stray, same,
      Capture.placed_stray (closing m hm) other, Capture.write_write, Capture.placed_write sorted]
  · obtain rfl := Option.some.inj (hm.symm.trans hm')
    have opening' : ¬ m.closing = true := by rw [opening]; exact Bool.false_ne_true
    have stray : ¬ Stray d.markers k := fun stray => opening' (by simpa [hm] using stray.2)
    rw [if_neg opening', if_neg stray, List.nil_append,
      Capture.placed_push opening (behind_fresh k), ← push, Capture.placed_write sorted']

theorem snapshot_zero : d.snapshot 0 = ({} : Capture).write d.lead := by
  have outside : d.behind 0 none = d.lead := List.append_nil _
  unfold snapshot
  exact congrArg (Capture.mk · [] []) outside

/-- **The whole run** over the markers and stretches. -/
theorem foldl_rows (d : MarkedText) :
    d.rows.foldl (fun c (m, u) => (c.mark m).write u) (({} : Capture).write d.lead) =
      d.snapshot d.rows.length := by
  have run : ∀ k ≤ d.rows.length, (d.rows.take k).foldl (fun c (m, u) => (c.mark m).write u)
      (({} : Capture).write d.lead) = d.snapshot k := by
    intro k
    induction k with
    | zero => exact fun _ => snapshot_zero.symm
    | succ k ih =>
      intro hk
      rw [List.take_succ_eq_append_getElem hk, List.foldl_append, ih (Nat.le_of_lt hk)]
      exact snapshot_step (List.getElem?_eq_getElem hk)
  have whole := run _ le_rfl
  rwa [List.take_length] at whole

end MarkedText

theorem run_eq_foldl (c : Capture) (ps : List (Piece FragmentMarker)) :
    c.run ps = ((ps.filterMap Piece.value?).zip (gaps ps).tail).foldl
      (fun c (m, u) => (c.mark m).write u) (c.write ((gaps ps).headD [])) := by
  induction ps generalizing c with
  | nil => exact (Capture.write_nil c).symm
  | cons p ps ih =>
    obtain ⟨g, gs, e⟩ := List.exists_cons_of_ne_nil (gaps_ne_nil ps)
    rw [e] at ih
    cases p with
    | char x =>
      rw [Capture.run, ih, Capture.write_write, values_char, gaps, e]
      rfl
    | hit m start stop =>
      have quiet : c.write ((gaps (.hit m start stop :: ps)).headD []) = c := Capture.write_nil c
      rw [quiet, Capture.run, ih, values_hit, gaps, e]
      rfl

theorem run_snapshot (t : Text) :
    Capture.run {} (pieces fragmentMarker? t) = (marked t).snapshot (marked t).rows.length :=
  (run_eq_foldl {} _).trans (marked t).foldl_rows

/-! ### What becomes text again -/

/-- What stands outside, with those opening markers that never find a partner and what is in their
fragments. -/
def loose (ms : List FragmentMarker) (there : Option Nat → Text) (os : List (FragmentMarker × Nat)) :
    Text :=
  there none ++ (os.filter fun p => ¬ Closed ms p.2).reverse.flatMap fun p =>
    p.1.shown ++ there (some p.2)

section Loose

variable {ms : List FragmentMarker} {there : Option Nat → Text} {os : List (FragmentMarker × Nat)}

theorem loose_closed {o : FragmentMarker} {i : Nat} (h : Closed ms i) :
    loose ms there ((o, i) :: os) = loose ms there os := by
  unfold loose
  rw [List.filter_cons_of_neg (by simpa using h)]

theorem loose_unclosed {o : FragmentMarker} {i : Nat} (h : ¬ Closed ms i) :
    loose ms there ((o, i) :: os) = loose ms there os ++ (o.shown ++ there (some i)) := by
  unfold loose
  rw [List.filter_cons_of_pos (by simpa using h), List.reverse_cons, List.flatMap_append,
    List.flatMap_singleton, List.append_assoc]

theorem loose_congr {there' : Option Nat → Text} (outside : there none = there' none)
    (inside : ∀ p ∈ os, there (some p.2) = there' (some p.2)) :
    loose ms there os = loose ms there' os := by
  unfold loose
  rw [outside]
  refine congrArg _ (List.flatMap_congr fun p hp => ?_)
  rw [inside p (List.mem_of_mem_filter (List.mem_reverse.mp hp))]

/-- Text is put behind all that will be text again, unless it is put into a fragment that will be
closed. -/
theorem loose_extended (sorted : os.Pairwise fun p q => q.2 < p.2) (u : Text) :
    loose ms (Capture.extended there os u) os =
      loose ms there os ++ if (os.head?.map Prod.snd).filter (Closed ms ·) = none then u else [] := by
  cases os with
  | nil => simp [loose, Capture.extended]
  | cons p rest =>
    obtain ⟨o, i⟩ := p
    have top : Capture.extended there ((o, i) :: rest) u (some i) = there (some i) ++ u :=
      Capture.extended_self there ((o, i) :: rest) u
    have other : ∀ dest, some i ≠ dest → Capture.extended there ((o, i) :: rest) u dest = there dest :=
      fun _ h => Capture.extended_of_ne there ((o, i) :: rest) h u
    rw [List.head?_cons, Option.map_some]
    have outer : ∀ p ∈ rest, p.2 < i := (List.pairwise_cons.mp sorted).1
    have deeper : loose ms (Capture.extended there ((o, i) :: rest) u) rest = loose ms there rest :=
      loose_congr (other none (Option.some_ne_none i)) fun p hp => other _ fun e =>
        Nat.ne_of_gt (outer p hp) (Option.some.inj e)
    by_cases h : Closed ms i
    · have kept : (some i).filter (Closed ms ·) = some i := Option.filter_some_pos (by simpa using h)
      rw [loose_closed h, loose_closed h, deeper, kept, if_neg (Option.some_ne_none i), List.append_nil]
    · have gone : (some i).filter (Closed ms ·) = none := Option.filter_some_neg (by simpa using h)
      rw [loose_unclosed h, loose_unclosed h, deeper, gone, if_pos rfl, top]
      simp only [List.append_assoc]

end Loose

namespace MarkedText

variable {d : MarkedText}

theorem length_markers (d : MarkedText) : d.markers.length = d.rows.length := List.length_map _

/-- What will be text again in front of a marker is what belongs to no fragment up to there, in the
order of the text. -/
theorem loose_snapshot {k : Nat} (hk : k ≤ d.rows.length) :
    loose d.markers (d.behind k) (opened d.markers k) =
      d.lead ++ gathered (home? d.markers) (Stays d.markers) (d.rows.take k) none := by
  induction k with
  | zero => exact List.append_nil _
  | succ k ih =>
    obtain ⟨⟨m, u⟩, h⟩ : ∃ row, d.rows[k]? = some row := ⟨_, List.getElem?_eq_getElem hk⟩
    have hm := getElem?_markers h
    rw [behind_succ h, loose_extended (opened_sorted _ (k + 1)).1, ← home?_eq, gathered_take_succ h,
      ← List.append_assoc, ← ih (Nat.le_of_lt hk)]
    rcases opened_step d.markers k with
      ⟨o, i, paired, pop⟩ | ⟨free, same, closing⟩ | ⟨free, m', hm', opening, push⟩
    · have closed : Closed d.markers i := by
        refine ⟨k, ?_, paired⟩
        rw [length_markers]
        exact hk
      have free : partner? d.markers k ≠ none := by rw [paired]; exact Option.some_ne_none i
      have stray : ¬ Stray d.markers k := fun s => free s.1
      have stays : ¬ Stays d.markers k := fun s => free s.1
      rw [pop, loose_closed closed, if_neg stray, if_neg stays]
    · have stray : Stray d.markers k := ⟨free, by rw [hm]; exact closing m hm⟩
      have stays : Stays d.markers k := ⟨free, not_closed_of_closing hm (closing m hm)⟩
      rw [same, if_pos stray, if_pos stays]
    · obtain rfl := Option.some.inj (hm.symm.trans hm')
      have stray : ¬ Stray d.markers k := by
        rintro ⟨-, closing⟩
        rw [hm, Option.any_some, opening] at closing
        exact Bool.false_ne_true closing
      have home := home?_eq d.markers k
      rw [push, List.head?_cons, Option.map_some] at home
      rw [push, if_neg stray, List.nil_append]
      by_cases closed : Closed d.markers k
      · rw [Option.filter_some_pos (by simpa using closed)] at home
        rw [loose_closed closed, home, if_neg (Option.some_ne_none k), if_neg (Option.some_ne_none k)]
      · have stays : Stays d.markers k := ⟨free, closed⟩
        rw [Option.filter_some_neg (by simpa using closed)] at home
        rw [loose_unclosed closed, home, if_pos rfl, if_pos rfl, if_pos stays, behind_fresh]
        simp only [List.append_nil, List.append_assoc]

/-- What is in a fragment that is closed at last is what belongs to it. -/
theorem behind_of_closed {i : Nat} (closed : Closed d.markers i) :
    d.behind d.rows.length (some i) = d.kept (some i) := by
  rw [behind, kept, List.take_length]
  refine congrArg _ (gathered_congr (fun k _ => ?_) fun k hk home => ?_)
  · rw [home?_eq, Option.filter_eq_some_iff, and_iff_left (by simpa using closed)]
    rfl
  · obtain ⟨m, hm⟩ : ∃ m, d.markers[k]? = some m :=
      ⟨_, List.getElem?_eq_getElem (by rw [length_markers]; exact hk)⟩
    unfold Stray Stays
    rw [hm, Option.any_some]
    refine and_congr_right fun free => ⟨not_closed_of_closing hm, fun unclosed => ?_⟩
    -- An opening marker would be the innermost one behind itself, and so be closed.
    by_contra opening
    rw [Bool.not_eq_true] at opening
    have next := opened_succ hm
    unfold settle at next
    rw [opening, if_neg Bool.false_ne_true] at next
    rw [top?, next] at home
    obtain rfl : k = i := Option.some.inj home
    exact unclosed closed

theorem remainder_snapshot (d : MarkedText) : (d.snapshot d.rows.length).remainder = d.kept none := by
  have unclosed : (opened d.markers d.rows.length).filter (fun p => ¬ Closed d.markers p.2) =
      opened d.markers d.rows.length := by
    refine List.filter_eq_self.mpr fun ⟨o, i⟩ hp => ?_
    have still := mem_opened_iff.mp hp
    rw [← length_markers] at still
    rw [decide_eq_true_iff, closed_iff_not_stillOpen still.2.1 still.2.2.1, not_not]
    exact still
  have whole := loose_snapshot (d := d) le_rfl
  rw [List.take_length, loose, unclosed] at whole
  unfold kept
  rw [if_pos rfl, ← whole, snapshot, Capture.remainder, Capture.placed, ← List.map_reverse,
    List.flatMap_map]

theorem fragments_snapshot (d : MarkedText) :
    (d.snapshot d.rows.length).fragments.filter (fun f => f.content.isSome) = d.fragments := by
  have among : openings d.markers d.rows.length = d.markers.zipIdx.filter fun p => !p.1.closing := by
    rw [openings, ← length_markers, List.take_length]
  have closed : ∀ p ∈ d.markers.zipIdx, ((p.2 ∉ (opened d.markers d.rows.length).map Prod.snd) ∧
      p.1.closing = false ↔ Closed d.markers p.2) := by
    rintro ⟨o, i⟩ hp
    have ho := List.mem_zipIdx_iff_getElem?.mp hp
    rw [mem_map_opened_iff ho, ← length_markers]
    constructor
    · exact fun ⟨never, opening⟩ => (closed_iff_not_stillOpen ho opening).mpr never
    · intro closed
      obtain ⟨o', ho', opening⟩ := opening_of_closed closed
      obtain rfl := Option.some.inj (ho.symm.trans ho')
      exact ⟨(closed_iff_not_stillOpen ho opening).mp closed, opening⟩
  have kept : ∀ p ∈ d.markers.zipIdx, (((if p.2 ∈ (opened d.markers d.rows.length).map Prod.snd
      then none else some (d.behind d.rows.length (some p.2))).isSome && !p.1.closing) =
        decide (Closed d.markers p.2)) := by
    intro p hp
    rw [Bool.eq_iff_iff, decide_eq_true_iff, ← closed p hp, Bool.and_eq_true, Bool.not_eq_true']
    refine and_congr_left' ?_
    split
    · next still => exact iff_of_false Bool.false_ne_true (not_not.mpr still)
    · next still => exact iff_of_true rfl still
  unfold snapshot Capture.placed fragments
  rw [among, List.filter_map, List.filter_filter]
  simp only [Function.comp_def]
  rw [List.filter_congr kept]
  refine List.map_congr_left fun p hp => ?_
  have done := of_decide_eq_true (List.mem_filter.mp hp).2
  rw [if_neg ((closed p (List.mem_of_mem_filter hp)).mpr done).1, behind_of_closed done]

/-- **What is cut out of any text**, and what is left of it. -/
theorem capture_marked (t : Text) : capture t = ((marked t).kept none, (marked t).fragments) := by
  unfold capture
  rw [run_snapshot]
  exact Prod.ext (remainder_snapshot _) (fragments_snapshot _)

end MarkedText

/-! ### Any text -/

/-- **Nothing is lost and nothing doubled** when fragments are cut out of a text, whatever markers stand
in it.  The text is its markers and the stretches between them.  A closing marker has the innermost
opening marker that is still open as its partner, if they agree, and no partner otherwise.  What
stands between partners, and not between others inside, is the fragment of the opening one; all else
is what is left; both in the order of the text, and with the markers that have no partner where they
stand.  There is one fragment for each two partners, of their kind and for their stack. -/
theorem capture_partners (t : Text) :
    (marked t).shown = t ∧
      capture t = ((marked t).kept none, (marked t).fragments) ∧
      (∀ j i, partner? (marked t).markers j = some i ↔
        ∃ m o, (marked t).markers[j]? = some m ∧ m.closing = true ∧ o.Agrees m ∧
          StillOpen (marked t).markers j o i ∧
            ∀ o' i', StillOpen (marked t).markers j o' i' → i' ≤ i) ∧
      (∀ k i, home? (marked t).markers k = some i → Closed (marked t).markers i) ∧
      ∀ prepended name,
        ((marked t).fragments.countP fun f => f.prepended = prepended ∧ f.name = name) =
          (marked t).markers.zipIdx.countP fun (m, j) => (partner? (marked t).markers j).isSome ∧
            m.prepended = prepended ∧ m.name = name := by
  refine ⟨shown_marked t, MarkedText.capture_marked t, fun j i => partner?_rule, fun k i home => ?_,
    fun prepended name => ?_⟩
  · exact (around_iff.mp (home?_eq_some_iff.mp home).1).1
  · have shared : ∀ o m : FragmentMarker, o.Agrees m →
        (o.prepended = prepended ∧ o.name = name ↔ m.prepended = prepended ∧ m.name = name) := by
      rintro o m ⟨same, same'⟩
      rw [same, same']
    rw [← countP_closed _ shared, MarkedText.fragments, List.countP_map, List.countP_filter]
    refine List.countP_congr fun p _ => ?_
    simp [and_comm]

example : capture "a<!--hk:push:x-->b<!--hk:endpush:y-->c<!--hk:endpush:x-->d<!--hk:prepend:y-->e" =
    (("ad<!--hk:prepend:y-->e" : Text),
      [⟨false, "x", some ("b<!--hk:endpush:y-->c" : Text)⟩]) := by
  decide +kernel

end Pagewright.Assembly
