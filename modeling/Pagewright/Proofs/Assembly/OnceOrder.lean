import Pagewright.Proofs.Assembly.OncePage

/-! # The order in which once blocks are seen

Once blocks are collected in rounds.  A round keeps and drops the outermost blocks, and what stood
inside a kept block is outermost in the next round (`applyOnceFor_rounds`).  So a block is seen before
all that are nested deeper, also before those that stand further up the page
(`applyOnce_overtaken`).  If of two blocks of one key the first is never the deeper one, then the rounds
come to the same page as one walk over it in document order, with nested blocks treated where they
stand: a round does not change what the walk makes of the page (`inOrder_kept`), and when no blocks
are left the walk has nothing to do (`rounds_inOrder`).

Main definitions: `OncePage.byLevel`, `OncePage.inOrder`, `OncePage.Ordered`. -/

namespace Pagewright.Assembly

open Text Lowering

attribute [local instance] lawfulBEq_text

namespace OncePage

/-- How deep the blocks of a page are nested. -/
def depth : OncePage → Nat
  | text _ => 0
  | block _ _ body rest => max (body.depth + 1) rest.depth

/-- What a number of rounds leave of a page, and the keys that were seen. -/
def rounds : Nat → OncePage → List Text → Text × List Text
  | 0, d, seen => (d.shown, seen)
  | n + 1, d, seen => rounds n (d.kept seen).1 (d.kept seen).2

/-- A page with its blocks kept and dropped level by level, from the outermost blocks on, and the keys
that were seen. -/
def byLevel (d : OncePage) (seen : List Text) : Text × List Text := rounds d.depth d seen

/-- A page with its blocks kept and dropped in document order, those inside a kept block where they
stand, and the keys that were seen. -/
def inOrder : List Text → OncePage → Text × List Text
  | seen, text t => (t, seen)
  | seen, block t key body rest =>
      if key ∈ seen then (t ++ (rest.inOrder seen).1, (rest.inOrder seen).2)
      else
        let inside := body.inOrder (seen ++ [key])
        let after := rest.inOrder inside.2
        (t ++ (inside.1 ++ after.1), after.2)

/-- The keys of the outermost blocks. -/
def tops : OncePage → List Text
  | text _ => []
  | block _ key _ rest => key :: rest.tops

/-- The keys of the blocks in the order in which they open, each with the level that its block stands
at; the outermost blocks stand at level `n`. -/
def levels : Nat → OncePage → List (Text × Nat)
  | _, text _ => []
  | n, block _ key body rest => (key, n) :: (body.levels (n + 1) ++ rest.levels n)

/-- Of two blocks of one key, the first is not the deeper one. -/
def Rising (ks : List (Text × Nat)) : Prop := ks.Pairwise fun a b => a.1 = b.1 → a.2 ≤ b.2

/-- A page on which no block is overtaken by a later one of its key. -/
def Ordered (d : OncePage) : Prop := Rising (d.levels 0)

instance (d : OncePage) : Decidable d.Ordered :=
  inferInstanceAs (Decidable ((d.levels 0).Pairwise fun a b => a.1 = b.1 → a.2 ≤ b.2))

/-! ### A round makes a page shorter and flatter -/

theorem depth_behind (t : Text) (d : OncePage) : (d.behind t).depth = d.depth := by
  cases d <;> rfl

theorem depth_append (d e : OncePage) : (d.append e).depth = max d.depth e.depth := by
  induction d with
  | text t =>
    rw [append, depth_behind]
    simp [depth]
  | block t key body rest ihb ihr =>
    simp only [append, depth, ihr]
    omega

theorem depth_kept (seen : List Text) (d : OncePage) : (d.kept seen).1.depth ≤ d.depth - 1 := by
  induction d generalizing seen with
  | text t => exact Nat.le_refl 0
  | block t key body rest ihb ihr =>
    rw [kept, depth]
    split
    · have := ihr seen
      rw [depth_behind]
      omega
    · have := ihr (seen ++ [key])
      rw [depth_behind, depth_append]
      omega

theorem exists_text_of_depth {d : OncePage} (h : d.depth = 0) : ∃ t, d = text t := by
  cases d with
  | text t => exact ⟨t, rfl⟩
  | block t key body rest =>
    rw [depth] at h
    omega

theorem length_kept (seen : List Text) (d : OncePage) :
    (d.kept seen).1.shown.length ≤ d.shown.length := by
  induction d generalizing seen with
  | text t => exact Nat.le_refl _
  | block t key body rest ihb ihr =>
    rw [kept]
    split
    · have := ihr seen
      simp only [shown_behind, shown, List.length_append]
      omega
    · have := ihr (seen ++ [key])
      simp only [shown_behind, shown_append, shown, List.length_append]
      omega

theorem length_kept_block (seen : List Text) (t key : Text) (body rest : OncePage) :
    ((block t key body rest).kept seen).1.shown.length < (block t key body rest).shown.length := by
  have marked : 0 < (marker "once" key).length := List.length_pos_iff.mpr (marker_ne_nil _ _)
  rw [kept]
  split
  · have := length_kept seen rest
    simp only [shown_behind, shown, List.length_append]
    omega
  · have := length_kept (seen ++ [key]) rest
    simp only [shown_behind, shown_append, shown, List.length_append]
    omega

theorem rounds_text (n : Nat) (t : Text) (seen : List Text) : rounds n (text t) seen = (t, seen) := by
  induction n with
  | zero => rfl
  | succ n ih => exact ih

/-- **The passes over a page are rounds over its blocks.** -/
theorem applyOnceFor_rounds {d : OncePage} (h : d.Sound) (seen : List Text) {fuel n : Nat}
    (long : d.shown.length ≤ fuel) (deep : d.depth ≤ n) :
    applyOnceFor fuel d.shown seen = rounds n d seen := by
  induction fuel generalizing d seen n with
  | zero =>
    have empty : d.shown = [] := List.length_eq_zero_iff.mp (Nat.le_zero.mp long)
    cases d with
    | text t => exact (rounds_text n t seen).symm
    | block t key body rest =>
      have shorter := length_kept_block seen t key body rest
      rw [empty] at shorter
      exact absurd shorter (Nat.not_lt_zero _)
  | succ fuel ih =>
    have pass : keepFirst seen (pieces once? d.shown) = ((d.kept seen).1.shown, (d.kept seen).2) :=
      keepFirst_shown h seen 0
    cases d with
    | text t =>
      have quiet : hits once? t = [] := by
        apply hits_quiet
        intro c v hv
        exact once?_eq_none_of_onceMark? (h.nowhere t List.mem_cons_self _ hv)
      rw [shown, applyOnceFor, quiet, rounds_text]
      rfl
    | block t key body rest =>
      obtain ⟨start, stop, scanned⟩ := piecesFrom_block h 0
      have found : (hits once? (block t key body rest).shown).isEmpty = false := by
        rw [hits_eq, pieces, scanned]
        simp [Piece.value?]
      have shorter := length_kept_block seen t key body rest
      have flatter := depth_kept seen (block t key body rest)
      obtain ⟨m, rfl⟩ : ∃ m, n = m + 1 := by
        refine ⟨n - 1, ?_⟩
        rw [depth] at deep
        omega
      rw [applyOnceFor, found, pass, rounds]
      exact ih (h.kept seen) _ (by omega) (by omega)

/-! ### Levels -/

theorem levels_behind (n : Nat) (t : Text) (d : OncePage) : (d.behind t).levels n = d.levels n := by
  cases d <;> rfl

theorem levels_append (n : Nat) (d e : OncePage) :
    (d.append e).levels n = d.levels n ++ e.levels n := by
  induction d with
  | text t => exact levels_behind n t e
  | block t key body rest ihb ihr =>
    simp only [append, levels, ihr, List.append_assoc, List.cons_append]

/-- A round takes every block that it leaves one level up. -/
theorem levels_kept (n : Nat) (seen : List Text) (d : OncePage) :
    ((d.kept seen).1.levels (n + 1)).Sublist (d.levels n) := by
  induction d generalizing seen with
  | text t => exact List.Sublist.refl _
  | block t key body rest ihb ihr =>
    rw [kept, levels]
    split
    · rw [levels_behind]
      exact ((ihr seen).trans (List.sublist_append_right _ _)).cons _
    · rw [levels_behind, levels_append]
      exact ((List.Sublist.refl _).append (ihr _)).cons _

theorem mem_levels_of_tops {n : Nat} {d : OncePage} {k : Text} (h : k ∈ d.tops) :
    (k, n) ∈ d.levels n := by
  induction d with
  | text t => cases h
  | block t key body rest ihb ihr =>
    rw [levels]
    rcases List.mem_cons.mp h with rfl | h
    · exact List.mem_cons_self
    · exact List.mem_cons_of_mem _ (List.mem_append_right _ (ihr h))

theorem exists_level {n : Nat} {d : OncePage} {k : Text} (h : k ∈ d.keys) :
    ∃ m, n ≤ m ∧ (k, m) ∈ d.levels n := by
  induction d generalizing n with
  | text t => cases h
  | block t key body rest ihb ihr =>
    rw [levels]
    rcases List.mem_cons.mp h with rfl | h
    · exact ⟨n, Nat.le_refl n, List.mem_cons_self⟩
    · rcases List.mem_append.mp h with h | h
      · obtain ⟨m, hm, inside⟩ := ihb (n := n + 1) h
        exact ⟨m, by omega, List.mem_cons_of_mem _ (List.mem_append_left _ inside)⟩
      · obtain ⟨m, hm, after⟩ := ihr (n := n) h
        exact ⟨m, hm, List.mem_cons_of_mem _ (List.mem_append_right _ after)⟩

/-- What stands inside a block does not come back outermost behind it. -/
theorem not_mem_keys_of_rising {n : Nat} {t key : Text} {body rest : OncePage}
    (h : Rising ((block t key body rest).levels n)) : ∀ k ∈ rest.tops, k ∉ body.keys := by
  intro k top inside
  rw [levels] at h
  obtain ⟨m, hm, deep⟩ := exists_level (n := n + 1) inside
  have cross := (List.pairwise_append.mp (List.pairwise_cons.mp h).2).2.2
  have early := cross _ deep _ (mem_levels_of_tops top) rfl
  exact absurd hm (Nat.not_le_of_gt (Nat.lt_succ_of_le early))

/-! ### The walk in document order -/

theorem inOrder_behind (seen : List Text) (t : Text) (d : OncePage) :
    (d.behind t).inOrder seen = (t ++ (d.inOrder seen).1, (d.inOrder seen).2) := by
  cases d with
  | text u => rfl
  | block u key body rest =>
    simp only [behind, inOrder]
    split <;> simp only [List.append_assoc]

theorem inOrder_append (seen : List Text) (d e : OncePage) :
    (d.append e).inOrder seen =
      ((d.inOrder seen).1 ++ (e.inOrder (d.inOrder seen).2).1,
        (e.inOrder (d.inOrder seen).2).2) := by
  induction d generalizing seen with
  | text t => exact inOrder_behind seen t e
  | block t key body rest ihb ihr =>
    simp only [append, inOrder, ihr]
    split <;> simp only [List.append_assoc]

theorem subset_inOrder (seen : List Text) (d : OncePage) : seen ⊆ (d.inOrder seen).2 := by
  induction d generalizing seen with
  | text t => exact List.Subset.refl _
  | block t key body rest ihb ihr =>
    rw [inOrder]
    split
    · exact ihr seen
    · exact List.Subset.trans (List.Subset.trans (List.subset_append_left seen [key]) (ihb _)) (ihr _)

theorem mem_inOrder {seen : List Text} {d : OncePage} {k : Text} (h : k ∈ (d.inOrder seen).2) :
    k ∈ seen ∨ k ∈ d.keys := by
  induction d generalizing seen with
  | text t => exact Or.inl h
  | block t key body rest ihb ihr =>
    simp only [keys, List.mem_cons, List.mem_append]
    rw [inOrder] at h
    split at h
    · rcases ihr h with old | after
      · exact Or.inl old
      · exact Or.inr (Or.inr (Or.inr after))
    · rcases ihr h with early | after
      · rcases ihb early with old | inside
        · rcases List.mem_append.mp old with old | own
          · exact Or.inl old
          · exact Or.inr (Or.inl (List.mem_singleton.mp own))
        · exact Or.inr (Or.inr (Or.inl inside))
      · exact Or.inr (Or.inr (Or.inr after))

theorem append_key_subset {s z : List Text} (h : s ⊆ z) (key : Text) : s ++ [key] ⊆ z ++ [key] :=
  List.append_subset.mpr
    ⟨List.subset_append_of_subset_left _ h, List.subset_append_right z [key]⟩

/-- Keys that no block of a page has do not show in what the walk makes of it. -/
theorem inOrder_extra {d : OncePage} {s z : List Text} (more : s ⊆ z)
    (foreign : ∀ k ∈ d.keys, k ∈ z → k ∈ s) :
    (d.inOrder z).1 = (d.inOrder s).1 ∧
      ∀ k, k ∈ (d.inOrder z).2 ↔ k ∈ z ∨ k ∈ (d.inOrder s).2 := by
  induction d generalizing s z with
  | text t =>
    refine ⟨rfl, fun k => ?_⟩
    constructor
    · exact Or.inl
    · rintro (h | h)
      · exact h
      · exact more h
  | block t key body rest ihb ihr =>
    obtain ⟨own, others⟩ := List.forall_mem_cons.mp foreign
    obtain ⟨inside, after⟩ := List.forall_mem_append.mp others
    rw [inOrder, inOrder]
    by_cases old : key ∈ s
    · rw [if_pos old, if_pos (more old)]
      obtain ⟨same, seen⟩ := ihr more after
      exact ⟨congrArg (t ++ ·) same, seen⟩
    · rw [if_neg old, if_neg (mt own old)]
      obtain ⟨sameBody, seenBody⟩ := ihb (append_key_subset more key) fun k hk hz => by
        rcases List.mem_append.mp hz with hz | hz
        · exact List.mem_append_left _ (inside k hk hz)
        · exact List.mem_append_right _ hz
      have kept := subset_inOrder (s ++ [key]) body
      obtain ⟨sameRest, seenRest⟩ := ihr (fun k hk => (seenBody k).mpr (Or.inr hk))
        fun k hk hz => by
          rcases (seenBody k).mp hz with hz | hz
          · rcases List.mem_append.mp hz with hz | hz
            · exact kept (List.mem_append_left _ (after k hk hz))
            · exact kept (List.mem_append_right _ hz)
          · exact hz
      simp only
      rw [sameBody, sameRest]
      refine ⟨rfl, fun k => ?_⟩
      have later := subset_inOrder (body.inOrder (s ++ [key])).2 rest
      rw [seenRest, seenBody, List.mem_append]
      constructor
      · rintro (((h | h) | h) | h)
        · exact Or.inl h
        · exact Or.inr (later (kept (List.mem_append_right _ h)))
        · exact Or.inr (later h)
        · exact Or.inr h
      · rintro (h | h)
        · exact Or.inl (Or.inl (Or.inl h))
        · exact Or.inr h

theorem mem_kept (seen : List Text) (d : OncePage) (k : Text) :
    k ∈ (d.kept seen).2 ↔ k ∈ seen ∨ k ∈ d.tops := by
  induction d generalizing seen with
  | text t => simp [kept, tops]
  | block t key body rest ihb ihr =>
    rw [kept, tops, List.mem_cons]
    split
    · next old =>
      rw [ihr]
      constructor
      · rintro (h | h)
        · exact Or.inl h
        · exact Or.inr (Or.inr h)
      · rintro (h | rfl | h)
        · exact Or.inl h
        · exact Or.inl old
        · exact Or.inr h
    · rw [ihr, List.mem_append, List.mem_singleton, or_assoc]

/-- **A round does not change what the walk makes of a page**, where no block is overtaken.  The walk has
seen `s` when the round has seen `r`: it knows the keys from inside the blocks already, none of which
is the key of an outermost block further down. -/
theorem inOrder_kept {n : Nat} {d : OncePage} (rising : Rising (d.levels n)) {r s z : List Text}
    (more : r ⊆ s) (known : ∀ k ∈ d.tops, k ∈ s → k ∈ r)
    (hz : ∀ k, k ∈ z ↔ k ∈ s ∨ k ∈ (d.kept r).2) :
    ((d.kept r).1.inOrder z).1 = (d.inOrder s).1 ∧
      ∀ k, k ∈ ((d.kept r).1.inOrder z).2 ↔ k ∈ (d.inOrder s).2 := by
  induction d generalizing r s z with
  | text t =>
    refine ⟨rfl, fun k => (hz k).trans ?_⟩
    constructor
    · rintro (h | h)
      · exact h
      · exact more h
    · exact Or.inl
  | block t key body rest ihb ihr =>
    have apart := not_mem_keys_of_rising rising
    obtain ⟨own, others⟩ := List.forall_mem_cons.mp known
    have behind : Rising (rest.levels n) :=
      (List.pairwise_append.mp (List.pairwise_cons.mp rising).2).2.1
    rw [kept] at hz ⊢
    rw [inOrder]
    by_cases old : key ∈ r
    · rw [if_pos old] at hz ⊢
      rw [if_pos (more old), inOrder_behind]
      obtain ⟨same, seen⟩ := ihr behind more others hz
      exact ⟨congrArg (t ++ ·) same, seen⟩
    · rw [if_neg old] at hz ⊢
      rw [if_neg (mt own old), inOrder_behind, inOrder_append]
      have first := subset_inOrder (s ++ [key]) body
      have later := mem_kept (r ++ [key]) rest
      obtain ⟨sameBody, seenBody⟩ := inOrder_extra (d := body) (s := s ++ [key]) (z := z)
        (fun k hk => by
          rcases List.mem_append.mp hk with hk | hk
          · exact (hz k).mpr (Or.inl hk)
          · exact (hz k).mpr (Or.inr ((later k).mpr (Or.inl (List.mem_append_right _ hk)))))
        (fun k hk hkz => by
          rcases (hz k).mp hkz with hks | hkr
          · exact List.mem_append_left _ hks
          · rcases (later k).mp hkr with hkr | top
            · exact append_key_subset more key hkr
            · exact absurd hk (apart k top))
      obtain ⟨sameRest, seenRest⟩ := ihr behind (r := r ++ [key])
        (s := (body.inOrder (s ++ [key])).2) (z := (body.inOrder z).2)
        (List.Subset.trans (append_key_subset more key) first)
        (fun k top hk => by
          rcases mem_inOrder hk with hk | hk
          · rcases List.mem_append.mp hk with hk | hk
            · exact List.mem_append_left _ (others k top hk)
            · exact List.mem_append_right _ hk
          · exact absurd hk (apart k top))
        (fun k => by
          rw [seenBody, hz]
          constructor
          · rintro ((h | h) | h)
            · exact Or.inl (first (List.mem_append_left _ h))
            · exact Or.inr h
            · exact Or.inl h
          · rintro (h | h)
            · exact Or.inr h
            · exact Or.inl (Or.inr h))
      simp only
      rw [sameBody, sameRest]
      exact ⟨rfl, seenRest⟩

/-- **The rounds come to the page of the walk**, where no block is overtaken. -/
theorem rounds_inOrder {n m : Nat} {d : OncePage} (rising : Rising (d.levels n)) (seen : List Text)
    (deep : d.depth ≤ m) :
    (rounds m d seen).1 = (d.inOrder seen).1 ∧
      ∀ k, k ∈ (rounds m d seen).2 ↔ k ∈ (d.inOrder seen).2 := by
  induction m generalizing d n seen with
  | zero =>
    obtain ⟨t, rfl⟩ := exists_text_of_depth (Nat.le_zero.mp deep)
    exact ⟨rfl, fun k => Iff.rfl⟩
  | succ m ih =>
    have flatter := depth_kept seen d
    have risen : Rising ((d.kept seen).1.levels (n + 1)) := rising.sublist (levels_kept n seen d)
    obtain ⟨same, seen'⟩ := ih risen (d.kept seen).2 (by omega)
    obtain ⟨text, keys⟩ := inOrder_kept rising (r := seen) (s := seen) (z := (d.kept seen).2)
      (List.Subset.refl _) (fun k _ hk => hk) (fun k => by
        rw [mem_kept]
        tauto)
    rw [rounds]
    exact ⟨same.trans text, fun k => (seen' k).trans (keys k)⟩

end OncePage

open OncePage

/-- **Once blocks are kept and dropped level by level.**  That is what the walk in document order does
too, if of two blocks of one key the first is never the deeper one. -/
theorem applyOnce_shown {d : OncePage} (h : d.Sound) (seen : List Text) :
    applyOnce d.shown seen = d.byLevel seen ∧
      (d.Ordered → (applyOnce d.shown seen).1 = (d.inOrder seen).1 ∧
        ∀ k, k ∈ (applyOnce d.shown seen).2 ↔ k ∈ (d.inOrder seen).2) := by
  have levels : applyOnce d.shown seen = d.byLevel seen :=
    applyOnceFor_rounds h seen (Nat.le_refl _) (Nat.le_refl _)
  refine ⟨levels, fun ordered => ?_⟩
  rw [levels]
  exact rounds_inOrder ordered seen (Nat.le_refl _)

/-- A page on which the second block of `b` stands outside, and the first one inside another block. -/
def overtaken : OncePage :=
  .block "" "a" (.block "" "b" (.text "1") (.text "")) (.block "" "b" (.text "2") (.text ""))

/-- A page on which the second block of `b` stands inside another one. -/
def rising : OncePage :=
  .block "<p>" "b" (.text "1") (.block "</p>" "a" (.block "2" "b" (.text "3") (.text "4")) (.text "5"))

/-- The later of two blocks of `b` is kept where it overtakes the first one. -/
theorem applyOnce_overtaken :
    (overtaken.Sound ∧ (applyOnce overtaken.shown []).1 = "2".toList ∧
      (overtaken.inOrder []).1 = "1".toList) ∧
    (rising.Sound ∧ rising.Ordered ∧
      (applyOnce rising.shown []).1 = "<p>1</p>245".toList) := by
  have sound : overtaken.Sound := by decide +kernel
  have later : overtaken.byLevel [] = ("2".toList, ["a".toList, "b".toList]) := by decide +kernel
  have sound' : rising.Sound := by decide +kernel
  have ordered : rising.Ordered := by decide +kernel
  refine ⟨⟨sound, ?_, by decide +kernel⟩, sound', ordered, ?_⟩
  · rw [(applyOnce_shown sound []).1, later]
  · rw [((applyOnce_shown sound' []).2 ordered).1]
    decide +kernel

end Pagewright.Assembly
