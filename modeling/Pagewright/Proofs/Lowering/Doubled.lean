import Pagewright.Proofs.Lowering.Settled

/-! # Doubled at signs

A text of which every at sign is doubled holds no directive (`directives_doubled`), and its
rewriting is the text with every at sign in a raw block of its own (`transform_doubled`).  In
between stands a sentinel for each of them, and two sentinels with certain text between them look
like the placeholder of a region: such text is excluded (`Escapable.unguarded`).

Main definitions: `doubled`, `shielded`, `Escapable`. -/

namespace Pagewright.Lowering

open Text Directive

/-- A text with every at sign doubled. -/
def doubled (t : Text) : Text := replaceAll "@" "@@" t

/-- A text with every at sign in a raw block of its own. -/
def shielded (t : Text) : Text := replaceAll "@" (protect "@") t

/-- A text in which nothing between two at signs reads like the inside of a placeholder. -/
def Unguarded (t : Text) : Prop := ∀ digits : Text, digits ≠ [] →
  (∀ c ∈ digits, isDecimal c = true) → ¬ "@hk:guard:".toList ++ (digits ++ ['@']) <:+: t

theorem unguarded_of_absent {t : Text} (h : ¬ "@hk:guard:".toList <:+: t) : Unguarded t :=
  fun _ _ _ hm => h ((List.prefix_append _ _).isInfix.trans hm)

/-- A text of which the at signs can be escaped: no comment opens in it and no raw tag stands in it, it
can be written, and nothing in it would be taken for a placeholder. -/
structure Escapable (t : Text) : Prop where
  uncommented : ¬ "\x7b\x7b--".toList <:+: t
  untagged : Untagged "raw" t
  visible : '\x00' ∉ t
  unguarded : Unguarded t

/-! ### At signs -/

theorem at_ne_nil : "@".toList ≠ [] := by decide

theorem replaceAll_at (new r : Text) :
    replaceAll "@" new ('@' :: r) = new ++ replaceAll "@" new r := replaceAll_hit at_ne_nil new r

theorem replaceAll_other (new : Text) {c : Char} (h : c ≠ '@') (r : Text) :
    replaceAll "@" new (c :: r) = c :: replaceAll "@" new r :=
  replaceAll_char at_ne_nil new fun hp => h (List.cons_prefix_cons.mp hp).1.symm

theorem replaceAll_before (new r : Text) : ∀ {u : Text}, '@' ∉ u →
    replaceAll "@" new (u ++ r) = u ++ replaceAll "@" new r
  | [], _ => rfl
  | c :: u, h => by
      have hc : c ≠ '@' := fun e => h (e ▸ List.mem_cons_self)
      rw [List.cons_append, replaceAll_other new hc,
        replaceAll_before new r fun hm => h (List.mem_cons_of_mem c hm), List.cons_append]

theorem length_replaceAll_at (new : Text) : ∀ t : Text,
    (replaceAll "@" new t).length + t.count '@' = t.length + t.count '@' * new.length
  | [] => by rw [replaceAll_nil at_ne_nil, List.count_nil, Nat.zero_mul]
  | c :: t => by
      have ih := length_replaceAll_at new t
      by_cases hc : c = '@'
      · subst hc
        rw [replaceAll_at, List.length_append, List.count_cons_self, List.length_cons, Nat.succ_mul]
        omega
      · rw [replaceAll_other new hc, List.length_cons, List.count_cons_of_ne hc, List.length_cons]
        omega

/-- Only a text without at signs is left as it is. -/
theorem shielded_eq_self_iff {t : Text} : shielded t = t ↔ '@' ∉ t := by
  refine ⟨fun same => ?_, fun absent => ?_⟩
  · have grown := length_replaceAll_at (protect "@") t
    have block : (protect "@").length = 22 := by decide
    have kept : (replaceAll "@" (protect "@") t).length = t.length := congrArg List.length same
    rw [block, kept] at grown
    exact List.count_eq_zero.mp (by omega)
  · exact replaceAll_eq_self _ at_ne_nil (not_infix_of_not_mem absent)

/-- **A text with doubled at signs holds no directive.** -/
theorem scanFrom_doubled : ∀ (t : Text) (prev : Option Char) (pos : Nat),
    scanFrom prev pos 0 (doubled t) = []
  | [], prev, pos => by
      rw [doubled, replaceAll_nil at_ne_nil, scanFrom]
  | c :: r, prev, pos => by
      unfold doubled
      by_cases hc : c = '@'
      · subst hc
        rw [replaceAll_at]
        exact scanFrom_doubled r (some '@') (pos + 1 + 1)
      · rw [replaceAll_other _ hc, scanFrom, if_neg hc]
        exact scanFrom_doubled r (some c) (pos + 1)

theorem directives_doubled (t : Text) : directives (doubled t) = [] := scanFrom_doubled t none 0

/-- Every doubled at sign is swapped for a sentinel. -/
theorem escapeMarkers_doubled : ∀ t : Text,
    escapeMarkers (doubled t) = replaceAll "@" atSentinel t
  | [] => by rfl
  | c :: r => by
      have ih := escapeMarkers_doubled r
      unfold escapeMarkers doubled at *
      by_cases hc : c = '@'
      · subst hc
        rw [replaceAll_at, replaceAll_at, replaceAll_hit mark_doubled.ne_nil, ih]
      · have single : ¬ "@@".toList <+: c :: replaceAll "@" "@@" r := fun hp =>
          hc (List.cons_prefix_cons.mp hp).1.symm
        rw [replaceAll_other _ hc, replaceAll_char mark_doubled.ne_nil _ single,
          replaceAll_other _ hc, ih]

/-- A sentinel gives way to a raw block of an at sign. -/
theorem restoreMarkers_sentinels : ∀ {t : Text}, '\x00' ∉ t →
    restoreMarkers (replaceAll "@" atSentinel t) = shielded t
  | [], _ => by rfl
  | c :: r, h => by
      have ih := restoreMarkers_sentinels fun hm => h (List.mem_cons_of_mem c hm)
      unfold restoreMarkers shielded at *
      by_cases hc : c = '@'
      · subst hc
        rw [replaceAll_at, replaceAll_at, replaceAll_hit mark_sentinel.ne_nil, ih]
      · have visible : ¬ atSentinel <+: c :: replaceAll "@" atSentinel r := fun hp =>
          h ((List.cons_prefix_cons.mp hp).1 ▸ List.mem_cons_self)
        rw [replaceAll_other _ hc, replaceAll_char mark_sentinel.ne_nil _ visible,
          replaceAll_other _ hc, ih]

/-! ### Placeholders -/

/-- The null characters of a sentinel. -/
theorem sentinel_cut {u v : Text} (h : atSentinel = u ++ '\x00' :: v) :
    (u = [] ∧ v = "hk:at\x00".toList) ∨ v = [] := by
  have place : atSentinel[u.length]? = some '\x00' := by
    rw [h, List.getElem?_append_right (Nat.le_refl _), Nat.sub_self]
    rfl
  have behind : atSentinel.drop (u.length + 1) = v := by
    rw [h, List.drop_append, List.drop_eq_nil_of_le (Nat.le_succ _), Nat.add_sub_cancel_left]
    rfl
  have short : u.length < atSentinel.length := by
    rw [h, List.length_append, List.length_cons]
    omega
  have only : ∀ i < atSentinel.length, atSentinel[i]? = some '\x00' → i = 0 ∨ i = 6 := by decide
  obtain zero | six := only _ short place
  · rw [zero] at behind
    exact Or.inl ⟨List.eq_nil_of_length_eq_zero zero, behind.symm⟩
  · rw [six] at behind
    exact Or.inr behind.symm

/-- A null character in front of a text is the beginning or the end of a sentinel. -/
theorem sentinels_cut : ∀ {t u w : Text}, '\x00' ∉ t →
    replaceAll "@" atSentinel t = u ++ '\x00' :: w →
      ∃ a b, t = a ++ '@' :: b ∧ (w = "hk:at\x00".toList ++ replaceAll "@" atSentinel b ∨
        w = replaceAll "@" atSentinel b)
  | [], u, w, _, e => by
      rw [replaceAll_nil at_ne_nil] at e
      exact absurd e.symm (by simp)
  | c :: r, u, w, h, e => by
      have later : ∀ {u}, replaceAll "@" atSentinel r = u ++ '\x00' :: w →
          ∃ a b, c :: r = a ++ '@' :: b ∧
            (w = "hk:at\x00".toList ++ replaceAll "@" atSentinel b ∨
              w = replaceAll "@" atSentinel b) := by
        intro u e
        obtain ⟨a, b, rfl, hw⟩ := sentinels_cut (fun hm => h (List.mem_cons_of_mem c hm)) e
        exact ⟨c :: a, b, rfl, hw⟩
      by_cases hc : c = '@'
      · subst hc
        rw [replaceAll_at] at e
        obtain ⟨m, -, he⟩ | ⟨m, hs, he⟩ := List.append_eq_append_iff.mp e
        · exact later he
        · cases m with
          | nil => exact later (u := []) he.symm
          | cons d m =>
              obtain ⟨rfl, rfl⟩ := List.cons.inj he
              refine ⟨[], r, rfl, ?_⟩
              obtain ⟨-, rfl⟩ | rfl := sentinel_cut hs
              · exact Or.inl rfl
              · exact Or.inr rfl
      · rw [replaceAll_other _ hc] at e
        cases u with
        | nil => exact absurd ((List.cons.inj e).1 ▸ List.mem_cons_self) h
        | cons d u => exact later (List.cons.inj e).2

theorem exists_digits_of_guardToken? {t : Text} {n m : Nat} (h : guardToken? t = some (n, m)) :
    ∃ digits r : Text, t = guardLead ++ (digits ++ '\x00' :: r) ∧ digits ≠ [] ∧
      ∀ c ∈ digits, isDecimal c = true := by
  unfold guardToken? at h
  obtain ⟨rest, lead, h⟩ := Option.bind_eq_some_iff.mp h
  obtain ⟨k, number, h⟩ := Option.bind_eq_some_iff.mp h
  obtain ⟨r, close, -⟩ := Option.bind_eq_some_iff.mp h
  obtain ⟨s, hs⟩ := List.takeWhile_prefix isDecimal (l := rest)
  have decimal : ∀ c ∈ rest.takeWhile isDecimal, isDecimal c = true :=
    List.all_eq_true.mp List.all_takeWhile
  generalize rest.takeWhile isDecimal = digits at *
  obtain rfl := hs
  rw [List.drop_left] at close
  refine ⟨digits, r, ?_, ?_, decimal⟩
  · rw [eq_append_of_dropLead? lead, eq_append_of_dropLead? close]
    rfl
  · rintro rfl
    cases number

/-- Sentinels and what stands between them make no placeholder. -/
theorem nowhere_guardToken? {t : Text} (h : Escapable t) :
    Nowhere guardToken? (replaceAll "@" atSentinel t) := by
  rintro v ⟨u, hv⟩
  cases hg : guardToken? v with
  | none => rfl
  | some found =>
      obtain ⟨digits, r, rfl, given, decimal⟩ := exists_digits_of_guardToken? hg
      obtain ⟨a, b, rfl, hw⟩ := sentinels_cut h.visible (u := u)
        (w := "hk:guard:".toList ++ (digits ++ '\x00' :: r)) hv.symm
      have hb : '\x00' ∉ b := fun hm =>
        h.visible (List.mem_append_right a (List.mem_cons_of_mem '@' hm))
      obtain hw | hw := hw
      · exact absurd hw (by simp)
      -- The guard stands between two sentinels, so its inside was there before.
      have unmarked : '\x00' ∉ "hk:guard:".toList ++ digits := not_mem_append (by decide) fun hm =>
        absurd (decimal _ hm) (by decide)
      rw [← List.append_assoc] at hw
      obtain ⟨v, rfl, hr⟩ := prefix_of_replaceAll at_ne_nil unmarked b hw.symm
      refine absurd ?_ (h.unguarded digits given decimal)
      cases v with
      | nil =>
          rw [replaceAll_nil at_ne_nil] at hr
          cases hr
      | cons c v =>
          by_cases hc : c = '@'
          · subst hc
            exact ⟨a, v, by simp⟩
          · rw [replaceAll_other _ hc] at hr
            exact absurd ((List.cons.inj hr).1 ▸ List.mem_append_right _ List.mem_cons_self) hb

/-! ### The rewriting -/

/-- A curly bracket and a sign behind it were there before at signs were replaced. -/
theorem not_infix_marked {t new stretch : Text} {y : Char} (hn : '\x7b' ∉ y :: new)
    (hs : y ∉ stretch) (h : ¬ '\x7b' :: stretch <:+: t) :
    ¬ '\x7b' :: stretch <:+: replaceAll "@" (y :: new) t :=
  fun hm => h (infix_of_replaceAll at_ne_nil hn hs hm)

theorem not_mem_marked {t : Text} : '@' ∉ replaceAll "@" atSentinel t := by
  induction t with
  | nil => decide
  | cons c r ih =>
      by_cases hc : c = '@'
      · subst hc
        rw [replaceAll_at]
        exact not_mem_append (by decide) ih
      · rw [replaceAll_other _ hc]
        exact fun hm => (List.mem_cons.mp hm).elim (fun e => hc e.symm) ih

theorem not_mem_of_doubled : ∀ {t : Text}, '@' ∉ doubled t → '@' ∉ t
  | [], _ => List.not_mem_nil
  | c :: r, h => by
      unfold doubled at h
      by_cases hc : c = '@'
      · subst hc
        rw [replaceAll_at] at h
        exact absurd List.mem_cons_self h
      · rw [replaceAll_other _ hc, List.mem_cons, not_or] at h
        exact fun hm => (List.mem_cons.mp hm).elim h.1 (not_mem_of_doubled h.2)

/-- No region starts between sentinels or in them. -/
theorem region?_marked {t : Text} (h : Escapable t) {c : Char} {v : Text}
    (hv : c :: v <:+ replaceAll "@" atSentinel t) : region? (c :: v) = none := by
  have raw : keywordTag? "raw" (c :: v) = none :=
    h.untagged.replaceAll lettered_raw mark_at mark_sentinel _ hv
  have word : wholeWord? "@verbatim" (c :: v) = none :=
    wholeWord?_leads "verbatim" c v fun e => not_mem_marked (e ▸ hv.subset List.mem_cons_self)
  unfold region?
  rw [raw, word]
  rfl

theorem stripComments_doubled {t : Text} (h : Escapable t) :
    stripComments (doubled t) = doubled t :=
  stripComments_eq_self (not_infix_marked (by decide) (by decide) h.uncommented)

/-- **A text with doubled at signs is rewritten** to the text with every at sign in a raw block of
its own. -/
theorem transform_doubled (ds : Delimiters) {t : Text} (h : Escapable t) :
    transform ds (doubled t) = .ok (shielded t) := by
  by_cases may : mayHoldDirectives (doubled t) = true
  swap
  · have single : '@' ∉ doubled t := fun hm => may (by
      rw [mayHoldDirectives, List.contains_iff_mem.mpr hm]
      rfl)
    have absent : ¬ "@".toList <:+: t := not_infix_of_not_mem (not_mem_of_doubled single)
    rw [transform, if_neg may, doubled, shielded, replaceAll_eq_self _ at_ne_nil absent,
      replaceAll_eq_self _ at_ne_nil absent]
  have quiet : ∀ c v, c :: v <:+ replaceAll "@" atSentinel t → region? (c :: v) = none :=
    fun c v => region?_marked h
  have guarded : guardRegions (replaceAll "@" atSentinel t) =
      (replaceAll "@" atSentinel t, []) := by
    rw [guardRegions, pieces_quiet quiet, hits_quiet quiet, guardPieces_char]
    rfl
  have inert : rewriteAll ds (replaceAll "@" atSentinel t) = replaceAll "@" atSentinel t :=
    rewriteAll_inert (inert_of_free ds fun r n hr => absurd (hr.subset List.mem_cons_self)
      not_mem_marked)
  have restored : restoreRegions (replaceAll "@" atSentinel t) [] =
      .ok (replaceAll "@" atSentinel t) := by
    rw [restoreRegions, pieces_quiet (nowhere_guardToken? h).quiet, restorePieces_char]
  rw [transform, if_pos may, stripComments_doubled h, escapeMarkers_doubled, guarded]
  simp only [inert, restored, Except.map, restoreMarkers_sentinels h.visible]

end Pagewright.Lowering
