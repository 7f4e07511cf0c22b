import Pagewright.Proofs.Lowering.Placeholder
import Pagewright.Proofs.Lowering.Twice

/-! # Restoring stretch by stretch

What the passes leave is made of stretches that hold no null character, of sentinels and of the
placeholders of regions.  Each of them is restored by itself, whatever stands around it, if no
placeholder begins where a sentinel ends (`putBack_flatten`).

A text without at signs and comments is not rewritten at all.  That is what the passes would make of
it, too: the placeholders of its regions are restored to what was guarded (`restoreRegions_guarded`),
so the shortcut does not show (`transform_eq_rewritten`).

Main definitions: `Restorable`, `Unforged`, `putBack`. -/

namespace Pagewright.Lowering

open Text Directive

variable {regions : List Text}

/-! ### Stretches -/

/-- A stretch of a rewritten text. -/
inductive Restorable (regions : List Text) : Text → Prop
  | visible {x : Text} (h : '\x00' ∉ x) : Restorable regions x
  | sentinel : Restorable regions atSentinel
  | placeholder {n : Nat} {r : Text} (known : regions[n]? = some r) :
    Restorable regions (guardToken n)

/-- What takes the place of a stretch. -/
def putBack (regions : List Text) (x : Text) : Text :=
  if x = atSentinel then protect "@"
  else match guardToken? x with
    | some (n, _) => (regions[n]?).getD []
    | none => x

/-- No placeholder begins with the last character of a sentinel. -/
def Unforged : List Text → Prop
  | [] => True
  | x :: xs => (x = atSentinel → guardToken? ('\x00' :: xs.flatten) = none) ∧ Unforged xs

instance Unforged.decide : ∀ xs : List Text, Decidable (Unforged xs)
  | [] => .isTrue trivial
  | x :: xs =>
    have := Unforged.decide xs
    inferInstanceAs (Decidable ((x = atSentinel → guardToken? ('\x00' :: xs.flatten) = none) ∧
      Unforged xs))

theorem putBack_visible {x : Text} (h : '\x00' ∉ x) : putBack regions x = x := by
  have marked : x ≠ atSentinel := by
    rintro rfl
    exact h (by decide)
  have numbered : guardToken? x = none := by
    cases x with
    | nil => rfl
    | cons c r => exact guardToken?_leads c r fun e => h (e ▸ List.mem_cons_self)
  rw [putBack, if_neg marked, numbered]

theorem putBack_sentinel : putBack regions atSentinel = protect "@" := if_pos rfl

theorem putBack_placeholder (n : Nat) :
    putBack regions (guardToken n) = (regions[n]?).getD [] := by
  have found := guardToken?_guardToken n []
  rw [List.append_nil] at found
  have differ : guardToken n ≠ atSentinel := by
    intro e
    rw [e] at found
    cases found
  rw [putBack, if_neg differ, found]

/-! ### Sentinels -/

theorem restoreMarkers_visible {x : Text} (h : '\x00' ∉ x) (r : Text) :
    restoreMarkers (x ++ r) = x ++ restoreMarkers r := by
  induction x with
  | nil => rfl
  | cons c x ih =>
    obtain ⟨first, others⟩ := not_or.mp (mt List.mem_cons.mpr h)
    have other : ¬ atSentinel <+: c :: (x ++ r) := fun lead =>
      first (List.cons_prefix_cons.mp lead).1
    rw [List.cons_append, restoreMarkers, replaceAll_char mark_sentinel.ne_nil _ other]
    exact congrArg (c :: ·) (ih others)

theorem restoreMarkers_sentinel (r : Text) :
    restoreMarkers (atSentinel ++ r) = protect "@" ++ restoreMarkers r :=
  replaceAll_hit mark_sentinel.ne_nil _ r

/-- Within a sentinel no placeholder begins, up to its last character. -/
theorem guardToken?_sentinel {r : Text} (last : guardToken? ('\x00' :: r) = none) :
    ∀ c v, c :: v <:+ atSentinel → guardToken? (c :: v ++ r) = none := by
  intro c v hv
  by_cases null : c = '\x00'
  · -- Null characters are the first and the last one.
    have whole : atSentinel = '\x00' :: ("hk:at".toList ++ ['\x00']) := by decide
    have letters : '\x00' ∉ "hk:at".toList := by decide
    rw [null, whole] at hv
    obtain e | hv := List.suffix_cons_iff.mp hv
    · obtain rfl := (List.cons.inj e).2
      rw [null]
      rfl
    · obtain hv | ⟨w, given, inside, e⟩ := suffix_append_cases hv
      · obtain e | hv := List.suffix_cons_iff.mp hv
        · obtain rfl := (List.cons.inj e).2
          rw [null]
          exact last
        · exact absurd (List.suffix_nil.mp hv) (List.cons_ne_nil _ _)
      · obtain ⟨d, w, rfl⟩ := List.exists_cons_of_ne_nil given
        obtain rfl := (List.cons.inj e).1
        exact absurd (inside.subset List.mem_cons_self) letters
  · exact guardToken?_leads c (v ++ r) null

/-! ### Placeholders -/

theorem restorePieces_chars (x : Text) (ps : List (Piece Nat)) :
    restorePieces regions (x.map .char ++ ps) = (restorePieces regions ps).map (x ++ ·) := by
  induction x with
  | nil =>
    cases h : restorePieces regions ps <;> simp [h, Except.map]
  | cons c x ih =>
    rw [List.map_cons, List.cons_append, restorePieces, ih]
    cases restorePieces regions ps <;> rfl

/-- The placeholders give way to the regions, one after the other. -/
theorem restoreRegions_append {x r z : Text} (pos : Nat) (quiet : ∀ c v, c :: v <:+ x →
      guardToken? (c :: v ++ r) = none) (h : ∀ pos, restorePieces regions
      (piecesFrom guardToken? pos 0 r) = .ok z) :
    restorePieces regions (piecesFrom guardToken? pos 0 (x ++ r)) = .ok (x ++ z) := by
  rw [piecesFrom_quiet guardToken? pos x r quiet, restorePieces_chars, h]
  rfl

theorem restoreRegions_placeholder {r z x : Text} {n : Nat} (known : regions[n]? = some x)
    (pos : Nat) (h : ∀ pos, restorePieces regions (piecesFrom guardToken? pos 0 r) = .ok z) :
    restorePieces regions (piecesFrom guardToken? pos 0 (guardToken n ++ r)) = .ok (x ++ z) := by
  rw [piecesFrom_hit _ pos (guardToken_ne_nil n) (guardToken?_guardToken n r), restorePieces, known]
  simp only
  rw [h]
  rfl

/-- **Stretches are restored one by one.** -/
theorem putBack_flatten {xs : List Text} (visible : ∀ r ∈ regions, '\x00' ∉ r)
    (forms : ∀ x ∈ xs, Restorable regions x) (unforged : Unforged xs) :
    (restoreRegions xs.flatten regions).map restoreMarkers =
      .ok (xs.map (putBack regions)).flatten := by
  -- The regions are put back first, and sentinels are still there behind that.
  suffices h : ∃ z, (∀ pos, restorePieces regions (piecesFrom guardToken? pos 0 xs.flatten) = .ok z) ∧
      restoreMarkers z = (xs.map (putBack regions)).flatten by
    obtain ⟨z, hz, e⟩ := h
    rw [restoreRegions, pieces, hz, ← e]
    rfl
  induction xs with
  | nil => exact ⟨[], fun _ => rfl, restoreMarkers_eq_self (by simp)⟩
  | cons x xs ih =>
    obtain ⟨form, others⟩ := List.forall_mem_cons.mp forms
    obtain ⟨front, behind⟩ := unforged
    obtain ⟨z, hz, e⟩ := ih others behind
    rw [List.flatten_cons, List.map_cons, List.flatten_cons, ← e]
    cases form with
    | visible h =>
      refine ⟨x ++ z, fun pos => restoreRegions_append pos (guardToken?_leads.quiet h _) hz, ?_⟩
      rw [restoreMarkers_visible h, putBack_visible h]
    | sentinel =>
      refine ⟨atSentinel ++ z, fun pos => ?_, ?_⟩
      · exact restoreRegions_append pos (guardToken?_sentinel (front rfl)) hz
      · rw [restoreMarkers_sentinel, putBack_sentinel]
    | @placeholder n r known =>
      refine ⟨r ++ z, fun pos => restoreRegions_placeholder known pos hz, ?_⟩
      rw [restoreMarkers_visible (visible r (List.mem_of_getElem? known)), putBack_placeholder,
        known]
      rfl

/-! ### What was guarded -/

/-- **What was guarded is put back.** -/
theorem restoreRegions_guarded (l : List (Char ⊕ Region)) (wrap : Bool)
    (visible : .inl '\x00' ∉ l) :
    restoreRegions (guarded 0 l) ((l.filterMap Sum.getRight?).map (Region.restored wrap)) =
      .ok (l.flatMap (Sum.elim (fun c => [c]) (Region.restored wrap))) := by
  suffices h : ∀ (before : List Text) (pos : Nat),
      restorePieces (before ++ (l.filterMap Sum.getRight?).map (Region.restored wrap))
        (piecesFrom guardToken? pos 0 (guarded before.length l)) =
      .ok (l.flatMap (Sum.elim (fun c => [c]) (Region.restored wrap))) from h [] 0
  induction l with
  | nil => exact fun _ _ => rfl
  | cons a l ih =>
    intro before pos
    obtain ⟨first, others⟩ := not_or.mp (mt List.mem_cons.mpr visible)
    cases a with
    | inl c =>
      have quiet : ∀ r, guardToken? (c :: r) = none := fun r =>
        guardToken?_leads c r fun e => first (congrArg Sum.inl e.symm)
      have rest := ih others before (pos + 1)
      rw [guarded, piecesFrom_char pos (quiet _), restorePieces]
      exact congrArg (Except.map (c :: ·)) rest
    | inr r =>
      have rest := fun pos => ih others (before ++ [r.restored wrap]) pos
      rw [List.length_append, List.length_singleton, List.append_assoc, List.singleton_append] at rest
      have known : (before ++ r.restored wrap :: (l.filterMap Sum.getRight?).map
          (Region.restored wrap))[before.length]? = some (r.restored wrap) := by simp
      exact restoreRegions_placeholder known pos rest

/-! ### Texts that are not rewritten -/

/-- The regions of a text without at signs are put back as they were. -/
theorem restored_source {t : Text} (visible : '\x00' ∉ t) (plain : '@' ∉ t) {x : Region}
    (hx : x ∈ hits region? t) : x.restored true = x.source := by
  obtain ⟨u, r, n, rfl, found⟩ := exists_of_mem_hits hx
  obtain ⟨b, w, rfl, rfl, -⟩ | ⟨inner, w, rfl, -, -⟩ := region?_cases found
  · have shown : '\x00' ∉ b.shown := fun hm =>
      visible (List.mem_append_right u (List.mem_append_left w hm))
    exact replaceAll_eq_self _ mark_sentinel.ne_nil (not_infix_of_not_mem shown)
  · have directive : '@' ∈ "@verbatim".toList := by decide
    exact absurd (List.mem_append_right u (List.mem_append_left _ directive)) plain

theorem rewriteAll_eq_self (ds : Delimiters) {t : Text} (h : '@' ∉ t) : rewriteAll ds t = t := by
  have conditionals : rewriteConditionals t = t := replaceWith_eq_self _ () h
  have switches : rewriteSwitches t = t := replaceWith_eq_self _ _ h
  have loops : rewriteLoops t = t := replaceWith_eq_self _ _ h
  have helpers : rewriteHelpers t ds.start ds.stop = t := replaceWith_eq_self _ () h
  rw [rewriteAll, conditionals, switches, loops, helpers, rewriteStackMarkers_eq_self h,
    rewriteIncludes_eq_self h]

theorem at_not_mem_guarded {l : List (Char ⊕ Region)} (n : Nat) (h : .inl '@' ∉ l) :
    '@' ∉ guarded n l := by
  induction l generalizing n with
  | nil => exact List.not_mem_nil
  | cons a l ih =>
    obtain ⟨first, others⟩ := not_or.mp (mt List.mem_cons.mpr h)
    cases a with
    | inl c =>
      rw [guarded, List.mem_cons, not_or]
      exact ⟨fun e => first (congrArg Sum.inl e), ih n others⟩
    | inr x => exact not_mem_append (at_not_mem_guardToken n) (ih (n + 1) others)

/-- A text without at signs comes back out of all the passes. -/
theorem rewritten_plain (ds : Delimiters) {t : Text} (visible : '\x00' ∉ t) (plain : '@' ∉ t)
    (uncommented : stripComments t = t) :
    (restoreRegions (rewritten ds t) (guardRegions (escapeMarkers (stripComments t))).2).map
      restoreMarkers = .ok t := by
  have single : escapeMarkers t = t :=
    replaceAll_eq_self _ mark_doubled.ne_nil (not_infix_of_not_mem plain)
  have whole := flatMap_sourceOf_pieces t 0 0
  have regions : ∀ x, .inr x ∈ (pieces region? t).map content → x.restored true = x.source := by
    intro x hx
    refine restored_source visible plain ?_
    rw [hits_eq]
    obtain ⟨p, hp, e⟩ := List.mem_map.mp hx
    refine List.mem_filterMap.mpr ⟨p, hp, ?_⟩
    cases p with
    | char c => cases e
    | hit y i j =>
      cases e
      rfl
  have chars : ∀ c, .inl c ∈ (pieces region? t).map content → c ∈ t := by
    intro c hc
    rw [List.drop_zero] at whole
    exact whole ▸ List.mem_flatMap_of_mem hc (List.mem_singleton_self c)
  have back : ((pieces region? t).map content).flatMap
      (Sum.elim (fun c => [c]) (Region.restored true)) = t := by
    refine Eq.trans ?_ whole
    refine List.flatMap_congr fun a ha => ?_
    cases a with
    | inl c => rfl
    | inr x => exact regions x ha
  have guardedPlain : '@' ∉ guarded 0 ((pieces region? t).map content) :=
    at_not_mem_guarded 0 fun h => plain (chars _ h)
  rw [rewritten, uncommented, single, guardRegions_eq, rewriteAll_eq_self ds guardedPlain,
    restoreRegions_guarded _ true fun h => visible (chars _ h), back]
  exact congrArg Except.ok (restoreMarkers_eq_self visible)

/-- **The shortcut does not show**: a text that is not rewritten is what the passes would make of
it. -/
theorem transform_eq_rewritten (ds : Delimiters) {t : Text} (visible : '\x00' ∉ t) :
    transform ds t = (restoreRegions (rewritten ds t)
      (guardRegions (escapeMarkers (stripComments t))).2).map restoreMarkers := by
  cases h : mayHoldDirectives t with
  | true => exact transform_eq h
  | false =>
    have none_ : ¬ mayHoldDirectives t = true := ne_true_of_eq_false h
    obtain ⟨unmarked, unopened⟩ : t.contains '@' = false ∧ occursIn "\x7b\x7b--" t = false :=
      Bool.or_eq_false_iff.mp h
    have plain : '@' ∉ t := fun hm => Bool.false_ne_true
      (unmarked.symm.trans (List.contains_iff_mem.mpr hm))
    have uncommented : stripComments t = t := stripComments_eq_self fun hi =>
      Bool.false_ne_true (unopened.symm.trans (occursIn_iff.mpr hi))
    rw [transform, if_neg none_, rewritten_plain ds visible plain uncommented]

end Pagewright.Lowering
