import Pagewright.Proofs.Text.Replace

/-! # Revisions

A text is revised by edits.  To tell what an author wrote from what the revision put there, every
character carries a mark (`Marked`), and the edits are made on marked texts (`revise`).  Edits that
stand one behind the other leave every character that none of them covers as it is
(`revised_reviseFrom`).  The hits of a recogniser ask for such edits (`inOrder_hitEdits`,
`read_hitEdits`).

Main definitions: `Marked`, `revise`, `Revised`, `InOrder`, `hitEdits`. -/

namespace Pagewright.Text

/-! ### Marked texts -/

/-- Characters, each with whether an author wrote it. -/
abbrev Marked := List (Char × Bool)

/-- The characters of a marked text. -/
def textOf (m : Marked) : Text := m.map Prod.fst

/-- A text that an author wrote. -/
def authored (t : Text) : Marked := t.map fun c => (c, true)

/-- A text that no author wrote. -/
def generated (t : Text) : Marked := t.map fun c => (c, false)

theorem textOf_authored (t : Text) : textOf (authored t) = t := by
  simp [textOf, authored, Function.comp_def]

theorem textOf_generated (t : Text) : textOf (generated t) = t := by
  simp [textOf, generated, Function.comp_def]

theorem textOf_append (m k : Marked) : textOf (m ++ k) = textOf m ++ textOf k := List.map_append

theorem textOf_drop (m : Marked) (n : Nat) : textOf (m.drop n) = (textOf m).drop n := List.map_drop

theorem length_textOf (m : Marked) : (textOf m).length = m.length := List.length_map _

/-- The characters of a marked text from one offset up to another. -/
def stretch (m : Marked) (start stop : Nat) : Marked := (m.drop start).take (stop - start)

theorem textOf_stretch (m : Marked) (start stop : Nat) :
    textOf (stretch m start stop) = slice (textOf m) start stop := by
  simp [textOf, stretch, slice, List.map_take, List.map_drop]

theorem stretch_append_drop (m : Marked) {start stop : Nat} (h : start ≤ stop) :
    stretch m start stop ++ m.drop stop = m.drop start := by
  have e : m.drop stop = (m.drop start).drop (stop - start) := by
    rw [List.drop_drop, Nat.add_sub_cancel' h]
  rw [stretch, e, List.take_append_drop]

theorem length_stretch (m : Marked) {start stop : Nat} (h : stop ≤ m.length) :
    (stretch m start stop).length = stop - start := by
  rw [stretch, List.length_take, List.length_drop]
  omega

/-! ### Edits -/

/-- A marked text from offset `last` on, with the stretches of the edits replaced. -/
def reviseFrom (m : Marked) : Nat → List Edit → Marked
  | last, [] => m.drop last
  | last, e :: es => stretch m last e.start ++ (generated e.new ++ reviseFrom m e.stop es)

/-- A marked text with given stretches replaced. -/
def revise (es : List Edit) (m : Marked) : Marked := reviseFrom m 0 es

theorem textOf_revise (es : List Edit) (m : Marked) :
    textOf (revise es m) = applyEdits (textOf m) es := by
  have from_ : ∀ last, textOf (reviseFrom m last es) = editFrom (textOf m) last es := by
    induction es with
    | nil => exact textOf_drop m
    | cons e es ih =>
      intro last
      rw [reviseFrom, editFrom, textOf_append, textOf_append, textOf_stretch, textOf_generated, ih,
        List.append_assoc]
  exact from_ 0

/-- Edits that stand one behind the other, from an offset on and up to another. -/
def InOrder (stop : Nat) : Nat → List Edit → Prop
  | last, [] => last ≤ stop
  | last, e :: es => last ≤ e.start ∧ e.start ≤ e.stop ∧ InOrder stop e.stop es

theorem InOrder.mono {stop last last' : Nat} {es : List Edit} (h : InOrder stop last es)
    (le : last' ≤ last) : InOrder stop last' es := by
  cases es with
  | nil => exact Nat.le_trans le h
  | cons e es => exact ⟨Nat.le_trans le h.1, h.2⟩

/-- Edits that stand one behind the other end in front of the end. -/
theorem InOrder.le {stop last : Nat} {es : List Edit} (h : InOrder stop last es) : last ≤ stop := by
  induction es generalizing last with
  | nil => exact h
  | cons e es ih => exact Nat.le_trans (Nat.le_trans h.1 h.2.1) (ih h.2.2)

/-! ### What a revision keeps -/

/-- The second text is the first one, with some stretches replaced by what no author wrote, and every
other character as it is.  `P` tells which stretches may be replaced, in front of what follows them in
the first text, and by what. -/
inductive Revised (P : Marked → Marked → Text → Prop) : Marked → Marked → Prop
  | nil : Revised P [] []
  | keep (c : Char × Bool) {m k : Marked} : Revised P m k → Revised P (c :: m) (c :: k)
  | change {old m k : Marked} {new : Text} :
      P old m new → Revised P m k → Revised P (old ++ m) (generated new ++ k)

variable {P Q : Marked → Marked → Text → Prop}

theorem Revised.mono {m k : Marked} (h : Revised P m k)
    (le : ∀ old m new, P old m new → Q old m new) : Revised Q m k := by
  induction h with
  | nil => exact Revised.nil
  | keep c _ ih => exact Revised.keep c ih
  | change allowed _ ih => exact Revised.change (le _ _ _ allowed) ih

theorem Revised.refl (m : Marked) : Revised P m m := by
  induction m with
  | nil => exact Revised.nil
  | cons c m ih => exact Revised.keep c ih

theorem Revised.behind {m k : Marked} (h : Revised P m k) (u : Marked) :
    Revised P (u ++ m) (u ++ k) := by
  induction u with
  | nil => exact h
  | cons c u ih => exact Revised.keep c ih

/-- What is replaced, and what follows it, is an end of the first text. -/
theorem Revised.within {m k : Marked} (h : Revised P m k) :
    Revised (fun old n new => P old n new ∧ old ++ n <:+ m) m k := by
  induction h with
  | nil => exact Revised.nil
  | keep c _ ih =>
    exact Revised.keep c (ih.mono fun _ _ _ ⟨allowed, inside⟩ =>
      ⟨allowed, inside.trans (List.suffix_cons c _)⟩)
  | change allowed _ ih =>
    exact Revised.change ⟨allowed, List.suffix_rfl⟩ (ih.mono fun _ _ _ ⟨other, inside⟩ =>
      ⟨other, inside.trans (List.suffix_append _ _)⟩)

/-- **Edits that stand one behind the other keep what none of them covers.** -/
theorem revised_reviseFrom {m : Marked} {es : List Edit} {last : Nat}
    (order : InOrder m.length last es)
    (allowed : ∀ e ∈ es, P (stretch m e.start e.stop) (m.drop e.stop) e.new) :
    Revised P (m.drop last) (reviseFrom m last es) := by
  induction es generalizing last with
  | nil => exact Revised.refl _
  | cons e es ih =>
    obtain ⟨front, around, rest⟩ := order
    obtain ⟨own, others⟩ := List.forall_mem_cons.mp allowed
    have changed := Revised.change own (ih rest others)
    rw [stretch_append_drop m around] at changed
    rw [reviseFrom, ← stretch_append_drop m front]
    exact changed.behind _

theorem revised_revise {m : Marked} {es : List Edit} (order : InOrder m.length 0 es)
    (allowed : ∀ e ∈ es, P (stretch m e.start e.stop) (m.drop e.stop) e.new) :
    Revised P m (revise es m) :=
  revised_reviseFrom order allowed

/-! ### Edits at hits -/

variable {α : Type}

/-- The edits that replace the hits among scanned pieces; what takes the place of a hit depends on its
number, counted from `n` on, and on what was recognised. -/
def hitEdits (new : Nat → α → Text) : Nat → List (Piece α) → List Edit
  | _, [] => []
  | n, .char _ :: ps => hitEdits new n ps
  | n, .hit a start stop :: ps => ⟨start, stop, new n a⟩ :: hitEdits new (n + 1) ps

/-- Scanned pieces with the hits replaced. -/
def placedHits (new : Nat → α → Text) : Nat → List (Piece α) → Text
  | _, [] => []
  | n, .char c :: ps => c :: placedHits new n ps
  | n, .hit a _ _ :: ps => new n a ++ placedHits new (n + 1) ps

/-- What a recogniser finds covers some characters, and not more than there are. -/
def Spanning (find : Recogniser α) : Prop :=
  ∀ v a n, find v = some (a, n) → 0 < n ∧ n ≤ v.length

variable {find : Recogniser α} (spanning : Spanning find) (new : Nat → α → Text)

include spanning

theorem inOrder_hitEdits (n pos skip : Nat) (t : Text) (h : skip ≤ t.length) :
    InOrder (pos + t.length) (pos + skip) (hitEdits new n (piecesFrom find pos skip t)) := by
  induction t generalizing n pos skip with
  | nil =>
    obtain rfl := Nat.le_zero.mp h
    rw [piecesFrom]
    exact Nat.le_refl _
  | cons c r ih =>
    rw [List.length_cons] at h ⊢
    cases skip with
    | succ k =>
      have later := ih n (pos + 1) k (by omega)
      rw [show pos + (r.length + 1) = pos + 1 + r.length by omega,
        show pos + (k + 1) = pos + 1 + k by omega]
      exact later
    | zero =>
      rw [piecesFrom]
      split
      · next a length found =>
        obtain ⟨some_, inside⟩ := spanning _ _ _ found
        rw [List.length_cons] at inside
        have later := ih (n + 1) (pos + 1) (length - 1) (by omega)
        refine ⟨Nat.le_refl _, Nat.le_add_right _ _, ?_⟩
        rw [show pos + (r.length + 1) = pos + 1 + r.length by omega]
        exact later.mono (by simp only; omega)
      · have later := ih n (pos + 1) 0 (by omega)
        rw [show pos + (r.length + 1) = pos + 1 + r.length by omega]
        exact later.mono (by omega)

omit spanning in
/-- Every edit stands at a hit, and what it puts there is for that hit and its number. -/
theorem read_hitEdits {whole t : Text} {n pos skip : Nat} (ht : whole.drop pos = t) :
    ∀ e ∈ hitEdits new n (piecesFrom find pos skip t),
      ∃ a k, find (whole.drop e.start) = some (a, e.stop - e.start) ∧ e.new = new (n + k) a ∧
        ((piecesFrom find pos skip t).filterMap Piece.value?)[k]? = some a := by
  induction t generalizing n pos skip with
  | nil =>
    intro e he
    rw [piecesFrom] at he
    cases he
  | cons c r ih =>
    have hr : whole.drop (pos + 1) = r := by rw [← List.drop_drop, ht, List.drop_one, List.tail_cons]
    cases skip with
    | succ k => exact ih hr
    | zero =>
      rw [piecesFrom]
      split
      · next a length found =>
        intro e he
        rcases List.mem_cons.mp he with rfl | he
        · refine ⟨a, 0, ?_, rfl, rfl⟩
          rw [ht, found, Nat.add_sub_cancel_left]
        · obtain ⟨b, k, here, answer, value⟩ := ih hr e he
          refine ⟨b, k + 1, here, ?_, value⟩
          rw [answer, Nat.add_assoc, Nat.add_comm 1 k]
      · exact ih hr

omit spanning in
/-- A character in front of all edits is kept. -/
theorem editFrom_char {whole r : Text} {c : Char} {pos stop : Nat} {es : List Edit}
    (hc : whole.drop pos = c :: r) (order : InOrder stop (pos + 1) es) :
    editFrom whole pos es = c :: editFrom whole (pos + 1) es := by
  have hr : whole.drop (pos + 1) = r := by rw [← List.drop_drop, hc, List.drop_one, List.tail_cons]
  cases es with
  | nil => rw [editFrom, editFrom, hc, hr]
  | cons e es =>
    have first : slice whole pos e.start = c :: slice whole (pos + 1) e.start := by
      have front := order.1
      rw [slice, slice, hc, hr, show e.start - pos = e.start - (pos + 1) + 1 by omega,
        List.take_succ_cons]
    rw [editFrom, editFrom, first, List.cons_append, List.cons_append]

/-- The edits at hits put in their places what is given for them. -/
theorem editFrom_hits {whole t : Text} (n pos skip : Nat) (ht : whole.drop pos = t)
    (h : skip ≤ t.length) :
    editFrom whole (pos + skip) (hitEdits new n (piecesFrom find pos skip t)) =
      placedHits new n (piecesFrom find pos skip t) := by
  induction t generalizing n pos skip with
  | nil =>
    obtain rfl := Nat.le_zero.mp h
    rw [piecesFrom]
    exact ht
  | cons c r ih =>
    have hr : whole.drop (pos + 1) = r := by rw [← List.drop_drop, ht, List.drop_one, List.tail_cons]
    rw [List.length_cons] at h
    cases skip with
    | succ k =>
      have later := ih n (pos + 1) k hr (Nat.le_of_succ_le_succ h)
      rw [show pos + (k + 1) = pos + 1 + k by omega]
      exact later
    | zero =>
      rw [piecesFrom]
      split
      · next a length found =>
        obtain ⟨some_, inside⟩ := spanning _ _ _ found
        rw [List.length_cons] at inside
        have later := ih (n + 1) (pos + 1) (length - 1) hr (by omega)
        have here : slice whole (pos + 0) pos = [] := by simp [slice]
        rw [hitEdits, placedHits, editFrom, ← later, here]
        rw [show pos + 1 + (length - 1) = pos + length by omega]
        rfl
      · have later := ih n (pos + 1) 0 hr (by omega)
        have order := inOrder_hitEdits spanning new n (pos + 1) 0 r (Nat.zero_le _)
        rw [hitEdits, placedHits, ← later, Nat.add_zero, editFrom_char ht order]

theorem applyEdits_hits (t : Text) :
    applyEdits t (hitEdits new 0 (pieces find t)) = placedHits new 0 (pieces find t) :=
  editFrom_hits spanning new 0 0 0 rfl (Nat.zero_le _)

omit spanning in
/-- A stretch that a recogniser finds, in front of what follows it, gives way to a text for what was
found. -/
def Found (find : Recogniser α) (new : Nat → α → Text) (old m : Marked) (v : Text) : Prop :=
  ∃ a k, find (textOf (old ++ m)) = some (a, old.length) ∧ v = new k a

/-- Where an edit at a hit stands, the recogniser finds what the edit covers. -/
theorem numbered_hitEdits (m : Marked) : ∀ e ∈ hitEdits new 0 (pieces find (textOf m)),
    ∃ a k, find (textOf (stretch m e.start e.stop ++ m.drop e.stop)) =
        some (a, (stretch m e.start e.stop).length) ∧
      e.new = new k a ∧ (hits find (textOf m))[k]? = some a := by
  intro e he
  obtain ⟨a, k, found, answer, value⟩ := read_hitEdits new (List.drop_zero (l := textOf m)) e he
  obtain ⟨some_, inside⟩ := spanning _ _ _ found
  rw [List.length_drop, length_textOf] at inside
  refine ⟨a, k, ?_, ?_, value⟩
  · rw [stretch_append_drop m (by omega), textOf_drop, found, length_stretch m (by omega)]
  · rw [answer, Nat.zero_add]

/-- What an edit at a hit covers, and what follows it, is an end of the text. -/
theorem within_hitEdits (m : Marked) : ∀ e ∈ hitEdits new 0 (pieces find (textOf m)),
    stretch m e.start e.stop ++ m.drop e.stop <:+ m := by
  intro e he
  obtain ⟨a, k, found, -⟩ := read_hitEdits new (List.drop_zero (l := textOf m)) e he
  obtain ⟨some_, -⟩ := spanning _ _ _ found
  rw [stretch_append_drop m (by omega)]
  exact List.drop_suffix _ _

theorem found_hitEdits (m : Marked) : ∀ e ∈ hitEdits new 0 (pieces find (textOf m)),
    Found find new (stretch m e.start e.stop) (m.drop e.stop) e.new := by
  intro e he
  obtain ⟨a, k, found, answer, -⟩ := numbered_hitEdits spanning new m e he
  exact ⟨a, k, found, answer⟩

theorem inOrder_hits (m : Marked) :
    InOrder m.length 0 (hitEdits new 0 (pieces find (textOf m))) := by
  have order := inOrder_hitEdits spanning new 0 0 0 (textOf m) (Nat.zero_le _)
  rwa [Nat.zero_add, length_textOf] at order

/-- **Replacing hits changes nothing but what is found.** -/
theorem revised_hits (m : Marked) :
    Revised (Found find new) m (revise (hitEdits new 0 (pieces find (textOf m))) m) :=
  revised_revise (inOrder_hits spanning new m) (found_hitEdits spanning new m)

/-! ### Occurrences -/

/-- An occurrence of a text. -/
def occurrence? (old : Text) : Recogniser Unit := fun t =>
  (dropLead? old t).map fun _ => ((), old.length)

omit spanning in
theorem spanning_occurrence? {old : Text} (ho : old ≠ []) : Spanning (occurrence? old) := by
  intro v a n h
  obtain ⟨r, hr, e⟩ := Option.map_eq_some_iff.mp h
  obtain ⟨-, rfl⟩ := Prod.mk.inj e
  rw [eq_append_of_dropLead? hr, List.length_append]
  exact ⟨List.length_pos_iff.mpr ho, Nat.le_add_right _ _⟩

omit spanning in
/-- Replacing a text everywhere is replacing its occurrences. -/
theorem placedHits_occurrence {old : Text} (ho : old ≠ []) (new t : Text) (n pos : Nat) :
    placedHits (fun _ _ => new) n (piecesFrom (occurrence? old) pos 0 t) = replaceAll old new t := by
  induction t using occurrence_induction ho generalizing n pos with
  | nil =>
    rw [replaceAll_nil ho, piecesFrom]
    rfl
  | hit r ih =>
    have found : occurrence? old (old ++ r) = some ((), old.length) := by
      rw [occurrence?, dropLead?_append]
      rfl
    rw [piecesFrom_hit _ pos ho found, placedHits, ih, replaceAll_hit ho]
  | char c r hc ih =>
    have quiet : occurrence? old (c :: r) = none := by
      rw [occurrence?, dropLead?_eq_none.mpr hc]
      rfl
    rw [piecesFrom_char pos quiet, placedHits, ih, replaceAll_char ho new hc]

end Pagewright.Text
