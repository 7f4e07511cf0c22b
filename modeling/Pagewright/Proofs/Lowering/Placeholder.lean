import Pagewright.Proofs.Lowering.Numbered
import Pagewright.Proofs.Lowering.Verbatim

/-! # Placeholders for regions

A text is scanned into characters and regions, and put together again from them
(`flatMap_sourceOf_pieces`).  Where its characters are those of parts, with a gap for every region
(`contents`), guarding leaves the parts with numbered placeholders in the gaps
(`guardRegions_contents`).  Placeholders do not run into a bracket, so they are restored on both sides
of a marker by themselves (`settled_around`).

Main definitions: `Region.source`, `contents`, `settled`. -/

namespace Pagewright.Lowering

open Text Directive

/-! ### Scanned texts -/

/-- A region as it stands in the source. -/
def Region.source : Region → Text
  | .raw whole => whole
  | .verbatim inner => Lowering.verbatim inner

/-- What a piece of a text is: a character, or a region. -/
def content : Piece Region → Char ⊕ Region
  | .char c => .inl c
  | .hit r _ _ => .inr r

/-- A character or a region as it stands in the source. -/
def sourceOf : Char ⊕ Region → Text
  | .inl c => [c]
  | .inr r => r.source

/-- What is recognised as a region is its source. -/
theorem region?_source {t : Text} {x : Region} {n : Nat} (h : region? t = some (x, n)) :
    ∃ r, t = x.source ++ r ∧ n = x.source.length ∧ x.source ≠ [] := by
  obtain ⟨b, r, rfl, rfl, length⟩ | ⟨inner, r, rfl, rfl, length⟩ := region?_cases h
  · exact ⟨r, rfl, length, RawBlock.shown_ne_nil b⟩
  · have whole : "@verbatim".toList ++ (inner ++ ("@endverbatim".toList ++ r)) =
        Lowering.verbatim inner ++ r := by
      unfold Lowering.verbatim
      generalize ("@verbatim".toList : Text) = opening
      generalize ("@endverbatim".toList : Text) = closing
      rw [List.append_assoc, List.append_assoc]
    rw [← length_verbatim] at length
    exact ⟨r, whole, length, verbatim_ne_nil inner⟩

/-- **A text is put together again from its characters and regions.** -/
theorem flatMap_sourceOf_pieces : ∀ (t : Text) (pos skip : Nat),
    ((piecesFrom region? pos skip t).map content).flatMap sourceOf = t.drop skip
  | [], _, skip => by cases skip <;> rfl
  | c :: t, pos, skip + 1 => flatMap_sourceOf_pieces t (pos + 1) skip
  | c :: t, pos, 0 => by
    rw [piecesFrom]
    split
    · next x n hx =>
      obtain ⟨r, e, rfl, full⟩ := region?_source hx
      obtain ⟨d, more, hd⟩ := List.exists_cons_of_ne_nil full
      rw [List.map_cons, List.flatMap_cons, flatMap_sourceOf_pieces]
      rw [hd, List.cons_append] at e
      obtain ⟨rfl, rfl⟩ := List.cons.inj e
      show x.source ++ _ = _
      rw [hd, List.length_cons, Nat.add_sub_cancel, List.drop_left]
      rfl
    · exact congrArg (c :: ·) (flatMap_sourceOf_pieces t (pos + 1) 0)

theorem flatMap_sourceOf_chars (t : Text) : (t.map Sum.inl).flatMap sourceOf = t := by
  rw [List.flatMap_map]
  exact List.flatMap_singleton' t

/-! ### Parts with gaps -/

/-- Parts with regions in their gaps, as characters and regions. -/
def contents : List Region → List Part → List (Char ⊕ Region)
  | _, [] => []
  | rs, p :: ps =>
    if p = gap then (rs.head?.map Sum.inr).toList ++ contents rs.tail ps
    else p.shown.map Sum.inl ++ contents rs ps

theorem contents_append : ∀ (rs : List Region) (ps qs : List Part),
    contents rs (ps ++ qs) = contents rs ps ++ contents (rs.drop (ps.count gap)) qs
  | _, [], _ => rfl
  | rs, p :: ps, qs => by
    rw [List.cons_append, contents, contents]
    split
    · next h =>
      rw [contents_append, List.append_assoc, h, List.count_cons_self, List.drop_tail]
    · next h => rw [contents_append, List.append_assoc, List.count_cons_of_ne h]

theorem contents_of_not_mem (rs : List Region) : ∀ {ps : List Part}, gap ∉ ps →
    contents rs ps = (shownAll ps).map Sum.inl
  | [], _ => rfl
  | p :: ps, h => by
    rw [List.mem_cons, not_or] at h
    rw [contents, if_neg (Ne.symm h.1), contents_of_not_mem rs h.2, shownAll_cons, List.map_append]

/-- Characters and regions with placeholders for the regions, numbered from `n` on. -/
def guarded : Nat → List (Char ⊕ Region) → Text
  | _, [] => []
  | n, .inl c :: r => c :: guarded n r
  | n, .inr _ :: r => guardToken n ++ guarded (n + 1) r

theorem guardPieces_eq : ∀ (n : Nat) (ps : List (Piece Region)),
    guardPieces n ps = guarded n (ps.map content)
  | _, [] => rfl
  | n, .char c :: ps => congrArg (c :: ·) (guardPieces_eq n ps)
  | n, .hit _ _ _ :: ps => congrArg (guardToken n ++ ·) (guardPieces_eq (n + 1) ps)

theorem guarded_chars (n : Nat) (r : List (Char ⊕ Region)) : ∀ t : Text,
    guarded n (t.map Sum.inl ++ r) = t ++ guarded n r
  | [] => rfl
  | c :: t => congrArg (c :: ·) (guarded_chars n r t)

theorem guarded_contents : ∀ (n : Nat) {rs : List Region} {ps : List Part},
    rs.length = ps.count gap → guarded n (contents rs ps) = shownAll (numberedParts n ps)
  | _, _, [], _ => rfl
  | n, rs, p :: ps, h => by
    rw [contents, numberedParts]
    split
    · next hp =>
      rw [hp, List.count_cons_self] at h
      cases rs with
      | nil => cases h
      | cons r rs =>
        exact congrArg (guardToken n ++ ·) (guarded_contents (n + 1) (Nat.succ.inj h))
    · next hp =>
      rw [List.count_cons_of_ne hp] at h
      rw [guarded_chars, guarded_contents n h, shownAll_cons]

theorem regions_contents : ∀ {rs : List Region} {ps : List Part}, rs.length = ps.count gap →
    (contents rs ps).filterMap Sum.getRight? = rs
  | rs, [], h => (List.length_eq_zero_iff.mp h).symm
  | rs, p :: ps, h => by
    rw [contents]
    split
    · next hp =>
      rw [hp, List.count_cons_self] at h
      cases rs with
      | nil => cases h
      | cons r rs => exact congrArg (r :: ·) (regions_contents (Nat.succ.inj h))
    · next hp =>
      rw [List.count_cons_of_ne hp] at h
      rw [List.filterMap_append, regions_contents h, List.filterMap_map]
      simp

/-- The characters and regions of a text, with what is restored for the regions. -/
theorem guardRegions_eq (t : Text) (wrap : Bool) : guardRegions t wrap =
    (guarded 0 ((pieces region? t).map content),
      (((pieces region? t).map content).filterMap Sum.getRight?).map (Region.restored wrap)) := by
  have value : ∀ p : Piece Region, p.value? = (content p).getRight? := fun p => by cases p <;> rfl
  have found : hits region? t = ((pieces region? t).map content).filterMap Sum.getRight? := by
    rw [List.filterMap_map, hits_eq]
    exact List.filterMap_congr fun p _ => value p
  rw [guardRegions, guardPieces_eq, found]

/-- **Guarding leaves the parts of a text with placeholders in the gaps.** -/
theorem guardRegions_contents {t : Text} {rs : List Region} {ps : List Part}
    (scanned : (pieces region? t).map content = contents rs ps)
    (counted : rs.length = ps.count gap) (wrap : Bool) :
    guardRegions t wrap = (shownAll (numberedParts 0 ps), rs.map (Region.restored wrap)) := by
  rw [guardRegions_eq, scanned, guarded_contents 0 counted, regions_contents counted]

/-! ### Restoring around a marker -/

/-- A placeholder does not run into a bracket. -/
theorem guardToken?_parted (t r : Text) : guardToken? (t ++ '<' :: r) = guardToken? t := by
  have lead : dropLead? "\x00hk:guard:" (t ++ '<' :: r) =
      (dropLead? "\x00hk:guard:" t).map (· ++ '<' :: r) := dropLead?_parted (by decide) t r
  unfold guardToken?
  rw [lead]
  cases dropLead? "\x00hk:guard:" t with
  | none => rfl
  | some rest =>
    have digits : (rest ++ '<' :: r).takeWhile isDecimal = rest.takeWhile isDecimal := by
      rw [List.takeWhile_append, List.takeWhile_cons_of_neg (by decide), List.append_nil]
      split
      · next e => exact ((List.takeWhile_prefix isDecimal).eq_of_length e).symm
      · rfl
    have behind : (rest ++ '<' :: r).drop (rest.takeWhile isDecimal).length =
        rest.drop (rest.takeWhile isDecimal).length ++ '<' :: r :=
      List.drop_append_of_le_length (List.takeWhile_prefix isDecimal).length_le
    have close := dropLead?_parted (x := '<') (by decide : '<' ∉ "\x00".toList)
      (rest.drop (rest.takeWhile isDecimal).length) r
    simp only [Option.map_some, Option.bind_eq_bind, Option.bind_some, digits, behind, close]
    cases natOfDigits? (rest.takeWhile isDecimal) with
    | none => rfl
    | some n =>
      cases dropLead? "\x00" (rest.drop (rest.takeWhile isDecimal).length) with
      | none => rfl
      | some after =>
        simp only [Option.map_some, Option.bind_some, List.length_append]
        congr 2
        omega

theorem length_of_guardToken? {t : Text} {n k : Nat} (h : guardToken? t = some (n, k)) :
    k ≤ t.length := by
  unfold guardToken? at h
  obtain ⟨rest, -, h⟩ := Option.bind_eq_some_iff.mp h
  obtain ⟨m, -, h⟩ := Option.bind_eq_some_iff.mp h
  obtain ⟨after, -, h⟩ := Option.bind_eq_some_iff.mp h
  obtain rfl := (Prod.mk.inj (Option.some.inj h)).2
  exact Nat.sub_le ..

theorem restorePieces_append (regions : List Text) : ∀ ps qs : List (Piece Nat),
    restorePieces regions (ps ++ qs) = do
      let x ← restorePieces regions ps
      let y ← restorePieces regions qs
      return x ++ y
  | [], qs => by
    rw [List.nil_append, restorePieces]
    cases restorePieces regions qs <;> rfl
  | .char c :: ps, qs => by
    rw [List.cons_append, restorePieces, restorePieces, restorePieces_append regions ps qs]
    cases restorePieces regions ps with
    | error e => rfl
    | ok x => cases restorePieces regions qs <;> rfl
  | .hit n i j :: ps, qs => by
    rw [List.cons_append, restorePieces, restorePieces]
    cases regions[n]? with
    | none => rfl
    | some region =>
      simp only
      rw [restorePieces_append regions ps qs]
      cases restorePieces regions ps with
      | error e => rfl
      | ok x =>
        cases restorePieces regions qs with
        | error e => rfl
        | ok y => exact congrArg Except.ok (List.append_assoc region x y).symm

/-- Where a text stands does not show in what is restored. -/
theorem restorePieces_place (regions : List Text) : ∀ (t : Text) (pos pos' skip : Nat),
    restorePieces regions (piecesFrom guardToken? pos skip t) =
      restorePieces regions (piecesFrom guardToken? pos' skip t)
  | [], _, _, skip => by cases skip <;> rfl
  | c :: t, pos, pos', skip + 1 => restorePieces_place regions t (pos + 1) (pos' + 1) skip
  | c :: t, pos, pos', 0 => by
    rw [piecesFrom, piecesFrom]
    split
    · rw [restorePieces, restorePieces, restorePieces_place regions t (pos + 1) (pos' + 1)]
    · rw [restorePieces, restorePieces, restorePieces_place regions t (pos + 1) (pos' + 1)]

/-- A text as it is given out: the regions are back in their places, and every sentinel is an at sign
again. -/
def settled (rs : List Region) (t : Text) : Except Failure Text :=
  (restoreRegions t (rs.map (Region.restored true))).map restoreMarkers

/-- **A text is given out around a marker**: what stands in front of it and behind it, each by
itself, and the marker as it is. -/
theorem settled_around (rs : List Region) {m : Text} (opens : ∃ v, m = '<' :: v)
    (closes : m.getLast? = some '>') (visible : '\x00' ∉ m) (x y : Text) :
    settled rs (x ++ (m ++ y)) = do
      let u ← settled rs x
      let v ← settled rs y
      return u ++ (m ++ v) := by
  have swapped : ∀ u v : Text,
      restoreMarkers (u ++ (m ++ v)) = restoreMarkers u ++ (m ++ restoreMarkers v) := by
    intro u v
    have whole : restoreMarkers m = m := restoreMarkers_eq_self visible
    have behind : restoreMarkers (m ++ v) = m ++ restoreMarkers v :=
      (replaceAll_behind mark_sentinel.ne_nil _ (by decide) closes v).trans
        (congrArg (· ++ restoreMarkers v) whole)
    obtain ⟨w, rfl⟩ := opens
    have front : restoreMarkers (u ++ '<' :: (w ++ v)) =
        restoreMarkers u ++ '<' :: restoreMarkers (w ++ v) :=
      replaceAll_parted mark_sentinel.ne_nil _ (by decide) u (w ++ v)
    have first : restoreMarkers ('<' :: (w ++ v)) = '<' :: restoreMarkers (w ++ v) :=
      replaceAll_parted mark_sentinel.ne_nil _ (by decide) [] (w ++ v)
    rw [List.cons_append] at behind ⊢
    rw [front, ← first, behind]
  have pieces : ∀ regions : List Text, restoreRegions (x ++ (m ++ y)) regions = do
      let u ← restoreRegions x regions
      let v ← restoreRegions y regions
      return u ++ (m ++ v) := by
    intro regions
    have split := @piecesFrom_append _ guardToken? (m ++ y) x 0 0 (Nat.zero_le _)
      (fun c v _ => by
        obtain ⟨w, rfl⟩ := opens
        exact guardToken?_parted (c :: v) (w ++ y))
      (fun c v a n _ h => length_of_guardToken? h)
    have marks := piecesFrom_quiet guardToken? (0 + x.length) m y
      (guardToken?_leads.quiet visible y)
    rw [restoreRegions, Text.pieces, split, marks, restorePieces_append, restorePieces_append,
      restorePieces_char, restorePieces_place regions y _ 0]
    show (restoreRegions x regions).bind _ = (restoreRegions x regions).bind _
    cases restoreRegions x regions with
    | error e => rfl
    | ok u =>
      show ((restoreRegions y regions).bind _).bind _ = (restoreRegions y regions).bind _
      cases restoreRegions y regions <;> rfl
  unfold settled
  rw [pieces]
  cases restoreRegions x (rs.map (Region.restored true)) with
  | error e => rfl
  | ok u =>
    cases restoreRegions y (rs.map (Region.restored true)) with
    | error e => rfl
    | ok v => exact congrArg Except.ok (swapped u v)

end Pagewright.Lowering
