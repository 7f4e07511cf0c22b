import Pagewright.Proofs.Text.Scan

/-! # Reading up to a character

A character that a piece of text cannot hold ends the reading of such pieces: what begins in front
of it is there whether or not the text goes on with it (`dropLead?_parted`, `stripLeft_parted`,
`cutAt?_parted`).  So a scan goes over two texts one after the other, where the recogniser sees
nothing of the second from the first (`piecesFrom_append`, `replaceHits_append`). -/

namespace Pagewright.Text

variable {x : Char}

/-! ### Beginnings and separators -/

theorem dropLead?_parted : ∀ {lead : Text}, x ∉ lead → ∀ t r : Text,
    dropLead? lead (t ++ x :: r) = (dropLead? lead t).map (· ++ x :: r)
  | [], _, t, r => by simp [dropLead?]
  | l :: lead, h, [], r => by
      have hl : l ≠ x := fun e => h (e ▸ List.mem_cons_self)
      rw [List.nil_append, dropLead?_cons_of_ne lead r hl, dropLead?]
      rfl
  | l :: lead, h, c :: t, r => by
      have ih := dropLead?_parted (fun hm => h (List.mem_cons_of_mem l hm)) t r
      rw [List.cons_append, dropLead?, dropLead?, ih]
      split <;> rfl

/-- A stretch without the character stands in front of it or behind it. -/
theorem infix_parted {α : Type} {x : α} {stretch u r : List α} (hx : x ∉ stretch)
    (h : stretch <:+: u ++ x :: r) : stretch <:+: u ∨ stretch <:+: r := by
  obtain ⟨v, lead, hv⟩ := List.infix_iff_prefix_suffix.mp h
  obtain behind | ⟨w, -, hw, rfl⟩ := suffix_append_cases hv
  · obtain rfl | later := List.suffix_cons_iff.mp behind
    · have empty : stretch <+: [] := prefix_of_not_mem (t := []) hx lead
      exact Or.inl (empty.trans List.nil_prefix).isInfix
    · exact Or.inr (lead.isInfix.trans later.isInfix)
  · exact Or.inl ((prefix_of_not_mem hx lead).isInfix.trans hw.isInfix)

/-- A stretch that shares no character with a text stands in front of that text or behind it. -/
theorem infix_around {stretch r : Text} : ∀ {w u : Text}, w ≠ [] → (∀ x ∈ w, x ∉ stretch) →
    stretch <:+: u ++ (w ++ r) → stretch <:+: u ∨ stretch <:+: r
  | [], _, hg, _, _ => absurd rfl hg
  | x :: w, u, _, hw, h => by
      obtain ⟨first, others⟩ := List.forall_mem_cons.mp hw
      obtain front | behind := infix_parted first h
      · exact Or.inl front
      · cases w with
        | nil => exact Or.inr behind
        | cons y w =>
            obtain empty | later := infix_around (u := []) (List.cons_ne_nil y w) others behind
            · exact Or.inl (empty.trans (List.nil_infix))
            · exact Or.inr later

theorem stripLeft_parted (h : isSpace x = false) : ∀ t r : Text,
    stripLeft (t ++ x :: r) = stripLeft t ++ x :: r
  | [], r => List.dropWhile_cons_of_neg (by simp [h])
  | c :: t, r => by
      have ih := stripLeft_parted h t r
      unfold stripLeft at ih ⊢
      rw [List.cons_append, List.dropWhile_cons, List.dropWhile_cons, ih]
      split <;> rfl

/-- A separator stands in front of the character, or behind it. -/
theorem cutAt?_parted {sep : Text} (hs : sep ≠ []) (h : x ∉ sep) : ∀ t r : Text,
    cutAt? sep (t ++ x :: r) = match cutAt? sep t with
      | some (before, after) => some (before, after ++ x :: r)
      | none => (cutAt? sep r).map fun (before, after) => (t ++ x :: before, after)
  | [], r => by
      have hd : dropLead? sep (x :: r) = none :=
        dropLead?_eq_none.mpr fun hp => by
          obtain ⟨c, more, rfl⟩ := List.exists_cons_of_ne_nil hs
          exact h ((List.cons_prefix_cons.mp hp).1 ▸ List.mem_cons_self)
      have he : sep.isEmpty = false := by rw [Bool.eq_false_iff, Ne, List.isEmpty_iff]; exact hs
      simp only [List.nil_append, cutAt?, hd, he]
      rfl
  | c :: t, r => by
      have hd := dropLead?_parted h (c :: t) r
      have ih := cutAt?_parted hs h t r
      rw [List.cons_append] at hd
      rw [List.cons_append, cutAt?, hd, cutAt?]
      cases dropLead? sep (c :: t) with
      | some rest => rfl
      | none =>
          simp only [Option.map_none, ih]
          cases cutAt? sep t with
          | some found => rfl
          | none => cases cutAt? sep r <;> rfl

/-- A stretch in which no separator begins stands in front of the first one. -/
theorem cutAt?_quiet {sep r : Text} : ∀ {u : Text},
    (∀ c v, c :: v <:+ u → dropLead? sep (c :: v ++ r) = none) →
    cutAt? sep (u ++ r) = (cutAt? sep r).map fun (before, after) => (u ++ before, after)
  | [], _ => by
      rw [List.nil_append]
      cases cutAt? sep r <;> rfl
  | c :: u, h => by
      have hc : dropLead? sep (c :: (u ++ r)) = none := h c u List.suffix_rfl
      have hu := cutAt?_quiet fun d v hv => h d v (hv.trans (List.suffix_cons c u))
      rw [List.cons_append, cutAt?, hc, hu]
      cases cutAt? sep r <;> rfl

theorem cutAt?_self {sep : Text} (hs : sep ≠ []) (r : Text) :
    cutAt? sep (sep ++ r) = some ([], r) := by
  obtain ⟨c, more, rfl⟩ := List.exists_cons_of_ne_nil hs
  have lead := dropLead?_append (c :: more) r
  rw [List.cons_append] at lead ⊢
  rw [cutAt?, lead]

/-- A text is cut at the first place of a character. -/
theorem cutAt?_char {u : Text} (r : Text) (h : x ∉ u) : cutAt? [x] (u ++ x :: r) = some (u, r) := by
  have self : cutAt? [x] (x :: r) = some ([], r) := cutAt?_self (List.cons_ne_nil x []) r
  have quiet : ∀ c v, c :: v <:+ u → dropLead? [x] (c :: v ++ x :: r) = none := fun c v hv =>
    dropLead?_cons_of_ne [] _ fun e => h (hv.subset (e ▸ List.mem_cons_self))
  rw [cutAt?_quiet quiet, self]
  exact congrArg (fun t => some (t, r)) (List.append_nil u)

theorem eq_of_cutAt? {sep : Text} : ∀ {t before after : Text}, cutAt? sep t = some (before, after) →
    t = before ++ (sep ++ after)
  | [], before, after, h => by
      rw [cutAt?] at h
      split at h
      · next e =>
        obtain ⟨rfl, rfl⟩ := Prod.mk.inj (Option.some.inj h)
        rw [List.isEmpty_iff.mp e]
        rfl
      · cases h
  | c :: t, before, after, h => by
      rw [cutAt?] at h
      split at h
      · next rest e =>
        obtain ⟨rfl, rfl⟩ := Prod.mk.inj (Option.some.inj h)
        rw [List.nil_append]
        exact eq_append_of_dropLead? e
      · obtain ⟨⟨b, a⟩, hc, e⟩ := Option.map_eq_some_iff.mp h
        obtain ⟨rfl, rfl⟩ := Prod.mk.inj e
        rw [eq_of_cutAt? hc, List.cons_append]

/-! ### Scans -/

variable {α : Type} {find : Recogniser α}

/-- A scan that recognises in the first of two texts what it would without the second goes over them
one after the other. -/
theorem piecesFrom_append {r : Text} : ∀ (u : Text) (pos skip : Nat), skip ≤ u.length →
    (∀ c v, c :: v <:+ u → find (c :: v ++ r) = find (c :: v)) →
    (∀ c v a n, c :: v <:+ u → find (c :: v) = some (a, n) → n ≤ (c :: v).length) →
    piecesFrom find pos skip (u ++ r) =
      piecesFrom find pos skip u ++ piecesFrom find (pos + u.length) 0 r
  | [], pos, skip, hs, _, _ => by
      obtain rfl := Nat.le_zero.mp hs
      rw [piecesFrom]
      rfl
  | c :: u, pos, skip, hs, same, inside => by
      have behind : ∀ skip, skip ≤ u.length → piecesFrom find (pos + 1) skip (u ++ r) =
          piecesFrom find (pos + 1) skip u ++ piecesFrom find (pos + (c :: u).length) 0 r := by
        intro skip hs
        rw [piecesFrom_append u (pos + 1) skip hs
          (fun d v hv => same d v (hv.trans (List.suffix_cons c u)))
          (fun d v a n hv => inside d v a n (hv.trans (List.suffix_cons c u))), List.length_cons]
        congr 2
        omega
      cases skip with
      | succ k =>
          rw [List.cons_append, piecesFrom, piecesFrom]
          exact behind k (Nat.le_of_succ_le_succ hs)
      | zero =>
          have here := same c u List.suffix_rfl
          rw [List.cons_append] at here
          rw [List.cons_append, piecesFrom, piecesFrom, here]
          cases hf : find (c :: u) with
          | none =>
              simp only
              rw [behind 0 (Nat.zero_le _), List.cons_append]
          | some found =>
              obtain ⟨a, n⟩ := found
              have hn := inside c u a n List.suffix_rfl hf
              rw [List.length_cons] at hn
              simp only
              rw [behind (n - 1) (by omega), List.cons_append]

/-- What takes the place of a piece, if hits are replaced. -/
def Piece.replaced (new : α → Text) : Piece α → Text
  | .char c => [c]
  | .hit a _ _ => new a

theorem replaceHits_eq (new : α → Text) (t : Text) :
    replaceHits find new t = (piecesFrom find 0 0 t).flatMap (Piece.replaced new) := rfl

/-- Where a text stands does not show in what takes its place. -/
theorem replaced_piecesFrom (new : α → Text) : ∀ (t : Text) (pos pos' skip : Nat),
    (piecesFrom find pos skip t).flatMap (Piece.replaced new) =
      (piecesFrom find pos' skip t).flatMap (Piece.replaced new)
  | [], pos, pos', skip => by cases skip <;> rfl
  | c :: t, pos, pos', skip => by
      have ih := fun skip => replaced_piecesFrom new t (pos + 1) (pos' + 1) skip
      cases skip with
      | succ k => exact ih k
      | zero =>
          rw [piecesFrom, piecesFrom]
          cases find (c :: t) with
          | none => exact congrArg ([c] ++ ·) (ih 0)
          | some found => exact congrArg (new found.1 ++ ·) (ih (found.2 - 1))

/-- Two texts are replaced one after the other where a scan goes over them so. -/
theorem replaceHits_append (new : α → Text) {u r : Text}
    (same : ∀ c v, c :: v <:+ u → find (c :: v ++ r) = find (c :: v))
    (inside : ∀ c v a n, c :: v <:+ u → find (c :: v) = some (a, n) → n ≤ (c :: v).length) :
    replaceHits find new (u ++ r) = replaceHits find new u ++ replaceHits find new r := by
  rw [replaceHits_eq, replaceHits_eq, replaceHits_eq,
    piecesFrom_append u 0 0 (Nat.zero_le _) same inside, List.flatMap_append,
    replaced_piecesFrom new r (0 + u.length) 0]

/-- Hits stand inside the text. -/
theorem start_lt_of_mem_piecesFrom {a : α} {start stop : Nat} : ∀ {t : Text} {pos skip : Nat},
    .hit a start stop ∈ piecesFrom find pos skip t → start < pos + t.length
  | [], pos, skip, h => by cases skip <;> cases h
  | c :: t, pos, skip, h => by
      have later : ∀ {skip}, .hit a start stop ∈ piecesFrom find (pos + 1) skip t →
          start < pos + (c :: t).length := fun h => by
        have := start_lt_of_mem_piecesFrom h
        rw [List.length_cons]
        omega
      cases skip with
      | succ k => exact later h
      | zero =>
          rw [piecesFrom] at h
          split at h
          · obtain e | h := List.mem_cons.mp h
            · cases e
              rw [List.length_cons]
              omega
            · exact later h
          · obtain e | h := List.mem_cons.mp h
            · cases e
            · exact later h

end Pagewright.Text
