import Mathlib.Data.List.Infix
import Pagewright.Text.Scan

/-! # Scanning and replacing, stretch by stretch

How a scan goes over a text that is put together from known stretches: it steps over what it has
recognised (`piecesFrom_skip`), takes one hit (`piecesFrom_hit`), and passes a stretch in which
nothing is recognised character by character (`piecesFrom_quiet`).  A text in which nothing is
recognised is left as it is by every replacement.  Where the recogniser starts with a character of
its own (`Leads`), it is enough that the text does not hold that character. -/

namespace Pagewright.Text

/-! ### Beginnings and occurrences -/

theorem dropLead?_append : ∀ lead r : Text, dropLead? lead (lead ++ r) = some r
  | [], r => by cases r <;> rfl
  | l :: ls, r => by
      rw [List.cons_append, dropLead?, if_pos rfl]
      exact dropLead?_append ls r

theorem eq_append_of_dropLead? : ∀ {lead t r : Text}, dropLead? lead t = some r → t = lead ++ r
  | [], t, r, h => by
      rw [dropLead?] at h
      exact Option.some.inj h
  | l :: ls, [], r, h => by simp [dropLead?] at h
  | l :: ls, c :: cs, r, h => by
      rw [dropLead?] at h
      split at h
      · next hl => rw [hl, eq_append_of_dropLead? h, List.cons_append]
      · cases h

theorem dropLead?_eq_none {lead t : Text} : dropLead? lead t = none ↔ ¬ lead <+: t := by
  constructor
  · rintro h ⟨r, rfl⟩
    rw [dropLead?_append] at h
    cases h
  · intro h
    cases hd : dropLead? lead t with
    | none => rfl
    | some r => exact absurd ⟨r, (eq_append_of_dropLead? hd).symm⟩ h

theorem dropLead?_cons_of_ne {l c : Char} (ls cs : Text) (h : l ≠ c) :
    dropLead? (l :: ls) (c :: cs) = none := by
  rw [dropLead?, if_neg h]

theorem dropLead?_eq_none_of_head? {l : Char} {ls t : Text} (h : t.head? ≠ some l) :
    dropLead? (l :: ls) t = none := by
  cases t with
  | nil => rfl
  | cons c r => exact dropLead?_cons_of_ne ls r fun e => h (congrArg some e.symm)

theorem splitFrom_of_not_infix (sep : Text) (hs : sep ≠ []) : ∀ t : Text, ¬ sep <:+: t →
    splitFrom sep 0 t = (t, [])
  | [], _ => by rfl
  | c :: r, h => by
      have hp : sep.isPrefixOf (c :: r) = false := by
        rw [Bool.eq_false_iff, Ne, List.isPrefixOf_iff_prefix]
        exact fun hp => h hp.isInfix
      have hr : ¬ sep <:+: r := fun hr => h (hr.trans (List.suffix_cons c r).isInfix)
      rw [splitFrom, if_neg (by rw [hp]; simp), splitFrom_of_not_infix sep hs r hr]

/-- Where the old text does not occur, nothing is replaced. -/
theorem replaceAll_eq_self {old t : Text} (new : Text) (ho : old ≠ []) (h : ¬ old <:+: t) :
    replaceAll old new t = t := by
  have he : old.isEmpty = false := by rw [Bool.eq_false_iff, Ne, List.isEmpty_iff]; exact ho
  unfold replaceAll splitOn join
  rw [if_neg (by rw [he]; simp), splitFrom_of_not_infix old ho t h]
  simp [List.intercalate]

/-- A text without the first character of another text does not hold it. -/
theorem not_infix_of_not_mem {c : Char} {old t : Text} (h : c ∉ t) : ¬ (c :: old) <:+: t :=
  fun hi => h (hi.subset List.mem_cons_self)

/-- What begins a text, and does not hold the character that stands behind a part of it, begins that
part. -/
theorem prefix_of_not_mem {α : Type} {x : α} : ∀ {l t r : List α}, x ∉ l → l <+: t ++ x :: r → l <+: t
  | [], t, _, _, _ => List.nil_prefix
  | d :: l, [], r, hx, h => by
      obtain ⟨rfl, -⟩ := List.cons_prefix_cons.mp h
      exact absurd List.mem_cons_self hx
  | d :: l, c :: t, r, hx, h => by
      obtain ⟨e, behind⟩ := List.cons_prefix_cons.mp h
      have inside := prefix_of_not_mem (fun hm => hx (List.mem_cons_of_mem d hm)) behind
      exact List.cons_prefix_cons.mpr ⟨e, inside⟩

/-! ### Pieces -/

/-- An ending of two texts is one of the second, or takes in the second and an ending of the first.
-/
theorem suffix_append_cases {α : Type} {u r v : List α} (h : v <:+ u ++ r) :
    v <:+ r ∨ ∃ w, w ≠ [] ∧ w <:+ u ∧ v = w ++ r := by
  obtain ⟨a, e⟩ := h
  obtain ⟨m, rfl, rfl⟩ | ⟨m, rfl, rfl⟩ := List.append_eq_append_iff.mp e
  · cases m with
    | nil => exact Or.inl List.suffix_rfl
    | cons c m => exact Or.inr ⟨c :: m, List.cons_ne_nil c m, List.suffix_append a _, rfl⟩
  · exact Or.inl (List.suffix_append m v)

variable {α : Type}

/-- What a recogniser has covered is stepped over. -/
theorem piecesFrom_skip (find : Recogniser α) : ∀ (pos : Nat) (u r : Text),
    piecesFrom find pos u.length (u ++ r) = piecesFrom find (pos + u.length) 0 r
  | pos, [], r => rfl
  | pos, c :: u, r => by
      rw [List.length_cons, List.cons_append, piecesFrom, piecesFrom_skip find (pos + 1) u r]
      congr 1
      omega

theorem piecesFrom_char {find : Recogniser α} {c : Char} {r : Text} (pos : Nat)
    (h : find (c :: r) = none) :
    piecesFrom find pos 0 (c :: r) = .char c :: piecesFrom find (pos + 1) 0 r := by
  rw [piecesFrom, h]

/-- One hit, and the scan of what follows it. -/
theorem piecesFrom_hit (find : Recogniser α) {u r : Text} {a : α} (pos : Nat) (hu : u ≠ [])
    (h : find (u ++ r) = some (a, u.length)) :
    piecesFrom find pos 0 (u ++ r) =
      .hit a pos (pos + u.length) :: piecesFrom find (pos + u.length) 0 r := by
  cases u with
  | nil => exact absurd rfl hu
  | cons c u =>
      rw [List.cons_append, List.length_cons] at h
      rw [List.cons_append, piecesFrom, h]
      simp only [Nat.add_sub_cancel, List.length_cons]
      rw [piecesFrom_skip find (pos + 1) u r]
      congr 2
      omega

/-- A stretch in which nothing is recognised is passed character by character. -/
theorem piecesFrom_quiet (find : Recogniser α) : ∀ (pos : Nat) (u r : Text),
    (∀ c v, c :: v <:+ u → find (c :: v ++ r) = none) →
    piecesFrom find pos 0 (u ++ r) = u.map .char ++ piecesFrom find (pos + u.length) 0 r
  | pos, [], r, _ => rfl
  | pos, c :: u, r, h => by
      have hc : find (c :: (u ++ r)) = none := h c u List.suffix_rfl
      rw [List.cons_append, piecesFrom_char pos hc, piecesFrom_quiet find (pos + 1) u r
        fun d v hv => h d v (hv.trans (List.suffix_cons c u))]
      rw [List.map_cons, List.cons_append, List.length_cons]
      congr 3
      omega

theorem pieces_quiet {find : Recogniser α} {t : Text}
    (h : ∀ c v, c :: v <:+ t → find (c :: v) = none) : pieces find t = t.map .char := by
  have e := piecesFrom_quiet find 0 t [] fun c v hv => by rw [List.append_nil]; exact h c v hv
  rw [List.append_nil] at e
  exact e.trans (by rw [piecesFrom, List.append_nil])

theorem replaceHits_quiet {find : Recogniser α} {t : Text} (new : α → Text)
    (h : ∀ c v, c :: v <:+ t → find (c :: v) = none) : replaceHits find new t = t := by
  rw [replaceHits, pieces_quiet h, List.flatMap_map]
  exact List.flatMap_singleton' t

theorem hits_quiet {find : Recogniser α} {t : Text}
    (h : ∀ c v, c :: v <:+ t → find (c :: v) = none) : hits find t = [] := by
  rw [hits, pieces_quiet h, List.filterMap_map]
  simp

theorem hitSpans_quiet {find : Recogniser α} {t : Text}
    (h : ∀ c v, c :: v <:+ t → find (c :: v) = none) : hitSpans find t = [] := by
  rw [hitSpans, pieces_quiet h, List.filterMap_map]
  simp

theorem exists_of_mem_piecesFrom {find : Recogniser α} {a : α} {start stop : Nat} :
    ∀ {t : Text} {pos skip : Nat}, .hit a start stop ∈ piecesFrom find pos skip t →
      ∃ u r n, t = u ++ r ∧ find r = some (a, n)
  | [], pos, skip, h => by cases skip <;> cases h
  | c :: t, pos, skip, h => by
      have later : ∀ {pos skip}, .hit a start stop ∈ piecesFrom find pos skip t →
          ∃ u r n, c :: t = u ++ r ∧ find r = some (a, n) := by
        intro pos skip h
        obtain ⟨u, r, n, rfl, hr⟩ := exists_of_mem_piecesFrom h
        exact ⟨c :: u, r, n, rfl, hr⟩
      cases skip with
      | succ k => exact later h
      | zero =>
          rw [piecesFrom] at h
          split at h
          · next b n hb =>
            obtain e | h := List.mem_cons.mp h
            · cases e
              exact ⟨[], c :: t, n, rfl, hb⟩
            · exact later h
          · obtain e | h := List.mem_cons.mp h
            · cases e
            · exact later h

theorem mem_of_char_mem {find : Recogniser α} {d : Char} : ∀ {t : Text} {pos skip : Nat},
    .char d ∈ piecesFrom find pos skip t → d ∈ t
  | [], pos, skip, h => by cases skip <;> cases h
  | c :: t, pos, skip, h => by
      cases skip with
      | succ k => exact List.mem_cons_of_mem c (mem_of_char_mem h)
      | zero =>
          rw [piecesFrom] at h
          split at h
          · obtain e | h := List.mem_cons.mp h
            · cases e
            · exact List.mem_cons_of_mem c (mem_of_char_mem h)
          · obtain e | h := List.mem_cons.mp h
            · cases e
              exact List.mem_cons_self
            · exact List.mem_cons_of_mem c (mem_of_char_mem h)

/-- Taking hits away adds no character. -/
theorem mem_of_mem_replaceHits {find : Recogniser α} {d : Char} {t : Text}
    (h : d ∈ replaceHits find (fun _ => []) t) : d ∈ t := by
  obtain ⟨p, hp, hd⟩ := List.mem_flatMap.mp h
  cases p with
  | char c =>
      obtain rfl := List.mem_singleton.mp hd
      exact mem_of_char_mem hp
  | hit a start stop => cases hd

/-- What a piece has recognised. -/
def Piece.value? : Piece α → Option α
  | .char _ => none
  | .hit a _ _ => some a

theorem hits_eq (find : Recogniser α) (t : Text) :
    hits find t = (pieces find t).filterMap Piece.value? := rfl

/-- A hit was recognised somewhere. -/
theorem exists_of_mem_hits {find : Recogniser α} {t : Text} {a : α} (h : a ∈ hits find t) :
    ∃ u r n, t = u ++ r ∧ find r = some (a, n) := by
  rw [hits_eq, List.mem_filterMap] at h
  obtain ⟨p, hp, e⟩ := h
  cases p with
  | char c => cases e
  | hit b start stop =>
      cases e
      exact exists_of_mem_piecesFrom hp

/-- A text in which a recogniser finds nothing. -/
def Nowhere (find : Recogniser α) (t : Text) : Prop := ∀ v, v <:+ t → find v = none

instance (find : Recogniser α) (t : Text) : Decidable (Nowhere find t) :=
  decidable_of_iff (∀ v ∈ t.tails, (find v).isNone = true) <| by
    simp only [Nowhere, List.mem_tails, Option.isNone_iff_eq_none]

theorem Nowhere.quiet {find : Recogniser α} {t : Text} (h : Nowhere find t) :
    ∀ c v, c :: v <:+ t → find (c :: v) = none := fun c v => h (c :: v)

theorem Nowhere.of_suffix {find : Recogniser α} {t v : Text} (h : Nowhere find t) (hv : v <:+ t) :
    Nowhere find v := fun w hw => h w (hw.trans hv)

/-! ### The first hit -/

/-- Behind a stretch in which nothing is recognised, the first hit is what is recognised there. -/
theorem firstHit?_append {find : Recogniser α} {r : Text} {a : α} {n : Nat}
    (hr : find r = some (a, n)) : ∀ {u : Text}, (∀ c v, c :: v <:+ u → find (c :: v ++ r) = none) →
      firstHit? find (u ++ r) = some (u.length, a, n)
  | [], _ => by
      rw [List.nil_append]
      cases r <;> rw [firstHit?, hr] <;> rfl
  | c :: u, h => by
      have hc : find (c :: (u ++ r)) = none := h c u List.suffix_rfl
      have hu := firstHit?_append hr fun d v hv => h d v (hv.trans (List.suffix_cons c u))
      rw [List.cons_append, firstHit?, hc]
      simp only [hu, Option.map_some, List.length_cons]

/-- The first hit parts a text. -/
theorem exists_of_firstHit? {find : Recogniser α} {a : α} {n : Nat} : ∀ {t : Text} {i : Nat},
    firstHit? find t = some (i, a, n) → ∃ u r, t = u ++ r ∧ u.length = i ∧
      find r = some (a, n) ∧ ∀ c v, c :: v <:+ u → find (c :: v ++ r) = none
  | [], i, h => by
      rw [firstHit?] at h
      obtain ⟨⟨b, m⟩, hb, e⟩ := Option.map_eq_some_iff.mp h
      cases e
      exact ⟨[], [], rfl, rfl, hb, fun c v hv => absurd (List.suffix_nil.mp hv) (by simp)⟩
  | c :: t, i, h => by
      rw [firstHit?] at h
      split at h
      · next b m hb =>
        cases h
        exact ⟨[], c :: t, rfl, rfl, hb, fun d v hv => absurd (List.suffix_nil.mp hv) (by simp)⟩
      · next hc =>
        obtain ⟨⟨j, b, m⟩, hj, e⟩ := Option.map_eq_some_iff.mp h
        cases e
        obtain ⟨u, r, rfl, rfl, hr, quiet⟩ := exists_of_firstHit? hj
        refine ⟨c :: u, r, rfl, rfl, hr, fun d v hv => ?_⟩
        obtain e | hv := List.suffix_cons_iff.mp hv
        · obtain ⟨rfl, rfl⟩ := List.cons.inj e
          exact hc
        · exact quiet d v hv

/-! ### Recognisers with a first character of their own -/

/-- Whatever the recogniser finds starts with the character. -/
def Leads (x : Char) (find : Recogniser α) : Prop := ∀ c r, c ≠ x → find (c :: r) = none

theorem Leads.quiet {x : Char} {find : Recogniser α} (hl : Leads x find) {t : Text} (h : x ∉ t)
    (r : Text) : ∀ c v, c :: v <:+ t → find (c :: v ++ r) = none := by
  intro c v hv
  exact hl c (v ++ r) fun e => h (e ▸ hv.subset List.mem_cons_self)

theorem Leads.quiet_self {x : Char} {find : Recogniser α} (hl : Leads x find) {t : Text}
    (h : x ∉ t) : ∀ c v, c :: v <:+ t → find (c :: v) = none := by
  intro c v hv
  have e := hl.quiet h [] c v hv
  rwa [List.append_nil] at e

theorem firstHit?_of_leads {x : Char} {find : Recogniser α} (hl : Leads x find)
    (hn : find [] = none) : ∀ {t : Text}, x ∉ t → firstHit? find t = none
  | [], _ => by rw [firstHit?, hn]; rfl
  | c :: r, h => by
      have hc : c ≠ x := fun e => h (e ▸ List.mem_cons_self)
      have hr := firstHit?_of_leads hl hn fun hm => h (List.mem_cons_of_mem c hm)
      rw [firstHit?, hl c r hc, hr]
      rfl

theorem pieces_of_leads {x : Char} {find : Recogniser α} (hl : Leads x find) {t : Text}
    (h : x ∉ t) : pieces find t = t.map .char :=
  pieces_quiet (hl.quiet_self h)

end Pagewright.Text
