import Pagewright.Proofs.Assembly.Marker
import Pagewright.Proofs.Assembly.Stretch
import Pagewright.Proofs.Text.Parted

/-! # Scans and the text between their hits

A scan cuts a text into its hits and the text between them, in turn.  If hits are recognised by how they
are written (`Recites`), both together are the text again (`weave_piecesFrom`), and between the hits
nothing is recognised (`find_of_mem_gaps`).  Replacing the hits leaves what is between them as it is
(`weave_replaceHits`), so a place of a stack is left behind only by what was put in
(`flushStacks_placeless_iff`).

Main definitions: `gaps`, `Recites`, `Placeless`. -/

namespace Pagewright.Assembly

open Text

/-- The text between the hits of a scan. -/
def gaps {α : Type} : List (Piece α) → List Text
  | [] => [[]]
  | .char c :: ps => (gaps ps).modifyHead (c :: ·)
  | .hit _ _ _ :: ps => [] :: gaps ps

/-- What is recognised stands there as it is written. -/
structure Recites {α : Type} (find : Recogniser α) (written : α → Text) : Prop where
  given : ∀ a, written a ≠ []
  read : ∀ {t : Text} {a : α} {n : Nat}, find t = some (a, n) →
    ∃ r, t = written a ++ r ∧ n = (written a).length

section Weaving

variable {α : Type} {find : Recogniser α}

@[simp] theorem values_char (c : Char) (ps : List (Piece α)) :
    (Piece.char c :: ps).filterMap Piece.value? = ps.filterMap Piece.value? := rfl

@[simp] theorem values_hit (a : α) (start stop : Nat) (ps : List (Piece α)) :
    (Piece.hit a start stop :: ps).filterMap Piece.value? = a :: ps.filterMap Piece.value? := rfl

/-- A scan without hits has seen every place of the text. -/
theorem quiet_of_values {pos : Nat} : ∀ {t : Text},
    (piecesFrom find pos 0 t).filterMap Piece.value? = [] →
      ∀ c v, c :: v <:+ t → find (c :: v) = none
  | [], _, c, v, hv => absurd (List.suffix_nil.mp hv) (List.cons_ne_nil c v)
  | d :: t, h, c, v, hv => by
      cases hf : find (d :: t) with
      | some found =>
        rw [piecesFrom, hf, values_hit] at h
        cases h
      | none =>
        rw [piecesFrom_char pos hf, values_char] at h
        rcases List.suffix_cons_iff.mp hv with e | hv
        · rw [e]
          exact hf
        · exact quiet_of_values h c v hv

theorem gaps_ne_nil : ∀ ps : List (Piece α), gaps ps ≠ []
  | [] => List.cons_ne_nil _ _
  | .char c :: ps => by
      obtain ⟨g, gs, h⟩ := List.exists_cons_of_ne_nil (gaps_ne_nil ps)
      rw [gaps, h]
      exact List.cons_ne_nil _ _
  | .hit _ _ _ :: ps => List.cons_ne_nil _ _

theorem length_gaps : ∀ ps : List (Piece α),
    (gaps ps).length = (ps.filterMap Piece.value?).length + 1
  | [] => rfl
  | .char c :: ps => by
      rw [gaps, List.length_modifyHead, length_gaps ps, values_char]
  | .hit a start stop :: ps => by
      rw [gaps, List.length_cons, length_gaps ps, values_hit, List.length_cons]

theorem weave_modifyHead (c : Char) {gs : List Text} (h : gs ≠ []) (ks : List Text) :
    weave (gs.modifyHead (c :: ·)) ks = c :: weave gs ks := by
  obtain ⟨g, gs, rfl⟩ := List.exists_cons_of_ne_nil h
  cases ks <;> rfl

theorem length_weave : ∀ {gs ks : List Text}, ks.length < gs.length →
    (weave gs ks).length = gs.flatten.length + ks.flatten.length
  | [], ks, h => absurd h (Nat.not_lt_zero _)
  | g :: gs, [], _ => rfl
  | g :: gs, k :: ks, h => by
      have rest := length_weave (Nat.lt_of_succ_lt_succ h)
      simp only [weave, List.flatten_cons, List.length_append, rest]
      omega

/-- A text is what stands between the hits of a scan and the hits as they are written, in turn. -/
theorem weave_piecesFrom {written : α → Text} (h : Recites find written) (pos : Nat) (t : Text) :
    weave (gaps (piecesFrom find pos 0 t))
      (((piecesFrom find pos 0 t).filterMap Piece.value?).map written) = t := by
  -- A hit is stepped over whole, so the induction is on the length of what is left.
  induction hn : t.length using Nat.strong_induction_on generalizing pos t with
  | _ n ih =>
    cases t with
    | nil => rfl
    | cons c r =>
      cases hf : find (c :: r) with
      | none =>
        have rest := ih r.length (by rw [← hn]; exact Nat.lt_succ_self _) (pos + 1) r rfl
        rw [piecesFrom_char pos hf, gaps, weave_modifyHead c (gaps_ne_nil _),
          values_char, rest]
      | some found =>
        obtain ⟨a, m⟩ := found
        obtain ⟨after, whole, rfl⟩ := h.read hf
        have longer : 0 < (written a).length := List.length_pos_iff.mpr (h.given a)
        rw [whole] at hf hn ⊢
        rw [List.length_append] at hn
        have rest := ih after.length (by omega) (pos + (written a).length) after rfl
        rw [piecesFrom_hit find pos (h.given a) hf, gaps, values_hit,
          List.map_cons, weave, rest]
        rfl

theorem weave_cons (g : Text) : ∀ {gs ks : List Text}, ks.length = gs.length →
    weave (g :: gs) ks = g ++ (ks.zip gs).flatMap fun (k, u) => k ++ u := by
  intro gs ks
  induction ks generalizing g gs with
  | nil =>
    intro h
    obtain rfl := List.length_eq_zero_iff.mp h.symm
    exact List.flatten_cons.trans rfl
  | cons k ks ih =>
    intro h
    obtain ⟨u, gs, rfl⟩ := List.exists_cons_of_length_eq_add_one h.symm
    rw [weave, ih u (Nat.succ.inj h), List.zip_cons_cons, List.flatMap_cons, List.append_assoc,
      List.append_assoc]

theorem exists_weave_cons (g : Text) (gs ks : List Text) : ∃ r, weave (g :: gs) ks = g ++ r := by
  cases ks with
  | nil => exact ⟨gs.flatten, rfl⟩
  | cons k ks => exact ⟨k ++ weave gs ks, List.append_assoc g k _⟩

/-- Between the hits of a scan nothing is recognised. -/
theorem find_of_mem_gaps {written : α → Text} (h : Recites find written) {pos : Nat} {t g : Text}
    (hg : g ∈ gaps (piecesFrom find pos 0 t)) {c : Char} {v : Text} (hv : c :: v <:+ g) :
    ∃ r, find (c :: v ++ r) = none := by
  induction hn : t.length using Nat.strong_induction_on generalizing pos t g with
  | _ n ih =>
    cases t with
    | nil =>
      rw [List.mem_singleton.mp hg] at hv
      exact absurd (List.suffix_nil.mp hv) (List.cons_ne_nil c v)
    | cons d t =>
      cases hf : find (d :: t) with
      | none =>
        rw [piecesFrom_char pos hf, gaps] at hg
        have whole := weave_piecesFrom h (pos + 1) t
        obtain ⟨g', gs, e⟩ := List.exists_cons_of_ne_nil (gaps_ne_nil (piecesFrom find (pos + 1) 0 t))
        have later := fun g (hg : g ∈ g' :: gs) hv =>
          ih t.length (hn ▸ Nat.lt_succ_self _) (e ▸ hg) hv rfl
        rw [e] at hg whole
        rcases List.mem_cons.mp hg with rfl | hg
        · rcases List.suffix_cons_iff.mp hv with e' | hv
          · obtain ⟨r, front⟩ := exists_weave_cons g' gs
              (((piecesFrom find (pos + 1) 0 t).filterMap Piece.value?).map written)
            refine ⟨r, ?_⟩
            rw [e', List.cons_append, ← front, whole]
            exact hf
          · exact later g' List.mem_cons_self hv
        · exact later g (List.mem_cons_of_mem g' hg) hv
      | some found =>
        obtain ⟨a, m⟩ := found
        obtain ⟨after, whole, rfl⟩ := h.read hf
        have longer : 0 < (written a).length := List.length_pos_iff.mpr (h.given a)
        rw [whole] at hf hn hg
        rw [List.length_append] at hn
        rw [piecesFrom_hit find pos (h.given a) hf, gaps] at hg
        rcases List.mem_cons.mp hg with rfl | hg
        · exact absurd (List.suffix_nil.mp hv) (List.cons_ne_nil c v)
        · exact ih after.length (by omega) hg hv rfl

/-- A text with hits replaced is what stands between the hits, and what takes their places, in turn. -/
theorem weave_replaceHits (new : α → Text) (t : Text) :
    replaceHits find new t = weave (gaps (pieces find t)) ((hits find t).map new) := by
  rw [replaceHits_eq, hits_eq, pieces]
  generalize piecesFrom find 0 0 t = ps
  induction ps with
  | nil => rfl
  | cons p ps ih =>
    rw [List.flatMap_cons, ih]
    cases p with
    | char c =>
      rw [gaps, weave_modifyHead c (gaps_ne_nil ps), values_char]
      rfl
    | hit a start stop =>
      rw [gaps, values_hit, List.map_cons, weave]
      rfl

end Weaving

end Pagewright.Assembly

/-! ## Places of stacks that are left

Fragments are put where the places of their stacks stand, and what is put there is not looked at again.
So a flushed text is what stood between the places, and the contents of the fragments that were put
there, one behind the other (`flatten_flushParts`).  Between the places there was none
(`placeless_of_mem_gaps`).  A place is left, then, where a fragment was put that holds one, or where
one is put together at a seam, and nowhere else (`flushStacks_placeless_iff`).

Main definitions: `Placeless`, `Torn`, `flushParts`. -/

namespace Pagewright.Assembly

open Text Lowering

/-! ### Parts and seams -/

section Parts

variable {α : Type} {x : List α}

/-- What stands in two lists one behind the other stands in one of them or reaches over the seam. -/
theorem infix_append_iff {a b : List α} : x <:+: a ++ b ↔
    x <:+: a ∨ x <:+: b ∨ ∃ v w, x = v ++ w ∧ v ≠ [] ∧ w ≠ [] ∧ v <:+ a ∧ w <+: b := by
  constructor
  · rintro ⟨u, r, e⟩
    rcases List.append_eq_append_iff.mp e with ⟨c, rfl, rfl⟩ | ⟨c, beyond, rfl⟩
    · exact Or.inl ⟨u, c, rfl⟩
    · rcases List.append_eq_append_iff.mp beyond with ⟨d, rfl, rfl⟩ | ⟨d, rfl, rfl⟩
      · by_cases hd : d = []
        · rw [hd]
          exact Or.inr (Or.inl (List.prefix_append c r).isInfix)
        · by_cases hc : c = []
          · rw [hc, List.append_nil]
            exact Or.inl (List.suffix_append u d).isInfix
          · exact Or.inr (Or.inr ⟨d, c, rfl, hd, hc, List.suffix_append u d, List.prefix_append c r⟩)
      · exact Or.inr (Or.inl ⟨d, r, rfl⟩)
  · rintro (⟨u, r, rfl⟩ | ⟨u, r, rfl⟩ | ⟨v, w, rfl, -, -, ⟨u, rfl⟩, r, rfl⟩)
    · exact ⟨u, r ++ b, by simp⟩
    · exact ⟨a ++ u, r, by simp⟩
    · exact ⟨u, r, by simp⟩

/-- What stands in parts one behind the other stands in one of them, or begins in one of them and ends
behind it. -/
theorem infix_flatten_iff (given : x ≠ []) {parts : List (List α)} : x <:+: parts.flatten ↔
    (∃ p ∈ parts, x <:+: p) ∨ ∃ before p behind v w, parts = before ++ p :: behind ∧
      x = v ++ w ∧ v ≠ [] ∧ w ≠ [] ∧ v <:+ p ∧ w <+: behind.flatten := by
  induction parts with
  | nil =>
    refine iff_of_false (fun h => given (List.infix_nil.mp h)) ?_
    rintro (⟨p, hp, -⟩ | ⟨before, p, behind, v, w, e, -⟩)
    · exact List.not_mem_nil hp
    · exact List.append_ne_nil_of_right_ne_nil before (List.cons_ne_nil p behind) e.symm
  | cons q parts ih =>
    rw [List.flatten_cons, infix_append_iff, ih]
    constructor
    · rintro (h | (⟨p, hp, h⟩ | ⟨before, p, behind, v, w, rfl, h⟩) | ⟨v, w, h⟩)
      · exact Or.inl ⟨q, List.mem_cons_self, h⟩
      · exact Or.inl ⟨p, List.mem_cons_of_mem q hp, h⟩
      · exact Or.inr ⟨q :: before, p, behind, v, w, rfl, h⟩
      · exact Or.inr ⟨[], q, parts, v, w, rfl, h⟩
    · rintro (⟨p, hp, h⟩ | ⟨before, p, behind, v, w, e, h⟩)
      · rcases List.mem_cons.mp hp with rfl | hp
        · exact Or.inl h
        · exact Or.inr (Or.inl (Or.inl ⟨p, hp, h⟩))
      · rcases List.cons_eq_append_iff.mp e with ⟨rfl, e⟩ | ⟨before, rfl, rfl⟩
        · obtain ⟨rfl, rfl⟩ := List.cons.inj e
          exact Or.inr (Or.inr ⟨v, w, h⟩)
        · exact Or.inr (Or.inl (Or.inr ⟨before, p, behind, v, w, rfl, h⟩))

end Parts

/-- A text without a place of a stack. -/
def Placeless (t : Text) : Prop := ∀ n, MarkerName n → ¬ marker "stack" n <:+: t

/-- A place of a stack that begins in one of some parts and ends behind it. -/
def Torn (parts : List Text) : Prop :=
  ∃ before p behind n v w, parts = before ++ p :: behind ∧ MarkerName n ∧
    marker "stack" n = v ++ w ∧ v ≠ [] ∧ w ≠ [] ∧ v <:+ p ∧ w <+: behind.flatten

theorem placeless_flatten_iff {parts : List Text} :
    Placeless parts.flatten ↔ (∀ p ∈ parts, Placeless p) ∧ ¬ Torn parts := by
  constructor
  · intro h
    refine ⟨fun p hp n named there => ?_, ?_⟩
    · exact h n named ((infix_flatten_iff (marker_ne_nil _ _)).mpr (Or.inl ⟨p, hp, there⟩))
    · rintro ⟨before, p, behind, n, v, w, e, named, torn⟩
      exact h n named
        ((infix_flatten_iff (marker_ne_nil _ _)).mpr (Or.inr ⟨before, p, behind, v, w, e, torn⟩))
  · rintro ⟨each, whole⟩ n named there
    rcases (infix_flatten_iff (marker_ne_nil _ _)).mp there with
      ⟨p, hp, h⟩ | ⟨before, p, behind, v, w, e, torn⟩
    · exact each p hp n named h
    · exact whole ⟨before, p, behind, n, v, w, e, named, torn⟩

/-! ### Flushed texts -/

/-- Between the places of stacks is no place of a stack. -/
theorem placeless_of_mem_gaps {t g : Text} (hg : g ∈ gaps (pieces stackPlace? t)) : Placeless g := by
  rintro n named ⟨u, v, rfl⟩
  obtain ⟨c, w, e⟩ := List.exists_cons_of_ne_nil (marker_ne_nil "stack" n)
  have there : c :: (w ++ v) <:+ u ++ marker "stack" n ++ v := ⟨u, by rw [e]; simp⟩
  have recites : Recites stackPlace? (marker "stack") := ⟨marker_ne_nil "stack", eq_of_stackPlace?⟩
  obtain ⟨r, none⟩ := find_of_mem_gaps recites hg there
  have seen := stackPlace?_marker named (v ++ r)
  rw [← List.append_assoc, e, List.cons_append, none] at seen
  cases seen

/-- Texts, and behind each what is put between it and the next, one behind the other. -/
def laid : List Text → List (List Text) → List Text
  | g :: gs, ks :: kss => g :: (ks ++ laid gs kss)
  | gs, _ => gs

theorem flatten_laid (gs : List Text) (kss : List (List Text)) :
    (laid gs kss).flatten = weave gs (kss.map List.flatten) := by
  induction gs generalizing kss with
  | nil => cases kss <;> rfl
  | cons g gs ih =>
    cases kss with
    | nil => rfl
    | cons ks kss =>
      rw [laid, List.flatten_cons, List.flatten_append, ih, List.map_cons, weave, List.append_assoc]

theorem mem_laid {gs : List Text} {kss : List (List Text)} (h : kss.length < gs.length) {p : Text} :
    p ∈ laid gs kss ↔ p ∈ gs ∨ ∃ ks ∈ kss, p ∈ ks := by
  induction gs generalizing kss with
  | nil => exact absurd h (Nat.not_lt_zero _)
  | cons g gs ih =>
    cases kss with
    | nil => simp [laid]
    | cons ks kss =>
      rw [laid, List.mem_cons, List.mem_append, ih (Nat.lt_of_succ_lt_succ h)]
      simp only [List.mem_cons, exists_eq_or_imp]
      tauto

/-- The contents of the fragments for a stack: of those that are prepended, then of those that are
pushed. -/
def stackContents (fragments : List Fragment) (name : Text) : List Text :=
  let mine := fragments.filter fun f => f.name = name
  (mine.filter Fragment.prepended ++ mine.filter fun f => !f.prepended).map fun f => f.content.getD []

/-- What a text is put together from when its stacks are flushed: what is left of it between the places
of stacks, and at each place the contents of the fragments for its stack. -/
def flushParts (t : Text) : List Text :=
  laid (gaps (pieces stackPlace? (capture t).1))
    ((hits stackPlace? (capture t).1).map (stackContents (capture t).2))

theorem flatten_flushParts (t : Text) : (flushParts t).flatten = flushStacks t := by
  unfold flushParts
  rw [flatten_laid, List.map_map]
  exact (weave_replaceHits (stackContent (capture t).2) (capture t).1).symm

theorem mem_stackContents {fragments : List Fragment} {name c : Text} :
    c ∈ stackContents fragments name ↔ ∃ f ∈ fragments, f.name = name ∧ f.content.getD [] = c := by
  have either : ∀ f : Fragment, f.prepended = true ∨ f.prepended = false := fun f =>
    Bool.eq_false_or_eq_true _
  unfold stackContents
  simp only [List.mem_map, List.mem_append, List.mem_filter, decide_eq_true_iff,
    ← and_or_left, Bool.not_eq_true', either, and_true, and_assoc]

/-- **Which places are left** when stacks are flushed: those in the fragments that were put somewhere,
and those put together at the seams between what was put one behind the other. -/
theorem flushStacks_placeless_iff (t : Text) :
    (flushParts t).flatten = flushStacks t ∧
      (Placeless (flushStacks t) ↔
        (∀ n ∈ hits stackPlace? (capture t).1, ∀ f ∈ (capture t).2, f.name = n →
          Placeless (f.content.getD [])) ∧ ¬ Torn (flushParts t)) := by
  refine ⟨flatten_flushParts t, ?_⟩
  rw [← flatten_flushParts, placeless_flatten_iff]
  refine and_congr_left' ?_
  have count : ((hits stackPlace? (capture t).1).map (stackContents (capture t).2)).length <
      (gaps (pieces stackPlace? (capture t).1)).length := by
    rw [List.length_map, hits_eq, length_gaps]
    exact Nat.lt_succ_self _
  have parts := fun p => mem_laid (p := p) count
  constructor
  · intro each n hn f hf mine
    refine each _ ((parts _).mpr (Or.inr ⟨_, List.mem_map_of_mem hn, ?_⟩))
    exact mem_stackContents.mpr ⟨f, hf, mine, rfl⟩
  · intro each p hp
    rcases (parts p).mp hp with gap | ⟨ks, hks, hp⟩
    · exact placeless_of_mem_gaps gap
    · obtain ⟨n, hn, rfl⟩ := List.mem_map.mp hks
      obtain ⟨f, hf, mine, rfl⟩ := mem_stackContents.mp hp
      exact each n hn f hf mine

example : flushStacks "<!--hk:stack:a--><!--hk:push:a--><!--hk:stack:b--><!--hk:endpush:a-->" =
    ("<!--hk:stack:b-->" : Text) := by
  decide +kernel

end Pagewright.Assembly
