import Mathlib
import Pagewright.Proofs.Assembly.Gaps
import Pagewright.Proofs.Assembly.Marker

/-! # Once blocks on any page

Whatever once markers stand in a page, a round reads it as stretches of text and once blocks in turn
(`weave_written`), and puts the body of a block or nothing in the place of each (`keepFirst_eq`).  A
block that was found is taken off with its markers, so every round makes the page shorter
(`length_round`), and rounds until no block is found come to an end: `OnceRun` is a run of rounds to
its end, with all blocks that were kept on the way, and `applyOnce_run` says what it leaves.

Main definitions: `written`, `onceGaps`, `keptBlocks`, `fillings`, `OnceRun`. -/

namespace Pagewright.Assembly

open Text Lowering

attribute [local instance] lawfulBEq_text

/-! ### Blocks as they are written -/

/-- A once block, known by its key and body, as it is written. -/
def written (b : Text × Text) : Text := marker "once" b.1 ++ (b.2 ++ marker "endonce" b.1)

theorem written_ne_nil (b : Text × Text) : written b ≠ [] :=
  List.append_ne_nil_of_left_ne_nil (marker_ne_nil _ _) _

/-- What is recognised as a once block is one as it is written. -/
theorem eq_of_once? {t : Text} {b : Text × Text} {n : Nat} (h : once? t = some (b, n)) :
    ∃ r, t = written b ++ r ∧ n = (written b).length ∧ MarkerName b.1 := by
  unfold once? at h
  simp only [Option.bind_eq_bind, Option.bind_eq_some_iff, Prod.exists] at h
  obtain ⟨behind, lead, key, rest, name, body, r, cut, e⟩ := h
  obtain ⟨rfl, rfl⟩ := Prod.mk.inj (Option.some.inj e)
  obtain ⟨rfl, named⟩ := eq_of_markerRest? name
  have opening : t = marker "once" key ++ rest := by
    rw [marker_append, eq_append_of_dropLead? lead]
    rfl
  rw [eq_of_cutAt? cut] at opening
  have whole : t = written (key, body) ++ r := by
    rw [opening, written]
    simp only [List.append_assoc]
  refine ⟨r, whole, ?_, named⟩
  rw [whole, List.length_append]
  omega

theorem recites_once? : Recites once? written :=
  ⟨written_ne_nil, fun h => let ⟨r, whole, length, _⟩ := eq_of_once? h; ⟨r, whole, length⟩⟩

theorem cutAt?_isSome {sep : Text} : ∀ u r : Text, (cutAt? sep (u ++ (sep ++ r))).isSome
  | [], r => by
      cases sep with
      | nil => cases r <;> rfl
      | cons c sep => rw [List.nil_append, cutAt?_self (List.cons_ne_nil c sep)]; rfl
  | c :: u, r => by
      rw [List.cons_append, cutAt?]
      split
      · rfl
      · rw [Option.isSome_map]
        exact cutAt?_isSome u r

/-- Wherever a once block is written, one is recognised. -/
theorem once?_written {b : Text × Text} (h : MarkerName b.1) (r : Text) :
    once? (written b ++ r) ≠ none := by
  have closed : (cutAt? (marker "endonce" b.1) (b.2 ++ (marker "endonce" b.1 ++ r))).isSome :=
    cutAt?_isSome b.2 r
  obtain ⟨found, cut⟩ := Option.isSome_iff_exists.mp closed
  have lead : dropLead? "<!--hk:once:" (written b ++ r) =
      some (b.1 ++ ("-->" ++ (b.2 ++ (marker "endonce" b.1 ++ r)))) := by
    rw [written, List.append_assoc, List.append_assoc, marker_append]
    exact dropLead?_append "<!--hk:once:" _
  unfold once?
  rw [lead]
  simp only [Option.bind_eq_bind, Option.bind_some, markerRest?_name h, cut]
  exact Option.some_ne_none _

/-! ### Rounds -/

/-- The text between the once blocks of a page. -/
def onceGaps (t : Text) : List Text := gaps (pieces once? t)

/-- The blocks that a round keeps: the first of every key that was not seen before. -/
def keptBlocks : List Text → List (Text × Text) → List (Text × Text)
  | _, [] => []
  | seen, b :: bs =>
    if b.1 ∈ seen then keptBlocks seen bs else b :: keptBlocks (seen ++ [b.1]) bs

/-- What a round puts in the places of the blocks: their bodies or nothing. -/
def fillings : List Text → List (Text × Text) → List Text
  | _, [] => []
  | seen, b :: bs =>
    if b.1 ∈ seen then [] :: fillings seen bs else b.2 :: fillings (seen ++ [b.1]) bs

/-- A page is the text between its blocks and the blocks as they are written, in turn. -/
theorem weave_written (t : Text) : weave (onceGaps t) ((hits once? t).map written) = t :=
  weave_piecesFrom recites_once? 0 t

/-- **One round**: what stands between the blocks stays, and every block makes way for its body or for
nothing. -/
theorem keepFirst_eq (seen : List Text) : ∀ ps : List (Piece (Text × Text)),
    keepFirst seen ps =
      (weave (gaps ps) (fillings seen (ps.filterMap Piece.value?)),
        seen ++ (keptBlocks seen (ps.filterMap Piece.value?)).map Prod.fst)
  | [] => by simp [keepFirst, gaps, fillings, keptBlocks, weave]
  | .char c :: ps => by
      rw [keepFirst, keepFirst_eq seen ps, gaps, weave_modifyHead c (gaps_ne_nil _),
        values_char]
  | .hit b start stop :: ps => by
      rw [keepFirst, gaps, values_hit, fillings, keptBlocks]
      by_cases old : b.1 ∈ seen
      · rw [if_pos (List.contains_iff_mem.mpr old), if_pos old, if_pos old, keepFirst_eq seen ps]
        rfl
      · rw [if_neg (mt List.contains_iff_mem.mp old), if_neg old, if_neg old,
          keepFirst_eq (seen ++ [b.1]) ps]
        simp [weave]

/-! ### Every round makes the page shorter -/

theorem length_fillings (seen : List Text) (bs : List (Text × Text)) :
    (fillings seen bs).length = bs.length := by
  induction bs generalizing seen with
  | nil => rfl
  | cons b bs ih =>
    rw [fillings]
    split <;> simp [ih]

theorem length_flatten_fillings (seen : List Text) (bs : List (Text × Text)) :
    (fillings seen bs).flatten.length + bs.length ≤ (bs.map written).flatten.length := by
  induction bs generalizing seen with
  | nil => exact Nat.le_refl _
  | cons b bs ih =>
    have longer : b.2.length < (written b).length := by
      have marked : 0 < (marker "once" b.1).length := List.length_pos_iff.mpr (marker_ne_nil _ _)
      simp only [written, List.length_append]
      omega
    rw [fillings]
    split
    · have rest := ih seen
      simp only [List.map_cons, List.flatten_cons, List.length_append, List.length_cons,
        List.length_nil]
      omega
    · have rest := ih (seen ++ [b.1])
      simp only [List.map_cons, List.flatten_cons, List.length_append, List.length_cons]
      omega

theorem length_round (seen : List Text) (t : Text) :
    (weave (onceGaps t) (fillings seen (hits once? t))).length + (hits once? t).length ≤
      t.length := by
  have more : (hits once? t).length < (onceGaps t).length := by
    rw [onceGaps, length_gaps, ← hits_eq]
    exact Nat.lt_succ_self _
  have before : (weave (onceGaps t) ((hits once? t).map written)).length = _ :=
    length_weave (by rwa [List.length_map])
  have after : (weave (onceGaps t) (fillings seen (hits once? t))).length = _ :=
    length_weave (by rwa [length_fillings])
  have shorter := length_flatten_fillings seen (hits once? t)
  rw [weave_written] at before
  omega

/-! ### Runs of rounds -/

/-- A run of rounds over a page until no block is found: the page and the keys seen at the start, the
blocks kept in all rounds, and the page and the keys seen at the end. -/
inductive OnceRun : Text → List Text → List (Text × Text) → Text → List Text → Prop
  | done {t : Text} {seen : List Text} : hits once? t = [] → OnceRun t seen [] t seen
  | round {t : Text} {seen : List Text} {kept : List (Text × Text)} {t' : Text}
      {seen' : List Text} : hits once? t ≠ [] →
      OnceRun (weave (onceGaps t) (fillings seen (hits once? t)))
        (seen ++ (keptBlocks seen (hits once? t)).map Prod.fst) kept t' seen' →
      OnceRun t seen (keptBlocks seen (hits once? t) ++ kept) t' seen'

/-- Fuel for every character is enough for a run to come to its end. -/
theorem exists_run {fuel : Nat} {t : Text} (seen : List Text) (enough : t.length ≤ fuel) :
    ∃ kept, OnceRun t seen kept (applyOnceFor fuel t seen).1 (applyOnceFor fuel t seen).2 := by
  induction fuel generalizing t seen with
  | zero =>
    obtain rfl : t = [] := List.length_eq_zero_iff.mp (Nat.le_zero.mp enough)
    exact ⟨[], .done rfl⟩
  | succ fuel ih =>
    rw [applyOnceFor]
    by_cases found : hits once? t = []
    · rw [if_pos (List.isEmpty_iff.mpr found)]
      exact ⟨[], .done found⟩
    · rw [if_neg (mt List.isEmpty_iff.mp found), keepFirst_eq, ← hits_eq]
      have shorter := length_round seen t
      have some := List.length_pos_iff.mpr found
      obtain ⟨kept, run⟩ := ih (t := weave (onceGaps t) (fillings seen (hits once? t)))
        (seen ++ (keptBlocks seen (hits once? t)).map Prod.fst) (by omega)
      exact ⟨keptBlocks seen (hits once? t) ++ kept, .round found run⟩

/-! ### What a run leaves -/

/-- A round keeps at most one block of a key, and none of a key seen before. -/
theorem nodup_keptBlocks (seen : List Text) (bs : List (Text × Text)) :
    ((keptBlocks seen bs).map Prod.fst).Nodup ∧ ∀ b ∈ keptBlocks seen bs, b.1 ∉ seen := by
  induction bs generalizing seen with
  | nil => exact ⟨List.nodup_nil, fun b hb => absurd hb List.not_mem_nil⟩
  | cons b bs ih =>
    rw [keptBlocks]
    split
    · exact ih seen
    · next fresh =>
      obtain ⟨distinct, unseen⟩ := ih (seen ++ [b.1])
      constructor
      · refine List.nodup_cons.mpr ⟨fun twice => ?_, distinct⟩
        obtain ⟨d, hd, same⟩ := List.mem_map.mp twice
        exact unseen d hd (List.mem_append_right _ (List.mem_singleton.mpr same))
      · intro d hd
        rcases List.mem_cons.mp hd with rfl | hd
        · exact fresh
        · exact fun old => unseen d hd (List.mem_append_left _ old)

variable {t t' : Text} {seen seen' : List Text} {kept : List (Text × Text)}

/-- A run ends at a page in which no block is found. -/
theorem OnceRun.hits_eq_nil (h : OnceRun t seen kept t' seen') : hits once? t' = [] := by
  induction h with
  | done none => exact none
  | round _ _ ih => exact ih

theorem OnceRun.seen_eq (h : OnceRun t seen kept t' seen') :
    seen' = seen ++ kept.map Prod.fst := by
  induction h with
  | done => exact (List.append_nil _).symm
  | round _ _ ih => rw [ih, List.map_append, List.append_assoc]

/-- A run keeps at most one block of a key, and none of a key seen before. -/
theorem OnceRun.nodup (h : OnceRun t seen kept t' seen') :
    (kept.map Prod.fst).Nodup ∧ ∀ b ∈ kept, b.1 ∉ seen := by
  induction h with
  | done => exact ⟨List.nodup_nil, fun b hb => absurd hb List.not_mem_nil⟩
  | @round t seen kept t' seen' _ _ ih =>
    obtain ⟨distinct, unseen⟩ := nodup_keptBlocks seen (hits once? t)
    obtain ⟨later, others⟩ := ih
    constructor
    · rw [List.map_append]
      refine List.nodup_append.mpr ⟨distinct, later, ?_⟩
      rintro k early k' late rfl
      obtain ⟨b, hb, rfl⟩ := List.mem_map.mp late
      exact others b hb (List.mem_append_right _ early)
    · intro b hb
      rcases List.mem_append.mp hb with hb | hb
      · exact unseen b hb
      · exact fun old => others b hb (List.mem_append_left _ old)

/-- Where no block is found, none is written. -/
theorem not_infix_of_hits (h : hits once? t = []) {b : Text × Text} (named : MarkerName b.1) :
    ¬written b <:+: t := by
  rintro ⟨front, back, rfl⟩
  obtain ⟨c, v, e⟩ := List.exists_cons_of_ne_nil (written_ne_nil b)
  have there : written b ++ back <:+ front ++ written b ++ back := by
    rw [List.append_assoc]
    exact List.suffix_append _ _
  have seen := once?_written named back
  rw [e] at seen there h
  exact seen (quiet_of_values h c _ there)

/-- **Collecting once blocks** comes to an end on every page.  In the page that it leaves no once block
is written any more; over all rounds the body of at most one block of a key was kept, and none of a
key seen before; and the keys seen at the end are those seen before and those of the blocks that were
kept. -/
theorem applyOnce_run (t : Text) (seen : List Text) :
    ∃ kept, OnceRun t seen kept (applyOnce t seen).1 (applyOnce t seen).2 ∧
      (∀ key body, MarkerName key → ¬written (key, body) <:+: (applyOnce t seen).1) ∧
      (kept.map Prod.fst).Nodup ∧ (∀ b ∈ kept, b.1 ∉ seen) ∧
      (applyOnce t seen).2 = seen ++ kept.map Prod.fst := by
  obtain ⟨kept, run⟩ := exists_run seen (Nat.le_refl t.length)
  obtain ⟨distinct, unseen⟩ := run.nodup
  refine ⟨kept, run, ?_, distinct, unseen, run.seen_eq⟩
  intro key body named
  exact not_infix_of_hits run.hits_eq_nil (b := (key, body)) named

end Pagewright.Assembly
