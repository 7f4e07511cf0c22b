import Pagewright.Assembly.IncludeTag
import Pagewright.Proofs.Lowering.Settled
import Pagewright.Proofs.Text.Parted

/-! # Verbatim blocks

What a verbatim block encloses becomes one raw block, with no more than its comments taken away
(`transform_verbatim`).  Comments go first, and doubled at signs next: so the inside must not hold
the closing directive, nor end in an at sign that makes a pair with it.  No include tag is seen in a
raw block (`includeTags_protect`).

Main definitions: `verbatim`, `Enclosed`. -/

namespace Pagewright.Lowering

open Text Directive

/-- A text in a verbatim block. -/
def verbatim (t : Text) : Text := "@verbatim" ++ (t ++ "@endverbatim")

/-- Whether an at sign at the end of a text is left over when they are taken in pairs. -/
def loneAt (t : Text) : Bool := t.foldl (fun lone c => c == '@' && !lone) false

/-- A text that a verbatim block encloses: it can be written, no word goes on behind the opening
directive, the closing directive does not stand in it, and all at signs at its end make pairs. -/
structure Enclosed (t : Text) : Prop where
  visible : '\x00' ∉ t
  start : (t.head?.map isWord).getD false = false
  unclosed : ¬ "@endverbatim".toList <:+: t
  paired : loneAt t = false

instance (t : Text) : Decidable (Enclosed t) :=
  decidable_of_iff ('\x00' ∉ t ∧ (t.head?.map isWord).getD false = false ∧
      ¬ "@endverbatim".toList <:+: t ∧ loneAt t = false)
    ⟨fun ⟨a, b, c, d⟩ => ⟨a, b, c, d⟩, fun ⟨a, b, c, d⟩ => ⟨a, b, c, d⟩⟩

/-! ### Comments -/

theorem comment?_leads : Leads '\x7b' comment? := by
  intro c r hc
  refine comment?_eq_none fun hp => hc ?_
  exact (List.cons_prefix_cons.mp hp).1.symm

/-- A comment ends in front of an at sign with no end of a comment behind it. -/
theorem comment?_parted (t : Text) {r : Text} (h : cutAt? "--\x7d\x7d" r = none) :
    comment? (t ++ '@' :: r) = comment? t := by
  have lead : dropLead? "\x7b\x7b--" (t ++ '@' :: r) =
      (dropLead? "\x7b\x7b--" t).map (· ++ '@' :: r) := dropLead?_parted (by decide) t r
  unfold comment?
  rw [lead]
  cases dropLead? "\x7b\x7b--" t with
  | none => rfl
  | some rest =>
      have cut := cutAt?_parted (x := '@') (by decide : "--\x7d\x7d".toList ≠ [])
        (by decide) rest r
      rw [h] at cut
      simp only [Option.map_some, Option.bind_eq_bind, Option.bind_some]
      rw [cut]
      cases cutAt? "--\x7d\x7d" rest <;> rfl

theorem length_of_comment? {t : Text} {n : Nat} (h : comment? t = some ((), n)) :
    n ≤ t.length := by
  unfold comment? at h
  obtain ⟨rest, lead, h⟩ := Option.bind_eq_some_iff.mp h
  obtain ⟨⟨body, behind⟩, cut, h⟩ := Option.bind_eq_some_iff.mp h
  obtain rfl : body.length + 8 = n := by simpa using h
  have marks : "\x7b\x7b--".toList.length = 4 ∧ "--\x7d\x7d".toList.length = 4 := by decide
  rw [eq_append_of_dropLead? lead, eq_of_cutAt? cut, List.length_append, List.length_append,
    List.length_append, marks.1, marks.2]
  omega

/-- The comments of a verbatim block are those of what it encloses. -/
theorem stripComments_verbatim (t : Text) :
    stripComments (verbatim t) = verbatim (stripComments t) := by
  have opened : ∀ c v, c :: v <:+ "@verbatim".toList → ∀ r, comment? (c :: v ++ r) = none :=
    fun c v hv r => comment?_leads.quiet (by decide) r c v hv
  have closed : stripComments "@endverbatim" = "@endverbatim" :=
    replaceHits_quiet _ (comment?_leads.quiet_self (by decide))
  unfold stripComments verbatim at *
  rw [replaceHits_append, replaceHits_append, closed,
    replaceHits_quiet _ (comment?_leads.quiet_self (by decide))]
  · exact fun c v hv => comment?_parted (c :: v) (by decide)
  · exact fun c v a n hv => length_of_comment?
  · intro c v hv
    rw [opened c v hv, ← List.append_nil (c :: v), opened c v hv]
  · exact fun c v a n hv => length_of_comment?

/-! ### Doubled at signs -/

theorem loneAt_cons_of_ne {c : Char} (t : Text) (h : c ≠ '@') : loneAt (c :: t) = loneAt t := by
  have hc : (c == '@') = false := beq_eq_false_iff_ne.mpr h
  rw [loneAt, List.foldl_cons, hc]
  rfl

/-- An at sign behind pairs of at signs makes no pair. -/
theorem escapeMarkers_at {t : Text} :
    loneAt t = false → escapeMarkers (t ++ ['@']) = escapeMarkers t ++ ['@'] := by
  unfold escapeMarkers
  induction t using occurrence_induction mark_doubled.ne_nil with
  | nil => intro _; rfl
  | hit r ih =>
      intro h
      have hr : loneAt r = false := h
      rw [List.append_assoc, replaceAll_hit mark_doubled.ne_nil, ih hr,
        replaceAll_hit mark_doubled.ne_nil, List.append_assoc]
  | char c r hc ih =>
      intro h
      have apart : ¬ "@@".toList <+: c :: (r ++ ['@']) ∧ loneAt r = false := by
        by_cases hat : c = '@'
        · subst hat
          cases r with
          | nil => cases h
          | cons d r =>
              have hd : d ≠ '@' := fun e => hc ⟨r, by rw [e]; rfl⟩
              refine ⟨fun hp => hd ?_, ?_⟩
              · exact (List.cons_prefix_cons.mp (List.cons_prefix_cons.mp hp).2).1.symm
              · have hd' : (d == '@') = false := beq_eq_false_iff_ne.mpr hd
                rw [loneAt_cons_of_ne r hd]
                rw [loneAt, List.foldl_cons, List.foldl_cons, hd'] at h
                exact h
        · exact ⟨fun hp => hat (List.cons_prefix_cons.mp hp).1.symm, by
            rwa [loneAt_cons_of_ne r hat] at h⟩
      rw [List.cons_append, replaceAll_char mark_doubled.ne_nil _ apart.1, ih apart.2,
        replaceAll_char mark_doubled.ne_nil _ hc, List.cons_append]

theorem escapeMarkers_verbatim {t : Text} (h : loneAt t = false) :
    escapeMarkers (verbatim t) = verbatim (escapeMarkers t) := by
  have opened : escapeMarkers "@verbati" = "@verbati" := by decide
  have closed : escapeMarkers "ndverbatim" = "ndverbatim" := by decide
  have behind := escapeMarkers_at h
  unfold escapeMarkers at *
  have shape : verbatim t =
      "@verbati".toList ++ 'm' :: ((t ++ ['@']) ++ 'e' :: "ndverbatim".toList) := by
    rw [List.append_assoc]
    rfl
  rw [shape, replaceAll_parted mark_doubled.ne_nil _ (by decide), opened,
    replaceAll_parted mark_doubled.ne_nil _ (by decide), closed, behind, List.append_assoc]
  rfl

/-! ### The region -/

theorem Enclosed.head {t : Text} (h : Enclosed t) (r : Text) :
    ((escapeMarkers t ++ '@' :: r).head?.map isWord).getD false = false := by
  cases t with
  | nil => rfl
  | cons c t =>
      unfold escapeMarkers
      by_cases hp : "@@".toList <+: c :: t
      · obtain ⟨v, hv⟩ := hp
        rw [← hv, replaceAll_hit mark_doubled.ne_nil]
        rfl
      · rw [replaceAll_char mark_doubled.ne_nil _ hp]
        exact h.start

theorem length_verbatim (t : Text) : (verbatim t).length = 9 + t.length + 12 := by
  have marks : "@verbatim".toList.length = 9 ∧ "@endverbatim".toList.length = 12 := by decide
  unfold verbatim
  rw [List.length_append, List.length_append, marks.1, marks.2, Nat.add_assoc]

/-- **A verbatim block is recognised whole.** -/
theorem region?_verbatim {t : Text} (h : Enclosed t) :
    region? (verbatim (escapeMarkers t)) =
      some (.verbatim (escapeMarkers t), (verbatim (escapeMarkers t)).length) := by
  obtain ⟨w, hw⟩ : ∃ w, w = escapeMarkers t := ⟨_, rfl⟩
  have untagged : keywordTag? "raw" (verbatim w) = none :=
    (keywordTag?_eq_none_iff lettered_raw).mpr fun g hp =>
      absurd (List.cons_prefix_cons.mp hp).1 (by decide)
  have opened : wholeWord? "@verbatim" (verbatim w) = some ((), 9) := by
    unfold wholeWord? verbatim
    rw [dropLead?_append]
    simp only [Option.bind_eq_bind, Option.bind_some]
    rw [if_neg (Bool.eq_false_iff.mp (hw ▸ h.head "endverbatim"))]
    rfl
  have closed : firstHit? (wholeWord? "@endverbatim") (w ++ "@endverbatim".toList) =
      some (w.length, (), 12) := by
    refine firstHit?_append (by decide) fun c v hv => ?_
    have absent : dropLead? "@endverbatim" (c :: v ++ "@endverbatim".toList) = none := by
      refine dropLead?_eq_none.mpr fun hp => h.unclosed ?_
      obtain ⟨rfl, hin⟩ := List.cons_prefix_cons.mp hp
      have inside : "endverbatim".toList <+: v := prefix_of_not_mem (by decide) hin
      have found : "@endverbatim".toList <:+: replaceAll "@@" atSentinel t :=
        ((List.cons_prefix_cons.mpr ⟨rfl, inside⟩).isInfix.trans hv.isInfix).trans
          (hw ▸ List.infix_rfl)
      refine infix_of_replaceAll (x := '@') (y := '\x00') mark_doubled.ne_nil ?_ ?_ found
      · decide
      · decide
    unfold wholeWord?
    rw [absent]
    rfl
  have behind : (verbatim w).drop 9 = w ++ "@endverbatim".toList := List.drop_left' (by decide)
  have inner : slice (verbatim w) 9 (9 + w.length) = w := by
    rw [slice, behind, Nat.add_sub_cancel_left, List.take_left]
  have whole : (verbatim w).length = 9 + w.length + 12 := length_verbatim w
  rw [← hw]
  unfold region?
  rw [untagged, opened]
  simp only [Option.bind_eq_bind, Option.bind_some, behind, closed, inner, ← whole]
  rfl

theorem verbatim_ne_nil (t : Text) : verbatim t ≠ [] :=
  List.append_ne_nil_of_left_ne_nil (by decide) _

theorem guardRegions_verbatim {t : Text} (h : Enclosed t) :
    guardRegions (verbatim (escapeMarkers t)) = (guardToken 0, [protect t]) := by
  have whole : pieces region? (verbatim (escapeMarkers t)) =
      [.hit (.verbatim (escapeMarkers t)) 0 (0 + (verbatim (escapeMarkers t)).length)] := by
    have region := (congrArg region? (List.append_nil _)).trans (region?_verbatim h)
    have hit := piecesFrom_hit region? 0 (verbatim_ne_nil _) region
    rw [List.append_nil] at hit
    rw [pieces, hit, piecesFrom]
  have inside : unescapeMarkers (escapeMarkers t) = t := unescape_escape h.visible
  rw [guardRegions, hits, whole]
  simp only [guardPieces, List.append_nil, List.filterMap_cons, List.filterMap_nil, List.map_cons,
    List.map_nil, Region.restored, if_true, inside]

/-- **A verbatim block is rewritten to a raw block** of what it encloses without its comments. -/
theorem transform_verbatim (ds : Delimiters) {t : Text} (h : Enclosed (stripComments t)) :
    transform ds (verbatim t) = .ok (protect (stripComments t)) := by
  have directives : mayHoldDirectives (verbatim t) = true := rfl
  have inert : rewriteAll ds (guardToken 0) = guardToken 0 :=
    rewriteAll_inert (inert_of_free ds (by decide))
  have restored : restoreRegions (guardToken 0) [protect (stripComments t)] =
      .ok (protect (stripComments t)) := by
    have hit := piecesFrom_hit guardToken? 0 (guardToken_ne_nil 0) (guardToken?_guardToken 0 [])
    rw [List.append_nil] at hit
    rw [restoreRegions, pieces, hit, piecesFrom]
    simp [restorePieces, Except.map]
  have visible : '\x00' ∉ protect (stripComments t) := by
    unfold protect
    split
    · exact List.not_mem_nil
    · exact not_mem_append (not_mem_append (by decide) h.visible) (by decide)
  rw [transform, if_pos directives, stripComments_verbatim, escapeMarkers_verbatim h.paired,
    guardRegions_verbatim h]
  simp only [inert, restored, Except.map, restoreMarkers_eq_self visible]

/-! ### Include tags -/

/-- **No include tag is seen in a raw block.** -/
theorem includeTags_protect {t : Text} (h : Untagged "endraw" t) :
    Assembly.includeTags (protect t) = [] := by
  by_cases ht : t = []
  · subst ht
    rfl
  have shown := RawBlock.shown_protecting h ht
  have region := region?_shown (.protecting t h) []
  have spans : protectedSpans (protect t) = [(0, 0 + (protect t).length)] := by
    have hit := piecesFrom_hit region? 0 (RawBlock.shown_ne_nil _) region
    rw [List.append_nil, shown, piecesFrom] at hit
    rw [protectedSpans, hitSpans, pieces, hit]
    rfl
  have none_seen : Assembly.boundaries (protect t) = [] := by
    unfold Assembly.boundaries
    rw [spans]
    refine List.filterMap_eq_nil_iff.mpr fun p hp => ?_
    cases p with
    | char c => rfl
    | hit closing start stop =>
        have inside := start_lt_of_mem_piecesFrom hp
        rw [Nat.zero_add] at inside
        simp [inside]
  rw [Assembly.includeTags, none_seen]
  rfl

end Pagewright.Lowering
