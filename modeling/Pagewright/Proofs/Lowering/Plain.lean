import Pagewright.Lowering.Transform
import Pagewright.Proofs.Directive.Rewrite

/-! # Sources that hold nothing to guard

Comments, doubled at signs and regions are looked for in every source.  In a legible source without
comment openings, raw tags and verbatim directives nothing is found (`stripComments_eq_self`,
`escapeMarkers_shownAll`, `guardRegions_shownAll`), and in a text without at signs or null
characters the later passes and the restoring find nothing (`rewriteStackMarkers_eq_self`,
`rewriteIncludes_eq_self`, `restoreRegions_eq_self`, `restoreMarkers_eq_self`). -/

namespace Pagewright.Lowering

open Text Directive

/-! ### Comments and doubled at signs -/

theorem comment?_eq_none {t : Text} (h : ¬ "\x7b\x7b--".toList <+: t) : comment? t = none := by
  unfold comment?
  rw [dropLead?_eq_none.mpr h]
  rfl

/-- A text without comment openings keeps everything. -/
theorem stripComments_eq_self {t : Text} (h : ¬ "\x7b\x7b--".toList <:+: t) :
    stripComments t = t :=
  replaceHits_quiet _ fun _ _ hv => comment?_eq_none fun hp => h (hp.isInfix.trans hv.isInfix)

theorem escapeMarkers_shownAll {ps : List Part} (h : Legible ps) :
    escapeMarkers (shownAll ps) = shownAll ps :=
  replaceAll_eq_self atSentinel (by decide) h.not_doubled

/-! ### Regions -/

theorem keywordTag?_eq_none {keyword t : Text} (h : '\x7b' ∉ t) : keywordTag? keyword t = none := by
  have hd : dropLead? "\x7b%" t = none :=
    dropLead?_eq_none.mpr fun hp => not_infix_of_not_mem h hp.isInfix
  unfold keywordTag?
  rw [hd]
  rfl

/-- A whole word is found only where it is the name that stands there. -/
theorem wholeWord?_eq_none {word n r : Text} (hw : name? word = some word) (hn : name? n = some n)
    (hr : (r.head?.map isWord).getD false = false) (hne : n ≠ word) :
    wholeWord? ('@' :: word) ('@' :: (n ++ r)) = none := by
  unfold wholeWord?
  rw [dropLead?, if_pos rfl]
  cases hd : dropLead? word (n ++ r) with
  | none => rfl
  | some rest =>
      have e := eq_append_of_dropLead? hd
      simp only [Option.bind_eq_bind, Option.bind_some]
      split
      · rfl
      · next hrest =>
        have hrest' := Bool.eq_false_iff.mpr hrest
        have hname := name?_append hw hrest'
        rw [← e, name?_append hn hr] at hname
        exact absurd (Option.some.inj hname) hne

theorem wholeWord?_leads (word : Text) : Leads '@' (wholeWord? ('@' :: word)) := by
  intro c r hc
  unfold wholeWord?
  rw [dropLead?_cons_of_ne word r hc.symm]
  rfl

/-- Where a directive stands, its name stands as a whole word. -/
theorem shownAll_of_mark? {p : Part} {ps : List Part} (hl : Legible (p :: ps)) {d : Directive}
    (hd : p.mark? 0 = some d) :
    ∃ r, shownAll (p :: ps) = '@' :: (d.name ++ r) ∧ name? d.name = some d.name ∧
      (r.head?.map isWord).getD false = false := by
  cases p with
  | text t => cases hd
  | word n =>
      cases hd
      exact ⟨shownAll ps, rfl, hl.1, (endsName_iff.mp hl.2.1).1⟩
  | call n gap args =>
      cases hd
      obtain ⟨hn, -, hg, -⟩ := hl
      refine ⟨gap ++ '(' :: (args ++ [')'] ++ shownAll ps), ?_, hn, ?_⟩
      · simp [shownAll_cons, Part.shown]
      · exact (endsName_iff.mp (endsName_bracket hg)).1

theorem guardPieces_char (n : Nat) : ∀ t : Text, guardPieces n (t.map .char) = t
  | [] => rfl
  | c :: t => by rw [List.map_cons, guardPieces, guardPieces_char n t]

/-- **A legible source without raw tags and verbatim directives has no regions.** -/
theorem guardRegions_shownAll {ps : List Part} (h : Legible ps)
    (hraw : ∀ t, t <:+ shownAll ps → keywordTag? "raw" t = none)
    (hverbatim : .word "verbatim" ∉ ps) :
    guardRegions (shownAll ps) = (shownAll ps, []) := by
  have quiet : ∀ c v, c :: v <:+ shownAll ps → region? (c :: v) = none := by
    intro c v hv
    have hword : wholeWord? "@verbatim" (c :: v) = none := by
      by_cases hc : c = '@'
      · subst hc
        obtain ⟨p, qs, hq, hm, e⟩ := suffix_at h hv
        obtain ⟨d, hd⟩ := Option.ne_none_iff_exists'.mp hm
        obtain ⟨r, hr, hn, hw⟩ := shownAll_of_mark? (h.suffix hq) hd
        rw [e, hr]
        refine wholeWord?_eq_none (by decide) hn hw fun hname => ?_
        have hp := hq.subset List.mem_cons_self
        have hp' := (h.sound hp).eq_word hd (by rw [hname]; decide)
        rw [hp', hname] at hp
        exact hverbatim hp
      · exact wholeWord?_leads "verbatim" c v hc
    unfold region?
    rw [hraw _ hv, hword]
    rfl
  rw [guardRegions, pieces_quiet quiet, hits_quiet quiet]
  exact congrArg (·, []) (guardPieces_char 0 _)

/-! ### Texts without at signs -/

theorem directives_eq_nil {t : Text} (h : '@' ∉ t) : directives t = [] := by
  obtain ⟨prev, e⟩ := scanFrom_text none 0 t [] h
  rw [List.append_nil] at e
  exact e.trans (by rw [scanFrom])

theorem replaceWith_eq_self {σ : Type} {names : List Text}
    (handler : σ → Directive → Option Text × σ) (s : σ) {t : Text} (h : '@' ∉ t) :
    (replaceWith names handler s t).1 = t := by
  rw [replaceWith, directives_eq_nil h]
  rfl

theorem rewriteStackMarkers_eq_self {t : Text} (h : '@' ∉ t) : rewriteStackMarkers t = t :=
  replaceWith_eq_self (stackMarker? t) [] h

/-- The include tag of a directive does not depend on where the directive stands. -/
theorem includeTag?_blind {d e : Directive} (hn : d.name = e.name) (ha : d.args = e.args) :
    includeTag? d = includeTag? e := by
  simp only [includeTag?, includeRequest?, Directive.argumentList, hn, ha]

theorem rewriteIncludes_eq_self {t : Text} (h : '@' ∉ t) : rewriteIncludes t = t :=
  replaceWith_eq_self _ () h

/-! ### Texts without null characters -/

theorem guardToken?_leads : Leads '\x00' guardToken? := by
  intro c r hc
  unfold guardToken?
  rw [show ("\x00hk:guard:".toList : Text) = '\x00' :: "hk:guard:".toList from rfl,
    dropLead?_cons_of_ne _ r hc.symm]
  rfl

theorem restorePieces_char (regions : List Text) : ∀ t : Text,
    restorePieces regions (t.map .char) = .ok t
  | [] => rfl
  | c :: t => by rw [List.map_cons, restorePieces, restorePieces_char regions t]; rfl

/-- A text without null characters holds no placeholder. -/
theorem restoreRegions_eq_self {t : Text} (h : '\x00' ∉ t) (regions : List Text) :
    restoreRegions t regions = .ok t := by
  rw [restoreRegions, pieces_of_leads guardToken?_leads h, restorePieces_char]

/-- A text without null characters holds no sentinel. -/
theorem restoreMarkers_eq_self {t : Text} (h : '\x00' ∉ t) : restoreMarkers t = t :=
  replaceAll_eq_self _ (by decide) (not_infix_of_not_mem h)

end Pagewright.Lowering
