import Pagewright.Proofs.Lowering.Settled

/-! # Rewriting twice

What the rewriting writes is settled when nothing that it leaves in the open would be taken up by
another run (`Tidy`): the restored regions are raw blocks again, a doubled at sign has become one
too, and between them stands what the passes have left.  So the cells of the written text are found
by going over that text with its placeholders and sentinels (`exists_cells`), and the rewriting of
the written text is that text itself (`transform_twice`).

The condition cannot be left out: an argument that is written into a tag may hold a directive, which
its own directive covers in one run and nothing covers in the next.

Main definitions: `rewritten`, `Clean`, `Blocks`, `Tidy`. -/

namespace Pagewright.Lowering

open Text Directive

/-! ### What the passes leave -/

/-- What the passes make of a text, with its placeholders and sentinels. -/
def rewritten (ds : Delimiters) (t : Text) : Text :=
  rewriteAll ds (guardRegions (escapeMarkers (stripComments t))).1

/-- The text of a verbatim block. -/
def Region.verbatim? : Region → Option Text
  | .raw _ => none
  | .verbatim inner => some inner

/-- What stands in the verbatim blocks of a text, with sentinels for doubled at signs. -/
def verbatims (t : Text) : List Text :=
  (hits region? (escapeMarkers (stripComments t))).filterMap Region.verbatim?

/-- A text in which another run finds nothing to guard and none of the names. -/
structure Clean (names : List Text) (t : Text) : Prop where
  untagged : Untagged "raw" t
  single : ¬ "@@".toList <:+: t
  free : Free names t

instance (names : List Text) (t : Text) : Decidable (Clean names t) :=
  decidable_of_iff (Untagged "raw" t ∧ ¬ "@@".toList <:+: t ∧ Free names t)
    ⟨fun ⟨a, b, c⟩ => ⟨a, b, c⟩, fun ⟨a, b, c⟩ => ⟨a, b, c⟩⟩

variable {names : List Text}

theorem Clean.of_suffix {t v : Text} (h : Clean names t) (hv : v <:+ t) : Clean names v where
  untagged := h.untagged.of_suffix hv
  single := fun hi => h.single (hi.trans hv.isInfix)
  free := h.free.of_suffix hv

/-- A character of a clean text may stand in the open. -/
theorem Clean.open {c : Char} {v r : Text} (h : Clean names (c :: (v ++ r))) (hr : Ends r)
    (hc : c ≠ '\x00') : Open names c v where
  visible := hc
  untagged := by
    rw [keywordTag?_eq_none_iff lettered_raw]
    intro g hg
    refine (untagged_iff lettered_raw).mp h.untagged g ?_
    exact (hg.trans (List.prefix_append (c :: v) r)).isInfix
  single := by
    rintro rfl hv
    obtain ⟨w, rfl⟩ := List.head?_eq_some_iff.mp hv
    exact h.single ⟨[], w ++ r, rfl⟩
  unnamed := by
    rintro rfl n hn
    exact h.free _ n List.suffix_rfl ((name?_ahead hr).trans hn)

/-! ### Restored regions -/

/-- All texts of a list are raw blocks without null characters. -/
def Blocks (regions : List Text) : Prop :=
  ∀ x ∈ regions, ∃ b : RawBlock, x = b.shown ∧ '\x00' ∉ b.shown

/-- **What is put back for a region holds no null character**, and is a raw block if the region is
one. -/
theorem visible_restored {t : Text} (ht : '\x00' ∉ t) {x : Region}
    (hm : x ∈ hits region? (escapeMarkers t)) :
    (∃ b : RawBlock, x.restored true = b.shown ∧ '\x00' ∉ b.shown) ∨
      ∃ inner, x = .verbatim inner ∧ '\x00' ∉ unescapeMarkers inner := by
  obtain ⟨u, r, n, e, hr⟩ := exists_of_mem_hits hm
  obtain ⟨b, w, rfl, rfl, -⟩ | ⟨inner, w, rfl, rfl, -⟩ := region?_cases hr
  · refine Or.inl ⟨b.replaced mark_sentinel mark_doubled, (b.shown_replaced _ _).symm,
      RawBlock.visible _ ?_⟩
    obtain ⟨o, ho⟩ := List.getLast?_eq_some_iff.mp b.opener.getLast?_shown
    refine not_mem_unescape ht mark_sentinel.unclosed mark_sentinel.unopened
      (u := u ++ o) (w := b.closer.inside ++ w) ?_
    rw [e, RawBlock.shown, ho, KeywordTag.shown]
    simp
  · refine Or.inr ⟨inner, rfl, ?_⟩
    exact not_mem_unescape (x := 'm') (y := '@') ht (by decide) (by decide)
      (u := u ++ "@verbati".toList) (w := "endverbatim".toList ++ w) (by rw [e]; simp)

/-- **What is put back for the regions is raw blocks.** -/
theorem blocks_guardRegions {t : Text} (ht : '\x00' ∉ t)
    (literal : ∀ inner, .verbatim inner ∈ hits region? (escapeMarkers t) →
      inner ≠ [] ∧ Untagged "endraw" inner) : Blocks (guardRegions (escapeMarkers t)).2 := by
  intro x hx
  obtain ⟨region, hm, rfl⟩ := List.mem_map.mp hx
  obtain block | ⟨inner, rfl, visible⟩ := visible_restored ht hm
  · exact block
  · obtain ⟨given, untagged⟩ := literal inner hm
    have untagged' : Untagged "endraw" (unescapeMarkers inner) :=
      untagged.replaceAll lettered_endraw mark_sentinel mark_doubled
    have given' : unescapeMarkers inner ≠ [] := fun h =>
      given (eq_nil_of_replaceAll mark_sentinel.ne_nil _ mark_doubled.ne_nil h)
    exact ⟨.protecting _ untagged', (RawBlock.shown_protecting untagged' given').symm,
      RawBlock.visible _ visible⟩

/-! ### From the text with its placeholders to cells -/

theorem map_eq_ok {e : Except Failure Text} {f : Text → Text} {x : Text}
    (h : e.map f = .ok x) : ∃ y, e = .ok y ∧ f y = x := by
  cases e with
  | error failure => cases h
  | ok y => exact ⟨y, rfl, Except.ok.inj h⟩

theorem exists_of_guardToken? {t : Text} {n m : Nat} (h : guardToken? t = some (n, m)) :
    ∃ v r, t = '\x00' :: v ++ r ∧ m = ('\x00' :: v).length := by
  unfold guardToken? at h
  obtain ⟨r₁, h₁, h⟩ := Option.bind_eq_some_iff.mp h
  obtain ⟨k, -, h⟩ := Option.bind_eq_some_iff.mp h
  obtain ⟨r, h₂, hend⟩ := Option.bind_eq_some_iff.mp h
  obtain ⟨s, hs⟩ := List.takeWhile_prefix isDecimal (l := r₁)
  generalize r₁.takeWhile isDecimal = digits at hs h₂
  obtain rfl := hs
  rw [List.drop_left] at h₂
  have whole : t = '\x00' :: ("hk:guard:".toList ++ (digits ++ ['\x00'])) ++ r := by
    rw [eq_append_of_dropLead? h₁, eq_append_of_dropLead? h₂]
    simp
  refine ⟨_, r, whole, ?_⟩
  obtain rfl : t.length - r.length = m := by simpa using congrArg Prod.snd (Option.some.inj hend)
  rw [whole, List.length_append, Nat.add_sub_cancel]

variable {regions : List Text}

/-- Restoring begins with a block in the place of a placeholder, or keeps a character. -/
theorem restorePieces_step (blocks : Blocks regions) {pos : Nat} {c : Char} {r x : Text}
    (h : restorePieces regions (piecesFrom guardToken? pos 0 (c :: r)) = .ok x) :
    (∃ v w pos' y, ∃ b : RawBlock, c = '\x00' ∧ r = v ++ w ∧ '\x00' ∉ b.shown ∧ x = b.shown ++ y ∧
        restorePieces regions (piecesFrom guardToken? pos' 0 w) = .ok y) ∨
      ∃ y, x = c :: y ∧ restorePieces regions (piecesFrom guardToken? (pos + 1) 0 r) = .ok y := by
  cases hf : guardToken? (c :: r) with
  | none =>
      rw [piecesFrom_char pos hf, restorePieces] at h
      obtain ⟨y, hy, rfl⟩ := map_eq_ok h
      exact Or.inr ⟨y, rfl, hy⟩
  | some found =>
      obtain ⟨n, m⟩ := found
      obtain ⟨v, w, e, rfl⟩ := exists_of_guardToken? hf
      rw [e] at h hf
      rw [piecesFrom_hit _ pos (List.cons_ne_nil _ _) hf, restorePieces] at h
      split at h
      · next region hn =>
        obtain ⟨y, hy, rfl⟩ := map_eq_ok h
        obtain ⟨b, rfl, hb⟩ := blocks region (List.mem_of_getElem? hn)
        obtain ⟨rfl, rfl⟩ := List.cons.inj e
        exact Or.inl ⟨v, w, _, y, b, rfl, rfl, hb, rfl, hy⟩
      · cases h

/-- What is read without a curly bracket was in the text before. -/
theorem restorePieces_open (blocks : Blocks regions) :
    ∀ {l w x : Text} {pos : Nat}, '\x7b' ∉ l →
      restorePieces regions (piecesFrom guardToken? pos 0 w) = .ok (l ++ x) →
      ∃ w' pos', w = l ++ w' ∧ restorePieces regions (piecesFrom guardToken? pos' 0 w') = .ok x
  | [], w, x, pos, _, h => ⟨w, pos, rfl, h⟩
  | d :: l, [], x, pos, _, h => by cases h
  | d :: l, c :: r, x, pos, hl, h => by
      obtain ⟨v, w, pos', y, b, rfl, rfl, -, e, -⟩ | ⟨y, e, hy⟩ := restorePieces_step blocks h
      · exact absurd ((List.cons.inj e).1 ▸ List.mem_cons_self) hl
      · obtain ⟨rfl, rfl⟩ := List.cons.inj e
        obtain ⟨w, pos', rfl, hw⟩ := restorePieces_open blocks
          (fun hm => hl (List.mem_cons_of_mem _ hm)) hy
        exact ⟨w, pos', rfl, hw⟩

theorem restoreMarkers_block {b : RawBlock} (hb : '\x00' ∉ b.shown) (y : Text) :
    restoreMarkers (b.shown ++ y) = b.shown ++ restoreMarkers y := by
  have hkept : replaceAll atSentinel (protect "@") b.shown = b.shown :=
    replaceAll_eq_self _ mark_sentinel.ne_nil (not_infix_of_not_mem hb)
  rw [restoreMarkers, replaceAll_behind mark_sentinel.ne_nil _ mark_sentinel.unclosed
    b.getLast?_shown, hkept]
  rfl

/-- What a doubled at sign becomes. -/
def atBlock : RawBlock := .protecting "@" fun v hv => keywordTag?_eq_none fun hm =>
  absurd (hv.subset hm) (by decide)

theorem shown_atBlock : atBlock.shown = protect "@" := RawBlock.shown_protecting _ (by decide)

theorem visible_atBlock : '\x00' ∉ atBlock.shown := atBlock.visible (by decide)

/-- **What is restored from a clean text is cells in order**: its characters, the blocks that stand
in the place of its placeholders, and one for each sentinel. -/
theorem exists_cells (blocks : Blocks regions) {w x : Text} {pos : Nat} (clean : Clean names w)
    (h : restorePieces regions (piecesFrom guardToken? pos 0 w) = .ok x)
    (hx : '\x00' ∉ restoreMarkers x) :
    ∃ cs, shownCells cs = restoreMarkers x ∧ Laid names cs ∧ ∃ r, w = ahead cs ++ r ∧ Ends r := by
  -- A placeholder and a sentinel are passed as a whole, so the induction is on the length.
  induction hlen : w.length using Nat.strongRecOn generalizing w x pos with
  | _ len ih =>
  subst hlen
  have null : ∀ r, Ends ('\x00' :: r) := fun r d hd => Or.inr (Option.some.inj hd).symm
  by_cases hs : atSentinel <+: x
  · obtain ⟨z, rfl⟩ := hs
    obtain ⟨w, pos', rfl, hz⟩ := restorePieces_open blocks mark_sentinel.unopened h
    have restored : restoreMarkers (atSentinel ++ z) = atBlock.shown ++ restoreMarkers z := by
      rw [shown_atBlock]
      exact replaceAll_hit mark_sentinel.ne_nil _ z
    rw [restored] at hx ⊢
    have shorter : w.length < (atSentinel ++ w).length := by
      rw [List.length_append]
      exact Nat.lt_add_of_pos_left (by decide)
    obtain ⟨cs, hcs, laid, -⟩ := ih w.length shorter (clean.of_suffix (List.suffix_append _ w)) hz
      (fun hm => hx (List.mem_append_right _ hm)) rfl
    exact ⟨.block atBlock :: cs, congrArg (_ ++ ·) hcs, ⟨visible_atBlock, laid⟩, _, rfl, null _⟩
  · cases w with
    | nil =>
        obtain rfl : [] = x := Except.ok.inj h
        exact ⟨[], rfl, trivial, [], rfl, ends_nil⟩
    | cons c r =>
        obtain ⟨v, w, pos', y, b, rfl, rfl, hb, rfl, hy⟩ | ⟨y, rfl, hy⟩ :=
          restorePieces_step blocks h
        · rw [restoreMarkers_block hb] at hx ⊢
          have behind : w <:+ v ++ w := List.suffix_append v w
          obtain ⟨cs, hcs, laid, -⟩ := ih w.length (Nat.lt_succ_of_le behind.length_le)
            (clean.of_suffix (behind.trans (List.suffix_cons _ _))) hy
            (fun hm => hx (List.mem_append_right _ hm)) rfl
          exact ⟨.block b :: cs, congrArg (b.shown ++ ·) hcs, ⟨hb, laid⟩, _, rfl, null _⟩
        · have restored : restoreMarkers (c :: y) = c :: restoreMarkers y :=
            replaceAll_char mark_sentinel.ne_nil _ hs
          rw [restored, List.mem_cons, not_or] at hx
          obtain ⟨cs, hcs, laid, r', e, hr'⟩ := ih r.length (Nat.lt_succ_self _)
            (clean.of_suffix (List.suffix_cons c r)) hy hx.2 rfl
          rw [e] at clean
          refine ⟨.char c :: cs, ?_, ⟨clean.open hr' (Ne.symm hx.1), laid⟩, r', ?_, hr'⟩
          · rw [restored, shownCells, hcs]
          · rw [e]
            rfl

/-- No directive with one of the names starts among cells in order. -/
theorem free_guardedCells : ∀ {cs : List Cell} (n : Nat), Laid names cs →
    Free names (guardedCells n cs)
  | [], n, _, r, m, hr, _ => absurd (List.suffix_nil.mp hr) (List.cons_ne_nil _ _)
  | .char c :: cs, n, ⟨h, hcs⟩, r, m, hr, hm => by
      obtain e | hr := List.suffix_cons_iff.mp hr
      · obtain ⟨rfl, rfl⟩ := List.cons.inj e
        obtain ⟨v, ev, hv⟩ := guardedCells_ahead n cs
        rw [ev, name?_ahead hv] at hm
        exact h.unnamed rfl m hm
      · exact free_guardedCells n hcs r m hr hm
  | .block b :: cs, n, ⟨_, hcs⟩, r, m, hr, hm => by
      have token : '@' ∉ guardToken n := by
        rw [guardToken_eq]
        exact not_mem_append (not_mem_append (by decide) (Foreign.not_mem_ofNat (Or.inl rfl) n))
          (by decide)
      exact free_guardedCells (n + 1) hcs r m (suffix_of_not_mem token hr) hm

/-! ### Twice -/

/-- Nothing that the rewriting of `t` writes in the open, up to `u`, would be taken up by another
run: no comment is there, no verbatim text is empty or holds the end of a raw block, no raw tag,
doubled at sign or verbatim directive stands between the placeholders, and the directives there are
none of those that the passes look for, or every pass would leave them again. -/
structure Tidy (ds : Delimiters) (t u : Text) : Prop where
  plain : '\x00' ∉ t
  finished : '\x00' ∉ u
  uncommented : Nowhere comment? u
  literal : ∀ inner ∈ verbatims t, inner ≠ [] ∧ Untagged "endraw" inner
  clean : Clean ["verbatim"] (rewritten ds t)
  inert : Free passNames (rewritten ds t) ∨ Inert ds (guardRegions (escapeMarkers u)).1

instance (ds : Delimiters) (t u : Text) : Decidable (Tidy ds t u) :=
  decidable_of_iff ('\x00' ∉ t ∧ '\x00' ∉ u ∧ Nowhere comment? u ∧
      (∀ inner ∈ verbatims t, inner ≠ [] ∧ Untagged "endraw" inner) ∧
      Clean ["verbatim"] (rewritten ds t) ∧
      (Free passNames (rewritten ds t) ∨ Inert ds (guardRegions (escapeMarkers u)).1))
    ⟨fun ⟨a, b, c, d, e, f⟩ => ⟨a, b, c, d, e, f⟩, fun ⟨a, b, c, d, e, f⟩ => ⟨a, b, c, d, e, f⟩⟩

variable {ds : Delimiters} {t u : Text}

theorem transform_eq (hd : mayHoldDirectives t = true) :
    transform ds t = (restoreRegions (rewritten ds t)
      (guardRegions (escapeMarkers (stripComments t))).2).map restoreMarkers := by
  rw [transform, if_pos hd]
  rfl

theorem Tidy.settled (h : transform ds t = .ok u) (hd : mayHoldDirectives t = true)
    (tidy : Tidy ds t u) : Settled ds u := by
  rw [transform_eq hd] at h
  obtain ⟨x, hx, rfl⟩ := map_eq_ok h
  have plain : '\x00' ∉ stripComments t := fun hm => tidy.plain (mem_of_mem_replaceHits hm)
  have blocks : Blocks (guardRegions (escapeMarkers (stripComments t))).2 :=
    blocks_guardRegions plain fun inner hm =>
      tidy.literal inner (List.mem_filterMap.mpr ⟨_, hm, rfl⟩)
  have restored : restorePieces (guardRegions (escapeMarkers (stripComments t))).2
      (piecesFrom guardToken? 0 0 (rewritten ds t)) = .ok x := hx
  obtain free | inert := tidy.inert
  · have clean : Clean (["verbatim".toList] ++ passNames) (rewritten ds t) :=
      ⟨tidy.clean.untagged, tidy.clean.single, tidy.clean.free.append free⟩
    obtain ⟨cs, hcs, laid, -⟩ := exists_cells blocks clean restored tidy.finished
    refine ⟨tidy.uncommented, cs, hcs, laid.mono fun n hn => List.mem_append_left _ hn, ?_⟩
    exact inert_of_free ds ((free_guardedCells 0 laid).mono fun n hn => List.mem_append_right _ hn)
  · obtain ⟨cs, hcs, laid, -⟩ := exists_cells blocks tidy.clean restored tidy.finished
    refine ⟨tidy.uncommented, cs, hcs, laid, ?_⟩
    rwa [← hcs, guardRegions_cells (List.mem_singleton_self _) laid] at inert

/-- **What is written tidily is its own rewriting.** -/
theorem transform_twice (h : transform ds t = .ok u) (tidy : Tidy ds t u) :
    transform ds u = .ok u := by
  cases hd : mayHoldDirectives t with
  | true => exact (tidy.settled h hd).transform
  | false =>
      have e : t = u := by
        rw [transform, if_neg (by rw [hd]; simp)] at h
        exact Except.ok.inj h
      rw [← e] at h ⊢
      exact h

/-- A text with an address, a doubled at sign, a raw block, a verbatim block, and a directive that is
left as it is, since no switch is open. -/
def mixed : Text :=
  "@if(ok)me@site.org @@x\x7b% raw %\x7d@@if(1)\x7b% endraw %\x7d" ++
    "@verbatim\x7b\x7b y \x7d\x7d @@@endverbatim@endif@break"

/-- What is written for it. -/
def mixedWritten : Text :=
  tag "if ok" ++ "me@site.org " ++ protect "@" ++ "x" ++ protect "@@if(1)" ++
    protect "\x7b\x7b y \x7d\x7d @@" ++ tag "endif" ++ "@break"

theorem transform_mixed : transform {} mixed = .ok mixedWritten ∧ Tidy {} mixed mixedWritten ∧
    transform {} mixedWritten = .ok mixedWritten := by
  have written : transform {} mixed = .ok mixedWritten := by decide +kernel
  have tidy : Tidy {} mixed mixedWritten := by decide +kernel
  exact ⟨written, tidy, transform_twice written tidy⟩

/-- The next run reads the directive that this one has written into a tag. -/
example : ∃ u, transform {} "@if(name == '@if(x)')yes@endif" = .ok u ∧ transform {} u ≠ .ok u :=
  ⟨"\x7b% if name == '@if(x)' %\x7dyes\x7b% endif %\x7d", by decide +kernel, by decide +kernel⟩

end Pagewright.Lowering
