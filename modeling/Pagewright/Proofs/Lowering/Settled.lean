import Pagewright.Proofs.Directive.Free
import Pagewright.Proofs.Lowering.Passes
import Pagewright.Proofs.Lowering.RawBlock

/-! # Settled texts

A settled text has nothing left to rewrite: no comment, no doubled at sign, no verbatim block, and no
directive that a pass would answer, except in raw blocks, where anything may stand.  Such a text is
read as cells, which are characters in the open and raw blocks.  The rewriting swaps the doubled at
signs of the blocks for sentinels (`escapeMarkers_cells`), puts placeholders for the blocks
(`guardRegions_cells`), finds nothing to replace in between, and puts the same blocks back
(`restoreRegions_cells`), so that a settled text is its own rewriting (`Settled.transform`).

Main definitions: `Cell`, `Laid`, `Inert`, `Settled`. -/

namespace Pagewright.Lowering

open Text Directive

/-! ### Cells -/

/-- A character in the open, or a raw block. -/
inductive Cell where
  | char (c : Char)
  | block (b : RawBlock)

/-- The text of cells. -/
def shownCells : List Cell → Text
  | [] => []
  | .char c :: cs => c :: shownCells cs
  | .block b :: cs => b.shown ++ shownCells cs

/-- The open text in front of the first block. -/
def ahead : List Cell → Text
  | .char c :: cs => c :: ahead cs
  | _ => []

/-- How a placeholder begins. -/
def guardLead : Text := "\x00hk:guard:"

/-- The text of cells with the blocks replaced by placeholders from number `n` on. -/
def guardedCells (n : Nat) : List Cell → Text
  | [] => []
  | .char c :: cs => c :: guardedCells n cs
  | .block _ :: cs => guardToken n ++ guardedCells (n + 1) cs

/-- The blocks among cells. -/
def blocksOf : List Cell → List RawBlock
  | [] => []
  | .char _ :: cs => blocksOf cs
  | .block b :: cs => b :: blocksOf cs

/-- The cells with the doubled at signs of the blocks swapped for sentinels. -/
def escapedCells : List Cell → List Cell
  | [] => []
  | .char c :: cs => .char c :: escapedCells cs
  | .block b :: cs => .block (b.replaced mark_doubled mark_sentinel) :: escapedCells cs

theorem ahead_escapedCells : ∀ cs : List Cell, ahead (escapedCells cs) = ahead cs
  | [] => rfl
  | .char c :: cs => congrArg (c :: ·) (ahead_escapedCells cs)
  | .block _ :: _ => rfl

theorem ends_nil : Ends [] := fun _ h => by cases h

/-- Behind the open text, a block begins or the text ends. -/
theorem shownCells_ahead : ∀ cs : List Cell, ∃ r, shownCells cs = ahead cs ++ r ∧ Ends r
  | [] => ⟨[], rfl, ends_nil⟩
  | .char c :: cs => by
      obtain ⟨r, e, hr⟩ := shownCells_ahead cs
      exact ⟨r, congrArg (c :: ·) e, hr⟩
  | .block b :: cs => ⟨_, rfl, fun c hc => Or.inl (Option.some.inj hc).symm⟩

theorem guardToken_eq (n : Nat) : guardToken n = guardLead ++ ofNat n ++ ['\x00'] := rfl

theorem guardToken_cons (n : Nat) : ∃ v, guardToken n = '\x00' :: v :=
  ⟨"hk:guard:".toList ++ ofNat n ++ ['\x00'], guardToken_eq n⟩

theorem guardToken_ne_nil (n : Nat) : guardToken n ≠ [] := by
  obtain ⟨v, e⟩ := guardToken_cons n
  rw [e]
  exact List.cons_ne_nil _ v

theorem guardedCells_ahead : ∀ (n : Nat) (cs : List Cell),
    ∃ r, guardedCells n cs = ahead cs ++ r ∧ Ends r
  | _, [] => ⟨[], rfl, ends_nil⟩
  | n, .char c :: cs => by
      obtain ⟨r, e, hr⟩ := guardedCells_ahead n cs
      exact ⟨r, congrArg (c :: ·) e, hr⟩
  | n, .block _ :: cs => by
      obtain ⟨v, e⟩ := guardToken_cons n
      refine ⟨guardToken n ++ guardedCells (n + 1) cs, rfl, fun c hc => Or.inr ?_⟩
      rw [e] at hc
      exact (Option.some.inj hc).symm

/-! ### Open text -/

/-- A name that begins in an open stretch ends there. -/
theorem name?_ahead {v r : Text} (h : Ends r) : name? (v ++ r) = name? v := by
  cases v with
  | nil =>
      cases r with
      | nil => rfl
      | cons c r => obtain rfl | rfl := h c rfl <;> rfl
  | cons c v =>
      have hstop : r.takeWhile isWord = [] := by
        cases r with
        | nil => rfl
        | cons d r => obtain rfl | rfl := h d rfl <;> rfl
      have hword : (v ++ r).takeWhile isWord = v.takeWhile isWord := by
        rw [List.takeWhile_append, hstop, List.append_nil]
        split
        · next e => exact ((List.takeWhile_prefix isWord).eq_of_length e).symm
        · rfl
      rw [List.cons_append, name?, name?, hword]

/-- What may stand in the open: a character that begins neither a raw tag nor one of the names, with
the open text behind it. -/
structure Open (names : List Text) (c : Char) (v : Text) : Prop where
  visible : c ≠ '\x00'
  untagged : keywordTag? "raw" (c :: v) = none
  single : c = '@' → v.head? ≠ some '@'
  unnamed : c = '@' → ∀ n, name? v = some n → n ∉ names

/-- All cells are in order: characters may stand in the open, and no block holds a null
character. -/
def Laid (names : List Text) : List Cell → Prop
  | [] => True
  | .char c :: cs => Open names c (ahead cs) ∧ Laid names cs
  | .block b :: cs => '\x00' ∉ b.shown ∧ Laid names cs

variable {names : List Text}

theorem Laid.mono {fewer : List Text} (hs : ∀ n ∈ fewer, n ∈ names) : ∀ {cs : List Cell},
    Laid names cs → Laid fewer cs
  | [], h => h
  | .char _ :: _, ⟨h, hcs⟩ =>
      ⟨⟨h.visible, h.untagged, h.single, fun e n hn hm => h.unnamed e n hn (hs n hm)⟩, hcs.mono hs⟩
  | .block _ :: _, ⟨h, hcs⟩ => ⟨h, hcs.mono hs⟩

/-- No region begins in the open. -/
theorem Open.region? (hv : "verbatim".toList ∈ names) {c : Char} {v r : Text}
    (h : Open names c v) (hr : Ends r) : region? (c :: (v ++ r)) = none := by
  have hword : wholeWord? "@verbatim" (c :: (v ++ r)) = none := by
    by_cases hc : c = '@'
    · cases hw : wholeWord? "@verbatim" (c :: (v ++ r)) with
      | none => rfl
      | some found =>
          obtain ⟨w, e, -, hend⟩ := exists_of_wholeWord? hw
          have e' : v ++ r = "verbatim".toList ++ w := (List.cons.inj e).2
          have hname : name? v = some "verbatim".toList := by
            rw [← name?_ahead hr, e']
            exact name?_append (by decide) hend
          exact absurd hv (h.unnamed hc _ hname)
    · exact wholeWord?_leads "verbatim" c _ hc
  unfold Lowering.region?
  rw [keywordTag?_ahead lettered_raw hr h.untagged, hword]
  rfl

/-! ### Guarding -/

/-- Only the blocks hold doubled at signs. -/
theorem escapeMarkers_cells : ∀ {cs : List Cell}, Laid names cs →
    escapeMarkers (shownCells cs) = shownCells (escapedCells cs)
  | [], _ => rfl
  | .char c :: cs, ⟨h, hcs⟩ => by
      have hp : ¬ "@@".toList <+: c :: shownCells cs := by
        intro hp
        obtain ⟨e, hp⟩ := List.cons_prefix_cons.mp hp
        obtain ⟨r, er, hr⟩ := shownCells_ahead cs
        have hsingle := h.single e.symm
        rw [er] at hp
        cases ha : ahead cs with
        | nil =>
            rw [ha, List.nil_append] at hp
            obtain ⟨w, rfl⟩ := hp
            cases hr '@' rfl with
            | inl e => cases e
            | inr e => cases e
        | cons d v =>
            rw [ha] at hp hsingle
            exact hsingle (congrArg some (List.cons_prefix_cons.mp hp).1.symm)
      exact (replaceAll_char mark_doubled.ne_nil _ hp).trans
        (congrArg (c :: ·) (escapeMarkers_cells hcs))
  | .block b :: cs, ⟨_, hcs⟩ => by
      rw [shownCells, escapeMarkers,
        replaceAll_behind mark_doubled.ne_nil _ mark_doubled.unclosed b.getLast?_shown,
        ← b.shown_replaced mark_doubled mark_sentinel]
      exact congrArg (_ ++ ·) (escapeMarkers_cells hcs)

/-- The blocks are the regions, and nothing else is. -/
theorem piecesFrom_cells (hv : "verbatim".toList ∈ names) : ∀ {cs : List Cell} (n pos : Nat),
    Laid names cs →
      guardPieces n (piecesFrom region? pos 0 (shownCells (escapedCells cs))) = guardedCells n cs ∧
      (piecesFrom region? pos 0 (shownCells (escapedCells cs))).filterMap Piece.value? =
        (blocksOf cs).map fun b => .raw (escapeMarkers b.shown)
  | [], n, pos, _ => ⟨rfl, rfl⟩
  | .char c :: cs, n, pos, ⟨h, hcs⟩ => by
      obtain ⟨r, er, hr⟩ := shownCells_ahead (escapedCells cs)
      have quiet : region? (c :: shownCells (escapedCells cs)) = none := by
        rw [er, ahead_escapedCells]
        exact h.region? hv hr
      obtain ⟨hg, hb⟩ := piecesFrom_cells hv n (pos + 1) hcs
      rw [escapedCells, shownCells, piecesFrom_char pos quiet]
      exact ⟨congrArg (c :: ·) hg, hb⟩
  | .block b :: cs, n, pos, ⟨_, hcs⟩ => by
      have hit := region?_shown (b.replaced mark_doubled mark_sentinel)
        (shownCells (escapedCells cs))
      obtain ⟨hg, hb⟩ := piecesFrom_cells hv (n + 1)
        (pos + (b.replaced mark_doubled mark_sentinel).shown.length) hcs
      rw [escapedCells, shownCells, piecesFrom_hit _ pos (RawBlock.shown_ne_nil _) hit]
      refine ⟨congrArg (guardToken n ++ ·) hg, ?_⟩
      rw [List.filterMap_cons, hb, b.shown_replaced mark_doubled mark_sentinel]
      rfl

theorem blocksOf_visible : ∀ {cs : List Cell}, Laid names cs → ∀ b ∈ blocksOf cs, '\x00' ∉ b.shown
  | .char _ :: _, ⟨_, hcs⟩, b, hb => blocksOf_visible hcs b hb
  | .block _ :: _, ⟨h, hcs⟩, b, hb => by
      obtain rfl | hb := List.mem_cons.mp hb
      · exact h
      · exact blocksOf_visible hcs b hb

/-- **Guarding puts placeholders for the blocks and keeps the blocks as they are.** -/
theorem guardRegions_cells (hv : "verbatim".toList ∈ names) {cs : List Cell} (h : Laid names cs) :
    guardRegions (escapeMarkers (shownCells cs)) =
      (guardedCells 0 cs, (blocksOf cs).map RawBlock.shown) := by
  obtain ⟨hg, hb⟩ := piecesFrom_cells hv 0 0 h
  have kept : ∀ b ∈ blocksOf cs, (Region.raw (escapeMarkers b.shown)).restored true = b.shown :=
    fun b hb => unescape_escape (blocksOf_visible h b hb)
  rw [escapeMarkers_cells h, guardRegions, hits_eq, pieces, hg, hb, List.map_map]
  exact congrArg (guardedCells 0 cs, ·) (List.map_congr_left kept)

/-! ### Restoring -/

/-- A placeholder is recognised by its number, whatever follows it. -/
theorem guardToken?_guardToken (n : Nat) (r : Text) :
    guardToken? (guardToken n ++ r) = some (n, (guardToken n).length) := by
  have hlead : dropLead? guardLead (guardToken n ++ r) = some (ofNat n ++ '\x00' :: r) := by
    rw [guardToken_eq, List.append_assoc, List.append_assoc]
    exact dropLead?_append guardLead _
  have hend : dropLead? "\x00" ('\x00' :: r) = some r := dropLead?_append "\x00".toList r
  unfold guardToken?
  rw [show dropLead? "\x00hk:guard:" (guardToken n ++ r) = _ from hlead]
  simp only [Option.bind_eq_bind, Option.bind_some, takeWhile_ofNat, natOfDigits?_ofNat,
    List.drop_left, hend, List.length_append, Nat.add_sub_cancel]
  rfl

theorem restorePieces_cells : ∀ {cs : List Cell} (pos : Nat) (before : List Text), Laid names cs →
    restorePieces (before ++ (blocksOf cs).map RawBlock.shown)
        (piecesFrom guardToken? pos 0 (guardedCells before.length cs)) = .ok (shownCells cs)
  | [], pos, before, _ => rfl
  | .char c :: cs, pos, before, ⟨h, hcs⟩ => by
      have quiet : guardToken? (c :: guardedCells before.length cs) = none :=
        guardToken?_leads c _ h.visible
      rw [guardedCells, piecesFrom_char pos quiet, restorePieces, blocksOf,
        restorePieces_cells (pos + 1) before hcs]
      rfl
  | .block b :: cs, pos, before, ⟨_, hcs⟩ => by
      have hit := guardToken?_guardToken before.length (guardedCells (before.length + 1) cs)
      have ih := restorePieces_cells (pos + (guardToken before.length).length)
        (before ++ [b.shown]) hcs
      rw [List.append_assoc, List.singleton_append, List.length_append] at ih
      rw [guardedCells, piecesFrom_hit _ pos (guardToken_ne_nil _) hit, restorePieces, blocksOf,
        List.map_cons, List.getElem?_append_right (Nat.le_refl _), Nat.sub_self,
        List.getElem?_cons_zero]
      simp only
      rw [show before.length + 1 = before.length + [b.shown].length from rfl, ih]
      rfl

/-- **The blocks are put back in the place of their placeholders.** -/
theorem restoreRegions_cells {cs : List Cell} (h : Laid names cs) :
    restoreRegions (guardedCells 0 cs) ((blocksOf cs).map RawBlock.shown) = .ok (shownCells cs) :=
  restorePieces_cells 0 [] h

theorem shownCells_visible : ∀ {cs : List Cell}, Laid names cs → '\x00' ∉ shownCells cs
  | [], _ => by simp [shownCells]
  | .char _ :: _, ⟨h, hcs⟩ => by
      rw [shownCells, List.mem_cons, not_or]
      exact ⟨h.visible.symm, shownCells_visible hcs⟩
  | .block _ :: _, ⟨h, hcs⟩ => not_mem_append h (shownCells_visible hcs)

/-! ### Passes with nothing to do -/

/-- A pass asks for no edits. -/
def Idle {σ : Type} (names : List Text) (handler : σ → Directive → Option Text × σ) (s : σ)
    (t : Text) : Prop := (editsOf handler s (named names (directives t))).1 = []

instance {σ : Type} (names : List Text) (handler : σ → Directive → Option Text × σ) (s : σ)
    (t : Text) : Decidable (Idle names handler s t) :=
  decidable_of_iff ((editsOf handler s (named names (directives t))).1.isEmpty = true)
    List.isEmpty_iff

theorem Idle.replaceWith {σ : Type} {handler : σ → Directive → Option Text × σ} {s : σ} {t : Text}
    (h : Idle names handler s t) : (replaceWith names handler s t).1 = t := by
  unfold Directive.replaceWith
  simp only [applyEdits]
  rw [h]
  rfl

theorem idle_of_free {σ : Type} (handler : σ → Directive → Option Text × σ) (s : σ) {t : Text}
    (h : Free names t) : Idle names handler s t := by
  rw [Idle, named_free h]
  rfl

/-- No pass asks for edits. -/
structure Inert (ds : Delimiters) (t : Text) : Prop where
  conditionals : Idle conditionalNames conditionalStep () t
  switches : Idle switchNames switchTag? {} t
  loops : Idle loopNames loopTag? {} t
  helpers : Idle helperNames (helperStep ds) () t
  markers : Idle stackNames (stackMarker? t) [] t
  includes : Idle includeNames (fun s d => (includeTag? d, s)) () t

instance (ds : Delimiters) (t : Text) : Decidable (Inert ds t) :=
  decidable_of_iff (Idle conditionalNames conditionalStep () t ∧ Idle switchNames switchTag? {} t ∧
      Idle loopNames loopTag? {} t ∧ Idle helperNames (helperStep ds) () t ∧
      Idle stackNames (stackMarker? t) [] t ∧
      Idle includeNames (fun (s : Unit) d => (includeTag? d, s)) () t)
    ⟨fun ⟨a, b, c, d, e, f⟩ => ⟨a, b, c, d, e, f⟩, fun ⟨a, b, c, d, e, f⟩ => ⟨a, b, c, d, e, f⟩⟩

theorem rewriteAll_inert {ds : Delimiters} {t : Text} (h : Inert ds t) : rewriteAll ds t = t := by
  have h1 : rewriteConditionals t = t := h.conditionals.replaceWith
  have h2 : rewriteSwitches t = t := h.switches.replaceWith
  have h3 : rewriteLoops t = t := h.loops.replaceWith
  have h4 : rewriteHelpers t ds.start ds.stop = t := h.helpers.replaceWith
  have h5 : rewriteStackMarkers t = t := h.markers.replaceWith
  have h6 : rewriteIncludes t = t := h.includes.replaceWith
  rw [rewriteAll, h1, h2, h3, h4, h5, h6]

/-- The names that some pass looks for. -/
def passNames : List Text :=
  conditionalNames ++ switchNames ++ loopNames ++ helperNames ++ stackNames ++ includeNames

theorem inert_of_free (ds : Delimiters) {t : Text} (h : Free passNames t) : Inert ds t where
  conditionals := idle_of_free _ _ (h.mono fun n hn => by simp [passNames, hn])
  switches := idle_of_free _ _ (h.mono fun n hn => by simp [passNames, hn])
  loops := idle_of_free _ _ (h.mono fun n hn => by simp [passNames, hn])
  helpers := idle_of_free _ _ (h.mono fun n hn => by simp [passNames, hn])
  markers := idle_of_free _ _ (h.mono fun n hn => by simp [passNames, hn])
  includes := idle_of_free _ _ (h.mono fun n hn => by simp [passNames, hn])

/-! ### Settled texts -/

/-- A text without comments that is read as cells, of which no verbatim directive, doubled at sign
or raw tag stands in the open, and no directive that a pass would answer. -/
structure Settled (ds : Delimiters) (t : Text) : Prop where
  uncommented : Nowhere comment? t
  cells : ∃ cs, shownCells cs = t ∧ Laid ["verbatim"] cs ∧ Inert ds (guardedCells 0 cs)

/-- **A settled text is its own rewriting.** -/
theorem Settled.transform {ds : Delimiters} {t : Text} (h : Settled ds t) :
    transform ds t = .ok t := by
  obtain ⟨cs, rfl, laid, inert⟩ := h.cells
  have uncommented : stripComments (shownCells cs) = shownCells cs :=
    replaceHits_quiet _ h.uncommented.quiet
  unfold Lowering.transform
  split
  · rw [uncommented, guardRegions_cells (by simp) laid]
    simp only [rewriteAll_inert inert, restoreRegions_cells laid]
    exact congrArg Except.ok (restoreMarkers_eq_self (shownCells_visible laid))
  · rfl

end Pagewright.Lowering
