import Pagewright.Proofs.Directive.Block
import Pagewright.Proofs.Directive.Scan

/-! # Blocks that do not nest, against one scan

Blocks are looked for by scanning again and again: for an opener, for the directive that may close it,
and for the next opener from where the block ends (`Pairs`).  All these scans stay in step with a single
scan of the whole text, as a scan may be taken up again behind any directive.  So every well-formed
opener of the scan has its block, and is closed by the next directive of its family if this is a closer
(`blocks_paired`).

Main definitions: `Pairs`, `wellFormed`. -/

namespace Pagewright.Directive

open Text

variable {t : Text}

/-! ### From block to block -/

/-- The blocks that are found from an offset on when one goes from block to block: each time the next
opener is looked for, and behind it, unless it is malformed or complete in itself, the next directive
of the family. -/
inductive Pairs (t opening closing : Text) (isInline : Directive → Bool) : Nat → List Block → Prop
  | done {pos : Nat} : next? [opening] t pos = none → Pairs t opening closing isInline pos []
  | malformed {pos : Nat} {d : Directive} {bs : List Block} : next? [opening] t pos = some d →
      d.malformed = true → Pairs t opening closing isInline d.stop bs →
        Pairs t opening closing isInline pos bs
  | inline {pos : Nat} {d : Directive} {bs : List Block} : next? [opening] t pos = some d →
      d.malformed = false → isInline d = true → Pairs t opening closing isInline d.stop bs →
        Pairs t opening closing isInline pos (⟨d, none, none⟩ :: bs)
  | closed {pos : Nat} {d e : Directive} {bs : List Block} : next? [opening] t pos = some d →
      d.malformed = false → isInline d = false → next? [opening, closing] t d.stop = some e →
        e.name = closing → Pairs t opening closing isInline e.stop bs →
          Pairs t opening closing isInline pos
            (⟨d, some e, some (slice t d.stop e.start)⟩ :: bs)
  | alone {pos : Nat} {d : Directive} {bs : List Block} : next? [opening] t pos = some d →
      d.malformed = false → isInline d = false →
        (∀ e, next? [opening, closing] t d.stop = some e → e.name ≠ closing) →
          Pairs t opening closing isInline d.stop bs →
            Pairs t opening closing isInline pos (⟨d, none, none⟩ :: bs)

section

variable {opening closing : Text} {isInline : Directive → Bool} {pos : Nat} {bs : List Block}

/-- Going from block to block ends. -/
theorem exists_pairs (t opening closing : Text) (isInline : Directive → Bool) (pos : Nat) :
    ∃ bs, Pairs t opening closing isInline pos bs := by
  induction pos using induction_behind t with
  | h pos ih =>
    cases opener : next? [opening] t pos with
    | none => exact ⟨[], .done opener⟩
    | some d =>
      obtain ⟨front, inside⟩ := next?_bounded opener
      obtain ⟨bs, behind⟩ := ih d.stop front inside
      cases formed : d.malformed with
      | true => exact ⟨bs, .malformed opener formed behind⟩
      | false =>
        cases short : isInline d with
        | true => exact ⟨_, .inline opener formed short behind⟩
        | false =>
          by_cases closes : ∃ e, next? [opening, closing] t d.stop = some e ∧ e.name = closing
          · obtain ⟨e, next, name⟩ := closes
            obtain ⟨front', inside'⟩ := next?_bounded next
            obtain ⟨bs', behind'⟩ := ih e.stop (by omega) inside'
            exact ⟨_, .closed opener formed short next name behind'⟩
          · exact ⟨_, .alone opener formed short (fun e next name => closes ⟨e, next, name⟩) behind⟩

theorem name_of_next {d : Directive} (h : next? [opening] t pos = some d) : d.name = opening :=
  List.mem_singleton.mp (next?_eq_some h).1

/-- What is in front of the next opener makes no blocks. -/
theorem blocksFrom_next (closing : Text) (isInline : Directive → Bool) {d : Directive}
    (h : next? [opening] t pos = some d) :
    blocksFrom t opening closing isInline 0 (directives t pos) =
      blocksFrom t opening closing isInline 0 (d :: directives t d.stop) := by
  obtain ⟨-, before, whole, others⟩ := next?_eq_some h
  rw [whole, blocksFrom_before t _ fun b hb => by simpa using others b hb]

/-- **Going from block to block finds the blocks among the directives** of a single scan. -/
theorem Pairs.eq_blocksFrom (h : Pairs t opening closing isInline pos bs) :
    bs = blocksFrom t opening closing isInline 0 (directives t pos) := by
  induction h with
  | done none =>
    exact (blocksFrom_eq_nil t _ fun d hd => by simpa using next?_eq_none.mp none d hd).symm
  | malformed opener formed _ ih =>
    rw [blocksFrom_next closing isInline opener, ih, blocksFrom, if_pos (Or.inr formed)]
  | inline opener formed short _ ih =>
    rw [blocksFrom_next closing isInline opener, ih,
      blocksFrom_inline t _ (name_of_next opener) formed short]
  | @closed pos d e bs opener formed short next closes _ ih =>
    obtain ⟨mem, between, whole, others⟩ := next?_eq_some next
    rw [blocksFrom_next closing isInline opener, whole,
      blocksFrom_opener t _ (name_of_next opener) formed short others mem, if_pos closes, ih]
  | @alone pos d bs opener formed short unclosed _ ih =>
    have name := name_of_next opener
    rw [blocksFrom_next closing isInline opener, ih]
    cases next : next? [opening, closing] t d.stop with
    | none => exact (blocksFrom_last t name formed (next?_eq_none.mp next)).symm
    | some e =>
      obtain ⟨mem, between, whole, others⟩ := next?_eq_some next
      rw [whole, blocksFrom_opener t _ name formed short others mem, if_neg (unclosed e next)]

theorem pairs_iff :
    Pairs t opening closing isInline pos bs ↔
      bs = blocksFrom t opening closing isInline 0 (directives t pos) := by
  refine ⟨Pairs.eq_blocksFrom, fun e => ?_⟩
  obtain ⟨bs', h⟩ := exists_pairs t opening closing isInline pos
  rwa [e, ← h.eq_blocksFrom]

/-! ### Openers and closers -/

/-- The directives of one name that are well-formed. -/
def wellFormed (name : Text) (ds : List Directive) : List Directive :=
  ds.filter fun d => d.name = name ∧ d.malformed = false

theorem wellFormed_before {name : Text} {before : List Directive} (ds : List Directive)
    (h : ∀ d ∈ before, d.name ≠ name) : wellFormed name (before ++ ds) = wellFormed name ds := by
  rw [wellFormed, List.filter_append, List.filter_eq_nil_iff.mpr fun d hd => ?_, List.nil_append,
    wellFormed]
  simp [h d hd]

/-- The well-formed openers from an offset on are those from the next opener on. -/
theorem wellFormed_next {d : Directive} (h : next? [opening] t pos = some d) :
    wellFormed opening (directives t pos) = wellFormed opening (d :: directives t d.stop) := by
  obtain ⟨-, before, whole, others⟩ := next?_eq_some h
  rw [whole, wellFormed_before _ fun b hb => by simpa using others b hb]

theorem wellFormed_opener {d : Directive} (h : next? [opening] t pos = some d)
    (formed : d.malformed = false) :
    wellFormed opening (directives t pos) = d :: wellFormed opening (directives t d.stop) := by
  have name := name_of_next h
  rw [wellFormed_next h, wellFormed, List.filter_cons_of_pos (by simp [name, formed]), wellFormed]

/-- **Every well-formed opener has its block**, in order. -/
theorem Pairs.openers (distinct : opening ≠ closing) (h : Pairs t opening closing isInline pos bs) :
    bs.map Block.opener = wellFormed opening (directives t pos) := by
  induction h with
  | done none =>
    refine (List.filter_eq_nil_iff.mpr fun d hd => ?_).symm
    have other : d.name ≠ opening := by simpa using next?_eq_none.mp none d hd
    simp [other]
  | malformed opener formed _ ih =>
    rw [wellFormed_next opener, wellFormed, List.filter_cons_of_neg (by simp [formed]), ih, wellFormed]
  | inline opener formed _ _ ih => rw [wellFormed_opener opener formed, List.map_cons, ih]
  | @closed pos d e bs opener formed _ next closes _ ih =>
    -- Between an opener and its closer there is no opener, and the closer is none.
    obtain ⟨-, between, whole, others⟩ := next?_eq_some next
    have none : ∀ x ∈ between ++ [e], x.name ≠ opening := by
      intro x hx
      obtain hx | hx := List.mem_append.mp hx
      · exact fun name => others x hx (name ▸ List.mem_cons_self)
      · rw [List.mem_singleton.mp hx, closes]
        exact distinct.symm
    have behind := wellFormed_before (directives t e.stop) none
    rw [List.append_assoc, List.singleton_append, ← whole] at behind
    rw [wellFormed_opener opener formed, List.map_cons, ih, behind]
  | alone opener formed _ _ _ ih => rw [wellFormed_opener opener formed, List.map_cons, ih]

/-- What closes a block, and what it holds. -/
theorem Pairs.closers (h : Pairs t opening closing isInline pos bs) : ∀ b ∈ bs,
    (∀ e, b.closer = some e ↔ isInline b.opener = false ∧
      next? [opening, closing] t b.opener.stop = some e ∧ e.name = closing) ∧
    b.content = b.closer.map fun e => slice t b.opener.stop e.start := by
  induction h with
  | done => exact fun b hb => absurd hb List.not_mem_nil
  | malformed _ _ _ ih => exact ih
  | inline _ _ short _ ih =>
    refine List.forall_mem_cons.mpr ⟨⟨fun e => ?_, rfl⟩, ih⟩
    simp [short]
  | @closed _ d e bs _ _ short next closes _ ih =>
    refine List.forall_mem_cons.mpr ⟨⟨fun e' => ?_, rfl⟩, ih⟩
    constructor
    · intro same
      obtain rfl := Option.some.inj same
      exact ⟨short, next, closes⟩
    · rintro ⟨-, next', -⟩
      exact next.symm.trans next'
  | alone _ _ _ unclosed _ ih =>
    refine List.forall_mem_cons.mpr ⟨⟨fun e => ?_, rfl⟩, ih⟩
    simp only [reduceCtorEq, false_iff, not_and]
    exact fun _ next => unclosed e next

end

/-- **Looking for blocks misses and repeats nothing.**  Going from block to block ends.  The openers of
the blocks are the well-formed openers of a single scan, each once and in order.  A block has a closer
if it is not complete in itself and the next directive of the family behind its opener is a closer, it
then holds the text between the two, and no block reaches into another. -/
theorem blocks_paired {opening closing : Text} (distinct : opening ≠ closing)
    (isInline : Directive → Bool) (t : Text) :
    (∀ bs, Pairs t opening closing isInline 0 bs ↔ bs = blocks opening closing isInline t) ∧
    (blocks opening closing isInline t).map Block.opener =
      (directives t).filter (fun d => d.name = opening ∧ d.malformed = false) ∧
    (∀ b ∈ blocks opening closing isInline t,
      (∀ before after, directives t = before ++ b.opener :: after → ∀ e, b.closer = some e ↔
        isInline b.opener = false ∧ (named [opening, closing] after).head? = some e ∧
          e.name = closing) ∧
      b.content = b.closer.map fun e => slice t b.opener.stop e.start) ∧
    LaidBlocks t.length 0 (blocks opening closing isInline t) := by
  have found : Pairs t opening closing isInline 0 (blocks opening closing isInline t) :=
    pairs_iff.mpr rfl
  refine ⟨fun bs => pairs_iff, found.openers distinct, fun b hb => ?_, laid_blocks t _ _ _⟩
  obtain ⟨closer, content⟩ := found.closers b hb
  refine ⟨fun before after whole e => ?_, content⟩
  rw [closer, next?, directives_resumed whole]

/-- An opener in front of another one stands alone, and one whose brackets do not close begins no
block. -/
theorem blocks_paired_alone : ("slot".toList : Text) ≠ "endslot" ∧
    (blocks "slot" "endslot" (fun _ => false) "@slot('a')1@slot('b')2@endslot@slot(3").map
        Block.opener =
      [⟨"slot", some "'a'".toList, 0, 10, false⟩, ⟨"slot", some "'b'".toList, 11, 21, false⟩] ∧
    (blocks "slot" "endslot" (fun _ => false) "@slot('a')1@slot('b')2@endslot@slot(3").map
        Block.content = [none, some ['2']] := by
  have distinct : ("slot".toList : Text) ≠ "endslot" := by decide
  obtain ⟨-, openers, -, -⟩ :=
    blocks_paired distinct (fun _ => false) "@slot('a')1@slot('b')2@endslot@slot(3"
  exact ⟨distinct, openers.trans (by decide +kernel), by decide +kernel⟩

end Pagewright.Directive
