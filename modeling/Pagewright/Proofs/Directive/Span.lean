import Pagewright.Directive.Block
import Pagewright.Proofs.Directive.Free
import Pagewright.Proofs.Text.Revision

/-! # Where directives stand

The directives of any text, well written or not, stand one behind the other inside of the text
(`laid_scanFrom`), so the blocks that they make do too (`laid_blocks`), and the edits that a pass asks
for (`inOrder_editsOf`), each of which covers a directive with one of the names of the pass
(`revised_pass`).

Main definitions: `Laid`, `LaidBlocks`, `passEdits`, `Answered`. -/

namespace Pagewright.Directive

open Text

/-! ### One directive -/

/-- What stands behind some characters at an offset stands behind more of them in a longer text. -/
theorem exists_of_map_add {P : Char → Prop} {o : Option Nat} {r : Text} {n : Nat} (k : Text)
    (h : o.map (· + k.length) = some n)
    (ih : ∀ {m}, o = some m → ∃ u c y, r = u ++ c :: y ∧ u.length = m ∧ P c) :
    ∃ u c y, k ++ r = u ++ c :: y ∧ u.length = n ∧ P c := by
  obtain ⟨m, hm, rfl⟩ := Option.map_eq_some_iff.mp h
  obtain ⟨u, c, y, rfl, rfl, hc⟩ := ih hm
  refine ⟨k ++ u, c, y, (List.append_assoc _ _ _).symm, ?_, hc⟩
  rw [List.length_append, Nat.add_comm]

/-- What closes a list is a closing bracket. -/
theorem exists_of_closingFrom {expected : List Char} {quote : Option Char} {t : Text} {n : Nat}
    (h : closingFrom expected quote t = some n) :
    ∃ u c y, t = u ++ c :: y ∧ u.length = n ∧ isCloser c = true := by
  -- Where the last bracket is met the offset is zero; everywhere else one or two characters go by.
  fun_induction closingFrom expected quote t generalizing n with
  | case1 => cases h
  | case2 expected q c r ih => exact exists_of_map_add ['\\', c] h ih
  | case3 expected q c r _ ih => exact exists_of_map_add [c] h ih
  | case4 expected c r _ ih => exact exists_of_map_add [c] h ih
  | case5 expected c r _ d _ ih => exact exists_of_map_add [c] h ih
  | case6 => cases h
  | case7 r d ds _ _ closer =>
    obtain rfl := Option.some.inj h
    exact ⟨[], d, r, rfl, rfl, by assumption⟩
  | case8 r d ds _ _ _ _ ih => exact exists_of_map_add [d] h ih
  | case9 => cases h
  | case10 expected c r _ _ _ ih => exact exists_of_map_add [c] h ih

/-- A directive is read alike wherever it stands, also where nothing stands in front of it. -/
theorem at?_alone {prev : Option Char} {pos : Nat} {r : Text} {d : Directive}
    (h : at? prev pos r = some d) : ∃ e, at? none 0 r = some e ∧ e.name = d.name ∧
      e.malformed = d.malformed ∧ d.start = pos ∧ d.stop = pos + e.stop := by
  have apart : ∀ after, ¬ InAddress none after := fun _ inside => Bool.false_ne_true inside.1
  cases at?_eq_some_iff.mp h with
  | bare name _ alone =>
    exact ⟨_, at?_eq_some_iff.mpr (.bare name (apart _) alone), rfl, rfl, rfl, by simp only; omega⟩
  | unclosed name _ takes start unclosed =>
    exact ⟨_, at?_eq_some_iff.mpr (.unclosed name (apart _) takes start unclosed), rfl, rfl, rfl,
      by simp only; omega⟩
  | called name _ takes start closes =>
    exact ⟨_, at?_eq_some_iff.mpr (.called name (apart _) takes start closes), rfl, rfl, rfl,
      by simp only; omega⟩

theorem length_name? {t n : Text} (h : name? t = some n) : 0 < n.length ∧ n.length ≤ t.length := by
  unfold name? at h
  split at h
  · next c r =>
    split at h
    · obtain rfl := Option.some.inj h
      have inside := (List.takeWhile_prefix isWord (l := r)).length_le
      simp only [List.length_cons]
      omega
    · cases h
  · cases h

/-- A directive stands inside of the text. -/
theorem at?_bounded {prev : Option Char} {pos : Nat} {r : Text} {d : Directive}
    (h : at? prev pos r = some d) : pos + 1 < d.stop ∧ d.stop ≤ pos + 1 + r.length := by
  obtain ⟨given, inside⟩ := length_name? (at?_name h)
  cases at?_eq_some_iff.mp h with
  | bare | unclosed =>
    simp only at given inside ⊢
    omega
  | called _ _ _ _ closes =>
    obtain ⟨u, c, y, whole, rfl, -⟩ := exists_of_closingFrom closes
    have length := congrArg List.length whole
    rw [List.length_drop, List.length_drop, List.length_append, List.length_cons] at length
    simp only at given inside ⊢
    omega

/-- Arguments are a stretch of what follows the at sign, in front of a closing bracket. -/
theorem exists_of_args {prev : Option Char} {pos : Nat} {r a : Text} {d : Directive}
    (h : at? prev pos r = some d) (ha : d.args = some a) :
    ∃ x c y, r = x ++ (a ++ c :: y) ∧ isCloser c = true := by
  cases at?_eq_some_iff.mp h with
  | bare | unclosed => cases ha
  | @called n blanks _ _ _ _ _ closes =>
    obtain ⟨u, c, y, whole, rfl, hc⟩ := exists_of_closingFrom closes
    obtain rfl := Option.some.inj ha
    -- The opening bracket stands in front of the arguments.
    refine ⟨r.take (n.length + blanks) ++ u.take 1, c, y, ?_, hc⟩
    have args : slice (u ++ c :: y) 1 u.length = u.drop 1 := by
      rw [slice, List.drop_append, List.take_append]
      simp
    rw [whole, args, List.append_assoc, ← List.append_assoc (u.take 1), List.take_append_drop,
      ← whole, List.drop_drop, List.take_append_drop]

/-! ### All directives -/

/-- Directives that stand one behind the other, from an offset on and up to another. -/
def Laid (stop : Nat) : Nat → List Directive → Prop
  | last, [] => last ≤ stop
  | last, d :: ds => last ≤ d.start ∧ d.start ≤ d.stop ∧ Laid stop d.stop ds

theorem Laid.mono {stop last last' : Nat} {ds : List Directive} (h : Laid stop last ds)
    (le : last' ≤ last) : Laid stop last' ds := by
  cases ds with
  | nil => exact Nat.le_trans le h
  | cons d ds => exact ⟨Nat.le_trans le h.1, h.2⟩

theorem Laid.le {stop last : Nat} {ds : List Directive} (h : Laid stop last ds) : last ≤ stop := by
  induction ds generalizing last with
  | nil => exact h
  | cons d ds ih => exact Nat.le_trans (Nat.le_trans h.1 h.2.1) (ih h.2.2)

/-- A directive among others that stand one behind the other, and those behind it. -/
theorem Laid.behind {stop last i : Nat} {d : Directive} {ds : List Directive}
    (h : Laid stop last ds) (hd : ds[i]? = some d) :
    last ≤ d.start ∧ d.start ≤ d.stop ∧ Laid stop d.stop (ds.drop (i + 1)) := by
  induction ds generalizing last i with
  | nil => cases hd
  | cons e ds ih =>
    cases i with
    | zero =>
      obtain rfl := Option.some.inj hd
      exact h
    | succ i =>
      obtain ⟨front, around, behind⟩ := h
      obtain ⟨first, rest⟩ := ih behind hd
      exact ⟨by omega, rest⟩

theorem Laid.inside {stop last : Nat} {ds : List Directive} (h : Laid stop last ds) :
    ∀ d ∈ ds, last ≤ d.start ∧ d.stop ≤ stop := by
  induction ds generalizing last with
  | nil => exact fun d hd => absurd hd List.not_mem_nil
  | cons e ds ih =>
    obtain ⟨front, around, behind⟩ := h
    refine List.forall_mem_cons.mpr ⟨⟨front, behind.le⟩, fun d hd => ?_⟩
    obtain ⟨later, room⟩ := ih behind d hd
    exact ⟨by omega, room⟩

theorem Laid.apart {stop last : Nat} {ds : List Directive} (h : Laid stop last ds) :
    ds.Pairwise fun d e => d.stop ≤ e.start := by
  induction ds generalizing last with
  | nil => exact .nil
  | cons e ds ih => exact .cons (fun d hd => (h.2.2.inside d hd).1) (ih h.2.2)

/-- **The directives of a text stand one behind the other.** -/
theorem laid_scanFrom (prev : Option Char) (pos skip : Nat) (t : Text) (h : skip ≤ t.length) :
    Laid (pos + t.length) (pos + skip) (scanFrom prev pos skip t) := by
  induction t generalizing prev pos skip with
  | nil =>
    obtain rfl := Nat.le_zero.mp h
    rw [scanFrom]
    exact Nat.le_refl _
  | cons c r ih =>
    have later : ∀ prev skip, skip ≤ r.length →
        Laid (pos + (c :: r).length) (pos + 1 + skip) (scanFrom prev (pos + 1) skip r) := by
      intro prev skip h
      rw [List.length_cons, show pos + (r.length + 1) = pos + 1 + r.length by omega]
      exact ih prev (pos + 1) skip h
    rw [List.length_cons] at h
    cases skip with
    | succ k =>
      rw [show pos + (k + 1) = pos + 1 + k by omega]
      exact later _ k (Nat.le_of_succ_le_succ h)
    | zero =>
      rw [scanFrom]
      split
      · split
        · next twice =>
          have given : 1 ≤ r.length := by
            cases r with
            | nil => cases twice
            | cons _ r => exact Nat.succ_pos _
          exact (later _ 1 given).mono (by omega)
        · split
          · next d found =>
            obtain ⟨e, -, -, -, start, -⟩ := at?_alone found
            obtain ⟨front, inside⟩ := at?_bounded found
            have behind := later (some c) (d.stop - pos - 1) (by omega)
            refine ⟨by omega, by omega, behind.mono (by omega)⟩
          · exact (later _ 0 (Nat.zero_le _)).mono (by omega)
      · exact (later _ 0 (Nat.zero_le _)).mono (by omega)

/-- Every directive is read where it stands. -/
theorem at?_of_mem_scanFrom {whole t : Text} {prev : Option Char} {pos skip : Nat}
    (ht : whole.drop pos = t) : ∀ d ∈ scanFrom prev pos skip t,
      ∃ r prev', whole.drop d.start = '@' :: r ∧ at? prev' d.start r = some d := by
  induction t generalizing prev pos skip with
  | nil =>
    intro d hd
    rw [scanFrom] at hd
    cases hd
  | cons c r ih =>
    have hr : whole.drop (pos + 1) = r := by rw [← List.drop_drop, ht, List.drop_one, List.tail_cons]
    cases skip with
    | succ k => exact ih hr
    | zero =>
      rw [scanFrom]
      split
      · next hc =>
        subst hc
        split
        · exact ih hr
        · split
          · next d found =>
            intro e he
            rcases List.mem_cons.mp he with rfl | he
            · obtain ⟨-, -, -, -, start, -⟩ := at?_alone found
              rw [start]
              exact ⟨r, prev, ht, found⟩
            · exact ih hr e he
          · exact ih hr
      · exact ih hr

/-! ### Blocks -/

/-- Blocks that stand one behind the other, from an offset on and up to another. -/
structure LaidBlocks (stop last : Nat) (bs : List Block) : Prop where
  inside : ∀ b ∈ bs, last ≤ b.start ∧ b.start ≤ b.stop ∧ b.stop ≤ stop
  behind : bs.Pairwise fun a b => a.stop ≤ b.start

namespace LaidBlocks

variable {stop last : Nat} {b : Block} {bs : List Block}

theorem nil : LaidBlocks stop last [] := ⟨fun _ h => absurd h List.not_mem_nil, .nil⟩

theorem cons (front : last ≤ b.start) (around : b.start ≤ b.stop) (room : b.stop ≤ stop)
    (h : LaidBlocks stop b.stop bs) : LaidBlocks stop last (b :: bs) := by
  refine ⟨List.forall_mem_cons.mpr ⟨⟨front, around, room⟩, fun a ha => ?_⟩,
    List.pairwise_cons.mpr ⟨fun a ha => (h.inside a ha).1, h.behind⟩⟩
  obtain ⟨later, rest⟩ := h.inside a ha
  exact ⟨by omega, rest⟩

theorem tail (h : LaidBlocks stop last (b :: bs)) : LaidBlocks stop b.stop bs := by
  obtain ⟨later, others⟩ := List.pairwise_cons.mp h.behind
  exact ⟨fun a ha => ⟨later a ha, (h.inside a (List.mem_cons_of_mem b ha)).2⟩, others⟩

theorem sublist {bs' : List Block} (h : LaidBlocks stop last bs) (sub : bs'.Sublist bs) :
    LaidBlocks stop last bs' :=
  ⟨fun b hb => h.inside b (sub.subset hb), h.behind.sublist sub⟩

end LaidBlocks

section

variable (t opening closing : Text) (isInline : Directive → Bool)

/-- **Blocks that do not nest stand one behind the other.** -/
theorem laid_blocksFrom (skip : Nat) {stop last : Nat} {ds : List Directive}
    (h : Laid stop last (ds.drop skip)) :
    LaidBlocks stop last (blocksFrom t opening closing isInline skip ds) := by
  -- An opener alone covers itself, and a closed block reaches up to its closer.
  have single : ∀ {last d ds}, Laid stop last (d :: ds) →
      (∀ {last}, Laid stop last ds →
        LaidBlocks stop last (blocksFrom t opening closing isInline 0 ds)) →
        LaidBlocks stop last (⟨d, none, none⟩ :: blocksFrom t opening closing isInline 0 ds) :=
    fun h ih => .cons h.1 h.2.1 h.2.2.le (ih h.2.2)
  fun_induction blocksFrom t opening closing isInline skip ds generalizing last with
  | case1 => exact .nil
  | case2 skip d ds ih => exact ih h
  | case3 d ds other ih => exact ih (h.2.2.mono (Nat.le_trans h.1 h.2.1))
  | case6 d ds _ _ i found e he closes _ ih =>
    obtain ⟨front, around, behind⟩ := h
    obtain ⟨next, rest, later⟩ := behind.behind he
    exact .cons front (Nat.le_trans around (Nat.le_trans next rest)) later.le (ih later)
  | _ => exact single h (by assumption)

theorem laid_blocks : LaidBlocks t.length 0 (blocks opening closing isInline t) := by
  have laid := laid_scanFrom none 0 0 t (Nat.zero_le _)
  rw [Nat.zero_add] at laid
  exact laid_blocksFrom t opening closing isInline 0 laid

/-- A closed block has the text between its directives as its content. -/
theorem content_blocksFrom (skip : Nat) (ds : List Directive) :
    ∀ b ∈ blocksFrom t opening closing isInline skip ds, ∀ e ∈ b.closer,
      b.content = some (slice t b.opener.stop e.start) := by
  fun_induction blocksFrom t opening closing isInline skip ds with
  | case1 => exact fun b hb => absurd hb List.not_mem_nil
  | case2 _ _ _ ih => exact ih
  | case3 _ _ _ ih => exact ih
  | case6 d ds _ _ i found e he closes _ ih =>
    refine List.forall_mem_cons.mpr ⟨fun e' he' => ?_, ih⟩
    obtain rfl := Option.some.inj he'
    rfl
  | _ => exact List.forall_mem_cons.mpr ⟨fun e he => absurd he (Option.not_mem_none e), by assumption⟩

end

/-! ### Passes -/

variable {σ : Type} (names : List Text) (handler : σ → Directive → Option Text × σ) (s : σ)

/-- The edits that a pass asks for. -/
def passEdits (t : Text) : List Edit := (editsOf handler s (named names (directives t))).1

theorem inOrder_editsOf {stop last : Nat} {ds : List Directive} (h : Laid stop last ds) :
    InOrder stop last (editsOf handler s (named names ds)).1 := by
  induction ds generalizing s last with
  | nil => exact h
  | cons d ds ih =>
    obtain ⟨front, around, behind⟩ := h
    have skipped := fun s => (ih s behind).mono (Nat.le_trans front around)
    rw [named, List.filter_cons]
    split
    · rw [editsOf]
      split
      · exact skipped s
      · simp only
        split
        · exact ⟨front, around, ih _ behind⟩
        · exact skipped _
    · exact skipped s

/-- The states that the handler comes to on directives with the names. -/
inductive Reached : σ → Prop
  | start : Reached s
  | next {s' : σ} (d : Directive) : Reached s' → d.name ∈ names → Reached (handler s' d).2

/-- Every edit stands at a well-formed directive with one of the names and is the handler's answer. -/
theorem exists_of_mem_editsOf {ds : List Directive} {s' : σ} (hs : Reached names handler s s') :
    ∀ e ∈ (editsOf handler s' (named names ds)).1, ∃ d ∈ ds, d.name ∈ names ∧
      d.malformed = false ∧
      (∃ s'', Reached names handler s s'' ∧ (handler s'' d).1 = some e.new) ∧
      e.start = d.start ∧ e.stop = d.stop := by
  induction ds generalizing s' with
  | nil =>
    intro e he
    cases he
  | cons d ds ih =>
    have later : ∀ {s'}, Reached names handler s s' →
        ∀ e ∈ (editsOf handler s' (named names ds)).1, ∃ d' ∈ d :: ds, d'.name ∈ names ∧
          d'.malformed = false ∧
          (∃ s'', Reached names handler s s'' ∧ (handler s'' d').1 = some e.new) ∧
          e.start = d'.start ∧ e.stop = d'.stop := by
      intro s' hs e he
      obtain ⟨d', hm, rest⟩ := ih hs e he
      exact ⟨d', List.mem_cons_of_mem d hm, rest⟩
    rw [named, List.filter_cons]
    split
    · next known =>
      have known := List.contains_iff_mem.mp known
      rw [editsOf]
      split
      · exact later hs
      · next formed =>
        simp only
        split
        · next new answer =>
          intro e he
          rcases List.mem_cons.mp he with rfl | he
          · exact ⟨d, List.mem_cons_self, known, Bool.eq_false_iff.mpr formed, ⟨s', hs, answer⟩,
              rfl, rfl⟩
          · exact later (hs.next d known) e he
        · exact later (hs.next d known)
    · exact later hs

/-- A stretch that is read as a well-formed directive with one of the names, in front of what follows
it, gives way to the handler's answer, which may depend on the directives before. -/
def Answered (old m : Marked) (new : Text) : Prop :=
  ∃ prev pos r d s', textOf (old ++ m) = '@' :: r ∧ at? prev pos r = some d ∧
    d.stop = pos + old.length ∧ d.malformed = false ∧ d.name ∈ names ∧
    Reached names handler s s' ∧ (handler s' d).1 = some new

/-- **A pass changes nothing but directives with its names.** -/
theorem revised_pass (m : Marked) :
    Revised (Answered names handler s) m (revise (passEdits names handler s (textOf m)) m) := by
  have order := inOrder_editsOf names handler s (laid_scanFrom none 0 0 (textOf m) (Nat.zero_le _))
  rw [Nat.zero_add, length_textOf] at order
  apply revised_revise order
  intro e he
  obtain ⟨d, hd, known, formed, ⟨s', reached, answer⟩, start, stop⟩ :=
    exists_of_mem_editsOf names handler s .start e he
  obtain ⟨r, prev, hr, found⟩ := at?_of_mem_scanFrom (List.drop_zero (l := textOf m)) d hd
  obtain ⟨front, inside⟩ := at?_bounded found
  have length : r.length + 1 = m.length - d.start := by
    rw [← length_textOf m, ← List.length_drop, hr, List.length_cons]
  refine ⟨prev, d.start, r, d, s', ?_, found, ?_, formed, known, reached, answer⟩
  · rw [stretch_append_drop m (by omega), textOf_drop, start, hr]
  · rw [length_stretch m (by omega)]
    omega

end Pagewright.Directive
