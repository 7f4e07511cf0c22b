import Pagewright.Directive.Block
import Pagewright.Proofs.Directive.Free

/-! # Blocks among the directives of a source

A block that does not nest is taken from the front of a list of directives: the next directive of its
family decides on an opener (`blocksFrom_opener`).  The blocks that a page carries over to its layout
are runs of its parts, each closed by a directive that never takes arguments, behind which every
legible source may be cut (`legible_cut`).  Put one behind the other the runs make a legible source
again (`carriedBlocks_shownAll`). -/

namespace Pagewright.Directive

open Text

/-! ### Blocks that do not nest -/

section

variable (t : Text) {opening closing : Text} {isInline : Directive → Bool}

theorem blocksFrom_other {d : Directive} (ds : List Directive) (h : d.name ≠ opening) :
    blocksFrom t opening closing isInline 0 (d :: ds) =
      blocksFrom t opening closing isInline 0 ds := by
  rw [blocksFrom, if_pos (Or.inl h)]

/-- Directives of other names in front of an opener are passed over. -/
theorem blocksFrom_before (ds : List Directive) : ∀ {before : List Directive},
    (∀ d ∈ before, d.name ≠ opening) → blocksFrom t opening closing isInline 0 (before ++ ds) =
      blocksFrom t opening closing isInline 0 ds
  | [], _ => rfl
  | d :: before, h => by
      rw [List.cons_append, blocksFrom_other t _ (h d List.mem_cons_self)]
      exact blocksFrom_before ds fun e he => h e (List.mem_cons_of_mem d he)

theorem blocksFrom_eq_nil (ds : List Directive) (h : ∀ d ∈ ds, d.name ≠ opening) :
    blocksFrom t opening closing isInline 0 ds = [] := by
  rw [← List.append_nil ds]
  exact blocksFrom_before t [] h

theorem blocksFrom_skip (ds : List Directive) : ∀ skipped : List Directive,
    blocksFrom t opening closing isInline skipped.length (skipped ++ ds) =
      blocksFrom t opening closing isInline 0 ds
  | [] => rfl
  | _ :: skipped => blocksFrom_skip ds skipped

/-- A well-formed opener is not passed over. -/
theorem not_passed {d : Directive} (hn : d.name = opening) (hm : d.malformed = false) :
    ¬ (d.name ≠ opening ∨ d.malformed = true) := by
  simp [hn, hm]

/-- An opener that is complete in itself is a block. -/
theorem blocksFrom_inline {d : Directive} (ds : List Directive) (hn : d.name = opening)
    (hm : d.malformed = false) (hi : isInline d = true) :
    blocksFrom t opening closing isInline 0 (d :: ds) =
      ⟨d, none, none⟩ :: blocksFrom t opening closing isInline 0 ds := by
  rw [blocksFrom, if_neg (not_passed hn hm)]
  exact if_pos hi

/-- The next directive of its family decides on an opener. -/
theorem blocksFrom_opener {d e : Directive} {between : List Directive} (ds : List Directive)
    (hn : d.name = opening) (hm : d.malformed = false) (hi : isInline d = false)
    (hb : ∀ x ∈ between, x.name ∉ [opening, closing]) (he : e.name ∈ [opening, closing]) :
    blocksFrom t opening closing isInline 0 (d :: (between ++ e :: ds)) =
      if e.name = closing then
        ⟨d, some e, some (slice t d.stop e.start)⟩ :: blocksFrom t opening closing isInline 0 ds
      else ⟨d, none, none⟩ :: blocksFrom t opening closing isInline 0 (between ++ e :: ds) := by
  have family : ∀ x : Directive, decide (x.name = opening ∨ x.name = closing) =
      decide (x.name ∈ [opening, closing]) := fun x => by simp
  have first : (between ++ e :: ds).findIdx? (fun x => decide (x.name ∈ [opening, closing])) =
      some between.length := by
    rw [List.findIdx?_append, List.findIdx?_eq_none_iff.mpr fun x hx => decide_eq_false (hb x hx),
      List.findIdx?_cons, decide_eq_true he]
    simp
  have there : (between ++ e :: ds)[between.length]? = some e := by simp
  have behind : blocksFrom t opening closing isInline (between.length + 1) (between ++ e :: ds) =
      blocksFrom t opening closing isInline 0 ds := by
    simpa using blocksFrom_skip t ds (between ++ [e])
  rw [blocksFrom, if_neg (not_passed hn hm)]
  simp only [hi, Bool.false_eq_true, if_false, family, first, there, behind]

/-- An opener behind which nothing of its family comes is a block of its own. -/
theorem blocksFrom_last {d : Directive} {ds : List Directive} (hn : d.name = opening)
    (hm : d.malformed = false) (others : ∀ e ∈ ds, e.name ∉ [opening, closing]) :
    blocksFrom t opening closing isInline 0 (d :: ds) =
      ⟨d, none, none⟩ :: blocksFrom t opening closing isInline 0 ds := by
  have nothing : ds.findIdx? (fun e => decide (e.name = opening ∨ e.name = closing)) = none := by
    rw [List.findIdx?_eq_none_iff]
    exact fun e he => decide_eq_false (by simpa using others e he)
  rw [blocksFrom, if_neg (not_passed hn hm)]
  simp only [nothing, ite_self]

/-- An opener and the closer right behind it are a block. -/
theorem blocksFrom_closed {d e : Directive} (ds : List Directive) (hn : d.name = opening)
    (hm : d.malformed = false) (hi : isInline d = false) (he : e.name = closing) :
    blocksFrom t opening closing isInline 0 (d :: e :: ds) =
      ⟨d, some e, some (slice t d.stop e.start)⟩ :: blocksFrom t opening closing isInline 0 ds := by
  have family : e.name ∈ [opening, closing] := by simp [he]
  have decided := blocksFrom_opener t ds hn hm hi (List.forall_mem_nil _) family
  rwa [if_pos he] at decided

/-- An opener behind which another one comes first, if any, is a block of its own. -/
theorem blocksFrom_alone {d : Directive} {ds : List Directive} (hn : d.name = opening)
    (hm : d.malformed = false) (next : ∀ e ∈ ds.head?, e.name = opening) (hne : opening ≠ closing) :
    blocksFrom t opening closing isInline 0 (d :: ds) =
      ⟨d, none, none⟩ :: blocksFrom t opening closing isInline 0 ds := by
  cases hi : isInline d with
  | true => exact blocksFrom_inline t ds hn hm hi
  | false =>
    cases ds with
    | nil => exact blocksFrom_last t hn hm (List.forall_mem_nil _)
    | cons e ds =>
      have opener : e.name = opening := next e rfl
      have family : e.name ∈ [opening, closing] := by simp [opener]
      have decided := blocksFrom_opener t ds hn hm hi (List.forall_mem_nil _) family
      rwa [if_neg (opener ▸ hne)] at decided

end

/-! ### Cutting behind a word -/

theorem opensArguments_cut {n : Text} (hn : n ≠ "break".toList) (b : List Part) :
    ∀ a : List Part, opensArguments (a ++ .word n :: b) = opensArguments (a ++ [.word n])
  | [] => by
      have hb : (n == "break".toList) = false := by simpa using hn
      simp only [List.nil_append, opensArguments, hb, Bool.false_and]
  | .text t :: a => by
      simp only [List.cons_append, opensArguments, opensArguments_cut hn b a]
  | .word m :: a => by
      simp only [List.cons_append, opensArguments, opensArguments_cut hn b a]
  | .call m gap args :: a => rfl

theorem endsName_cut (n : Text) (a b : List Part) :
    endsName (shownAll (a ++ .word n :: b)) = endsName (shownAll (a ++ [.word n])) := by
  rw [shownAll_append, shownAll_append]
  exact endsName_at (shownAll a) _ _

/-- **A source is legible** when it is so up to a word that takes no arguments and behind it, and
what follows ends the word. -/
theorem legible_cut {n : Text} (hn : n ≠ "break".toList) (hb : n ∈ bareNames) {b : List Part} :
    ∀ {a : List Part}, Legible (a ++ .word n :: b) ↔
      Legible (a ++ [.word n]) ∧ endsName (shownAll b) = true ∧ Legible b
  | [] => by
      simp only [List.nil_append, Legible]
      constructor
      · rintro ⟨h, he, -, hl⟩
        exact ⟨⟨h, rfl, Or.inl hb, trivial⟩, he, hl⟩
      · rintro ⟨⟨h, -⟩, he, hl⟩
        exact ⟨h, he, Or.inl hb, hl⟩
  | .text t :: a => by
      have ih := legible_cut hn hb (b := b) (a := a)
      rw [List.cons_append, List.cons_append, Legible, Legible, ih, and_assoc]
  | .word m :: a => by
      have ih := legible_cut hn hb (b := b) (a := a)
      rw [List.cons_append, List.cons_append, Legible, Legible, ih, endsName_cut n a b,
        opensArguments_cut hn b a]
      simp only [and_assoc]
  | .call m gap args :: a => by
      have ih := legible_cut hn hb (b := b) (a := a)
      rw [List.cons_append, List.cons_append, Legible, Legible, ih]
      simp only [and_assoc]

/-! ### Where a directive stands -/

/-- A directive found among those of parts is a part, at its place. -/
theorem getElem?_marks : ∀ {ps : List Part} {pos i : Nat} {e : Directive},
    (marks pos ps)[i]? = some e → ∃ a q b, ps = a ++ q :: b ∧
      q.mark? (pos + (shownAll a).length) = some e
  | [], _, _, _, h => by cases h
  | p :: ps, pos, i, e, h => by
      have behind : ∀ j : Nat, (marks (pos + p.shown.length) ps)[j]? = some e → ∃ a q b,
          p :: ps = a ++ q :: b ∧ q.mark? (pos + (shownAll a).length) = some e := by
        intro j hj
        obtain ⟨a, q, b, rfl, hq⟩ := getElem?_marks hj
        refine ⟨p :: a, q, b, rfl, ?_⟩
        rw [shownAll_cons, List.length_append, ← Nat.add_assoc]
        exact hq
      rw [marks] at h
      cases hp : p.mark? pos with
      | none =>
          rw [hp] at h
          exact behind i h
      | some d =>
          rw [hp] at h
          cases i with
          | zero =>
              obtain rfl := Option.some.inj h
              exact ⟨[], p, ps, rfl, hp⟩
          | succ i => exact behind i h

theorem balance?_eq_some {o c : Text} : ∀ {ds : List Directive} {depth i : Nat} {e : Directive},
    balance? o c depth ds = some (i, e) → ds[i]? = some e ∧ e.name = c
  | [], _, _, _, h => by cases h
  | d :: ds, depth, i, e, h => by
      -- The answer for the directives behind `d` is counted one further.
      have behind : ∀ (next : Nat × Directive → Nat × Directive) (k : Nat),
          (∀ x, next x = (x.1 + 1, x.2)) → (balance? o c k ds).map next = some (i, e) →
            (d :: ds)[i]? = some e ∧ e.name = c := by
        intro next k hnext hk
        obtain ⟨x, hx, he⟩ := Option.map_eq_some_iff.mp hk
        rw [hnext] at he
        obtain ⟨rfl, rfl⟩ := Prod.mk.inj he
        have ih := balance?_eq_some hx
        exact ih
      unfold balance? at h
      split at h
      · exact behind _ _ (fun _ => rfl) h
      · split at h
        · next hc =>
          cases depth with
          | zero =>
              obtain ⟨rfl, rfl⟩ := Prod.mk.inj (Option.some.inj h)
              exact ⟨rfl, hc⟩
          | succ depth => exact behind _ _ (fun _ => rfl) h
        · exact behind _ _ (fun _ => rfl) h

theorem mark?_start {p : Part} {pos : Nat} {d : Directive} (h : p.mark? pos = some d) :
    d.start = pos := by
  cases p with
  | text t => cases h
  | word n => cases h; rfl
  | call n gap args => cases h; rfl

theorem mark?_stop {p : Part} {pos : Nat} {d : Directive} (h : p.mark? pos = some d) :
    d.stop = pos + p.shown.length := by
  cases p with
  | text t => cases h
  | word n => cases h; rfl
  | call n gap args => cases h; rfl

/-! ### Runs -/

/-- The directives that close carried blocks. -/
def carriedClosers : List Text := carriedFamilies.map Prod.snd

/-- A run of parts of a source, from a directive up to the closer of a carried block. -/
structure Run (ps run : List Part) : Prop where
  legible : Legible run
  opened : ∃ r, shownAll run = '@' :: r
  closed : ∃ a n, run = a ++ [.word n] ∧ n ∈ carriedClosers
  inside : ∀ p ∈ run, p ∈ ps

theorem Run.mono {ps qs run : List Part} (h : Run ps run) (hs : ∀ p ∈ ps, p ∈ qs) : Run qs run :=
  ⟨h.legible, h.opened, h.closed, fun p hp => hs p (h.inside p hp)⟩

theorem closer_bare : ∀ n ∈ carriedClosers, n ∈ bareNames ∧ n ≠ "break".toList := by decide

theorem closer_of_lookup {n c : Text} (h : carriedFamilies.lookup n = some c) :
    c ∈ carriedClosers := by
  obtain ⟨a, b, e, -⟩ := List.lookup_eq_some_iff.mp h
  rw [carriedClosers, e]
  simp

/-- A directive and the closer that balances it are the ends of a run. -/
theorem run_of_mark {p q : Part} {a b : List Part} {pos pos' : Nat} {d e : Directive}
    (hl : Legible (p :: (a ++ q :: b))) (hp : p.mark? pos = some d) (hq : q.mark? pos' = some e)
    (he : e.name ∈ carriedClosers) : Run (p :: (a ++ q :: b)) (p :: (a ++ [q])) := by
  obtain ⟨bare, notBreak⟩ := closer_bare e.name he
  have hq' : q = .word e.name := by
    have hq0 : ∃ e', q.mark? 0 = some e' ∧ e'.name = e.name := by
      cases q with
      | text t => cases hq
      | word n => cases hq; exact ⟨_, rfl, rfl⟩
      | call n gap args => cases hq; exact ⟨_, rfl, rfl⟩
    obtain ⟨e', he', hn⟩ := hq0
    have sound : q.Sound := hl.sound (by simp)
    have word := sound.eq_word he' (hn ▸ bare)
    rwa [hn] at word
  obtain ⟨n, rfl⟩ : ∃ n, n = e.name := ⟨_, rfl⟩
  subst hq'
  refine ⟨?_, ?_, ⟨p :: a, e.name, rfl, he⟩, ?_⟩
  · exact (legible_cut notBreak bare (a := p :: a)).mp hl |>.1
  · cases p with
    | text t => cases hp
    | word n => exact ⟨_, rfl⟩
    | call n gap args => exact ⟨_, rfl⟩
  · intro r hr
    simp only [List.mem_cons, List.mem_append, List.not_mem_nil, or_false] at hr ⊢
    tauto

theorem slice_middle (pre u r : Text) :
    slice (pre ++ (u ++ r)) pre.length (pre.length + u.length) = u := by
  rw [slice, List.drop_left, Nat.add_sub_cancel_left, List.take_left]

/-- The carried blocks among the directives of parts that stand behind the text `pre`. -/
theorem carriedFrom_marks : ∀ (ps : List Part) (pre : Text) (k : Nat), Legible ps →
    ∃ runs : List (List Part),
      carriedFrom (pre ++ shownAll ps) k (marks pre.length ps) = runs.map shownAll ∧
      ∀ run ∈ runs, Run ps run
  | [], _, k, _ => ⟨[], by cases k <;> rfl, fun _ h => absurd h List.not_mem_nil⟩
  | p :: ps, pre, k, hl => by
      have hlen : pre.length + p.shown.length = (pre ++ p.shown).length := by
        rw [List.length_append]
      -- Whatever is made of `p`, the blocks behind it are those of `ps`.
      have behind : ∀ j, ∃ runs : List (List Part),
          carriedFrom (pre ++ shownAll (p :: ps)) j (marks (pre.length + p.shown.length) ps) =
            runs.map shownAll ∧ ∀ run ∈ runs, Run (p :: ps) run := by
        intro j
        obtain ⟨runs, e, hr⟩ := carriedFrom_marks ps (pre ++ p.shown) j hl.tail
        rw [List.append_assoc] at e
        rw [hlen]
        exact ⟨runs, e, fun run h => (hr run h).mono fun q hq => List.mem_cons_of_mem p hq⟩
      rw [marks]
      cases hp : p.mark? pre.length with
      | none => exact behind k
      | some d =>
          rw [Option.toList_some, List.singleton_append]
          cases k with
          | succ k => exact behind k
          | zero =>
              unfold carriedFrom
              split
              · exact behind 0
              · next c hc =>
                split
                · exact behind 0
                · next i e he =>
                  obtain ⟨hi, rfl⟩ := balance?_eq_some he
                  obtain ⟨a, q, b, rfl, hq⟩ := getElem?_marks hi
                  obtain ⟨runs, hruns, hr⟩ := behind (i + 1)
                  have run := run_of_mark hl hp hq (closer_of_lookup hc)
                  refine ⟨(p :: (a ++ [q])) :: runs, ?_, List.forall_mem_cons.mpr ⟨run, hr⟩⟩
                  have start : d.start = pre.length := mark?_start hp
                  have stop : e.stop = pre.length + (shownAll (p :: (a ++ [q]))).length := by
                    rw [mark?_stop hq]
                    simp only [shownAll_cons, shownAll_append, shownAll_nil, List.append_nil,
                      List.length_append]
                    omega
                  have source : shownAll (p :: (a ++ q :: b)) =
                      shownAll (p :: (a ++ [q])) ++ shownAll b := by simp
                  rw [List.map_cons, ← hruns, start, stop, source, slice_middle]

/-- Runs put one behind the other are a legible source. -/
theorem legible_flatten {ps : List Part} : ∀ {runs : List (List Part)},
    (∀ run ∈ runs, Run ps run) → Legible runs.flatten
  | [], _ => trivial
  | run :: runs, h => by
      obtain ⟨hr, hrs⟩ := List.forall_mem_cons.mp h
      obtain ⟨a, n, e, hn⟩ := hr.closed
      obtain ⟨bare, notBreak⟩ := closer_bare n hn
      have next : endsName (shownAll runs.flatten) = true := by
        cases runs with
        | nil => rfl
        | cons run' runs =>
            obtain ⟨r, hr'⟩ := (hrs run' List.mem_cons_self).opened
            rw [List.flatten_cons, shownAll_append, hr']
            rfl
      have cut := legible_cut notBreak bare (a := a) (b := runs.flatten)
      rw [List.flatten_cons, e, List.append_assoc, List.singleton_append, cut, ← e]
      exact ⟨hr.legible, next, legible_flatten hrs⟩

/-- **The carried blocks of a legible source** are together a legible source of parts of it, and
the closer of a block is its last part. -/
theorem carriedBlocks_shownAll {ps : List Part} (h : Legible ps) :
    ∃ cs, (carriedBlocks (shownAll ps)).flatten = shownAll cs ∧ Legible cs ∧ (∀ p ∈ cs, p ∈ ps) ∧
      (cs = [] ∨ ∃ a n, cs = a ++ [.word n] ∧ n ∈ carriedClosers) := by
  obtain ⟨runs, e, hr⟩ := carriedFrom_marks ps [] 0 h
  have flat : ∀ rs : List (List Part), (rs.map shownAll).flatten = shownAll rs.flatten := by
    intro rs
    induction rs with
    | nil => rfl
    | cons r rs ih => rw [List.map_cons, List.flatten_cons, List.flatten_cons, ih, shownAll_append]
  refine ⟨runs.flatten, ?_, legible_flatten hr, ?_, ?_⟩
  · rw [carriedBlocks, directives_shownAll h, ← flat]
    exact congrArg List.flatten e
  · intro p hp
    obtain ⟨run, hrun, hp⟩ := List.mem_flatten.mp hp
    exact (hr run hrun).inside p hp
  · obtain rfl | ⟨init, run, rfl⟩ := List.eq_nil_or_concat runs
    · exact Or.inl rfl
    · obtain ⟨a, n, rfl, hn⟩ := (hr run (by simp)).closed
      exact Or.inr ⟨init.flatten ++ a, n, by simp, hn⟩

end Pagewright.Directive
