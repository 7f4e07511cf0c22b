import Mathlib.Data.List.Forall2
import Pagewright.Proofs.Directive.Part

/-! # Rewriting part by part

A pass that replaces directives through a handler is a walk over the parts of a legible source: each
part becomes one part, and the handler's state is handed on (`replaceWith_placed`).  Most handlers do
not ask where a directive stands (`Blind`), and neither do their walks (`replaceWith_shownAll`).
Where a directive gives way to what begins with a bracket, and a `@break` to nothing (`Becomes`), a
pass leaves a legible source to the next one (`Legible.becomes`). -/

namespace Pagewright.Directive

open Text

variable {σ : Type}

/-! ### Walks -/

/-- Turns every part into one part, from left to right, with a state handed on. -/
def walk (f : σ → Part → Part × σ) : σ → List Part → List Part × σ
  | s, [] => ([], s)
  | s, p :: ps => ((f s p).1 :: (walk f (f s p).2 ps).1, (walk f (f s p).2 ps).2)

theorem walk_append (f : σ → Part → Part × σ) : ∀ (s : σ) (ps qs : List Part),
    walk f s (ps ++ qs) =
      ((walk f s ps).1 ++ (walk f (walk f s ps).2 qs).1, (walk f (walk f s ps).2 qs).2)
  | s, [], qs => rfl
  | s, p :: ps, qs => by
      rw [List.cons_append, walk, walk_append f (f s p).2 ps qs]
      rfl

theorem length_walk (f : σ → Part → Part × σ) : ∀ (s : σ) (ps : List Part),
    (walk f s ps).1.length = ps.length
  | _, [] => rfl
  | _, _ :: ps => congrArg (· + 1) (length_walk f _ ps)

/-! ### Passes -/

/-- What a pass makes of a part: the answer of the handler in the place of a directive with one of
the names, and else the part as it is. -/
def rewritePart (names : List Text) (handler : σ → Directive → Option Text × σ) (s : σ) (p : Part) :
    Part × σ :=
  match p.mark? 0 with
  | none => (p, s)
  | some d =>
    if names.contains d.name then
      match handler s d with
      | (some new, s) => (.text new, s)
      | (none, s) => (p, s)
    else (p, s)

theorem rewritePart_answer {names : List Text} {handler : σ → Directive → Option Text × σ}
    {s s' : σ} {p : Part} {d : Directive} {new : Text} (hp : p.mark? 0 = some d)
    (hn : names.contains d.name = true) (h : handler s d = (some new, s')) :
    rewritePart names handler s p = (.text new, s') := by
  simp only [rewritePart, hp, hn, if_true, h]

theorem rewritePart_other {names : List Text} (handler : σ → Directive → Option Text × σ) (s : σ)
    {p : Part} {d : Directive} (hp : p.mark? 0 = some d) (hn : names.contains d.name = false) :
    rewritePart names handler s p = (p, s) := by
  simp only [rewritePart, hp, hn, Bool.false_eq_true, if_false]

/-- A handler that reads the name and the arguments of a directive, but not its place. -/
def Blind (handler : σ → Directive → Option Text × σ) : Prop :=
  ∀ s d e, d.name = e.name → d.args = e.args → handler s d = handler s e

theorem mark?_shift {p : Part} {d : Directive} (h : p.mark? 0 = some d) (pos : Nat) :
    ∃ e, p.mark? pos = some e ∧ e.name = d.name ∧ e.args = d.args ∧ e.start = pos ∧
      e.stop = pos + p.shown.length ∧ e.malformed = false := by
  cases p with
  | text t => cases h
  | word n =>
      cases h
      exact ⟨_, rfl, rfl, rfl, rfl, rfl, rfl⟩
  | call n gap args =>
      cases h
      exact ⟨_, rfl, rfl, rfl, rfl, rfl, rfl⟩

theorem mark?_eq_none {p : Part} (h : p.mark? 0 = none) (pos : Nat) : p.mark? pos = none := by
  cases p with
  | text t => rfl
  | word n => cases h
  | call n gap args => cases h

/-! ### Passes that see the place -/

/-- Turns every part into one part, where the parts start at an offset. -/
def walkFrom (f : Nat → σ → Part → Part × σ) : Nat → σ → List Part → List Part × σ
  | _, s, [] => ([], s)
  | pos, s, p :: ps =>
    ((f pos s p).1 :: (walkFrom f (pos + p.shown.length) (f pos s p).2 ps).1,
      (walkFrom f (pos + p.shown.length) (f pos s p).2 ps).2)

theorem walkFrom_append (f : Nat → σ → Part → Part × σ) : ∀ (pos : Nat) (s : σ) (ps qs : List Part),
    walkFrom f pos s (ps ++ qs) =
      ((walkFrom f pos s ps).1 ++
          (walkFrom f (pos + (shownAll ps).length) (walkFrom f pos s ps).2 qs).1,
        (walkFrom f (pos + (shownAll ps).length) (walkFrom f pos s ps).2 qs).2)
  | _, _, [], _ => rfl
  | pos, s, p :: ps, qs => by
      rw [List.cons_append, walkFrom, walkFrom_append f _ (f pos s p).2 ps qs, walkFrom, shownAll_cons,
        List.length_append, Nat.add_assoc]
      rfl

theorem length_walkFrom (f : Nat → σ → Part → Part × σ) : ∀ (pos : Nat) (s : σ) (ps : List Part),
    (walkFrom f pos s ps).1.length = ps.length
  | _, _, [] => rfl
  | _, _, _ :: ps => congrArg (· + 1) (length_walkFrom f _ _ ps)

/-- What a pass makes of a part at an offset. -/
def rewriteAt (names : List Text) (handler : σ → Directive → Option Text × σ) (pos : Nat) (s : σ)
    (p : Part) : Part × σ :=
  match p.mark? pos with
  | none => (p, s)
  | some d =>
    if names.contains d.name then
      match handler s d with
      | (some new, s) => (.text new, s)
      | (none, s) => (p, s)
    else (p, s)

/-- A part either stays as it is and asks for no edit, or gives way to a text and asks for the edit
that puts it there. -/
theorem editsOf_mark (names : List Text) (handler : σ → Directive → Option Text × σ) (s : σ)
    (p : Part) (pos : Nat) (ds : List Directive) :
    ∃ s',
      (rewriteAt names handler pos s p = (p, s') ∧
        editsOf handler s (named names ((p.mark? pos).toList ++ ds)) =
          editsOf handler s' (named names ds)) ∨
      ∃ new, rewriteAt names handler pos s p = (.text new, s') ∧
        editsOf handler s (named names ((p.mark? pos).toList ++ ds)) =
          (⟨pos, pos + p.shown.length, new⟩ :: (editsOf handler s' (named names ds)).1,
            (editsOf handler s' (named names ds)).2) := by
  unfold rewriteAt
  cases hm : p.mark? pos with
  | none => exact ⟨s, Or.inl ⟨rfl, rfl⟩⟩
  | some d =>
      obtain ⟨hs, ht, hf⟩ : d.start = pos ∧ d.stop = pos + p.shown.length ∧ d.malformed = false := by
        cases p with
        | text t => cases hm
        | word n => cases hm; exact ⟨rfl, rfl, rfl⟩
        | call n gap args => cases hm; exact ⟨rfl, rfl, rfl⟩
      rw [Option.toList_some, List.singleton_append, named, List.filter_cons]
      by_cases hc : names.contains d.name = true
      · simp only [hc, if_true, editsOf, hf, Bool.false_eq_true, if_false, named]
        cases h : handler s d with
        | mk answer s' =>
            refine ⟨s', ?_⟩
            cases answer with
            | none => exact Or.inl ⟨rfl, rfl⟩
            | some new => exact Or.inr ⟨new, rfl, by rw [hs, ht]⟩
      · refine ⟨s, Or.inl ?_⟩
        simp only [hc, Bool.false_eq_true, if_false, named]
        exact ⟨trivial, trivial⟩

theorem slice_before {pre : Text} {last : Nat} (r : Text) (h : last ≤ pre.length) :
    slice (pre ++ r) last pre.length = pre.drop last := by
  rw [slice, List.drop_append_of_le_length h]
  exact List.take_left' (by rw [List.length_drop])

/-- The edits that a pass asks for behind the text `pre`, carried out from `last` on. -/
theorem editFrom_placed (names : List Text) (handler : σ → Directive → Option Text × σ) :
    ∀ (ps : List Part) (pre : Text) (last : Nat) (s : σ), last ≤ pre.length →
      editFrom (pre ++ shownAll ps) last
          (editsOf handler s (named names (marks pre.length ps))).1 =
          pre.drop last ++ shownAll (walkFrom (rewriteAt names handler) pre.length s ps).1 ∧
        (editsOf handler s (named names (marks pre.length ps))).2 =
          (walkFrom (rewriteAt names handler) pre.length s ps).2
  | [], pre, last, s, _ => by
      refine ⟨?_, rfl⟩
      simp only [shownAll_nil, List.append_nil, walkFrom]
      rfl
  | p :: ps, pre, last, s, hl => by
      have hlen : pre.length + p.shown.length = (pre ++ p.shown).length := by
        rw [List.length_append]
      have hl' : last ≤ (pre ++ p.shown).length := by
        rw [List.length_append]
        omega
      rw [marks, hlen, shownAll_cons, ← List.append_assoc, walkFrom, hlen]
      obtain ⟨s', ⟨hp, he⟩ | ⟨new, hp, he⟩⟩ :=
        editsOf_mark names handler s p pre.length (marks (pre ++ p.shown).length ps)
      · obtain ⟨ih, ih'⟩ := editFrom_placed names handler ps (pre ++ p.shown) last s' hl'
        rw [he, hp, ih, ih', List.drop_append_of_le_length hl, List.append_assoc]
        exact ⟨rfl, rfl⟩
      · obtain ⟨ih, ih'⟩ := editFrom_placed names handler ps (pre ++ p.shown)
          (pre ++ p.shown).length s' (Nat.le_refl _)
        have hcut : slice (pre ++ p.shown ++ shownAll ps) last pre.length = pre.drop last := by
          rw [List.append_assoc, slice_before _ hl]
        rw [he, hp, editFrom, hcut, hlen, ih, ih', List.drop_length]
        simp only [List.nil_append, List.append_assoc, shownAll_cons, Part.shown, and_self]

/-- **A pass over a legible source is a walk over its parts**, which may see where they stand. -/
theorem replaceWith_placed (names : List Text) (handler : σ → Directive → Option Text × σ) (s : σ)
    {ps : List Part} (h : Legible ps) :
    replaceWith names handler s (shownAll ps) =
      (shownAll (walkFrom (rewriteAt names handler) 0 s ps).1,
        (walkFrom (rewriteAt names handler) 0 s ps).2) := by
  have e := editFrom_placed names handler ps [] 0 s (Nat.le_refl 0)
  rw [List.nil_append, List.length_nil, List.drop_nil, List.nil_append] at e
  rw [replaceWith, directives_shownAll h]
  exact Prod.ext e.1 e.2

/-! ### Passes that do not -/

/-- A handler that does not ask for the place of a directive makes the same of a part anywhere. -/
theorem rewriteAt_blind (names : List Text) {handler : σ → Directive → Option Text × σ}
    (hb : Blind handler) (pos : Nat) (s : σ) (p : Part) :
    rewriteAt names handler pos s p = rewritePart names handler s p := by
  unfold rewriteAt rewritePart
  cases hm : p.mark? 0 with
  | none => rw [mark?_eq_none hm]
  | some d =>
      obtain ⟨e, hp, hn, ha, -⟩ := mark?_shift hm pos
      simp only [hp, hn, hb s e d hn ha]

theorem walkFrom_blind (names : List Text) {handler : σ → Directive → Option Text × σ}
    (hb : Blind handler) : ∀ (pos : Nat) (s : σ) (ps : List Part),
      walkFrom (rewriteAt names handler) pos s ps = walk (rewritePart names handler) s ps
  | _, _, [] => rfl
  | pos, s, p :: ps => by
      rw [walkFrom, walk, rewriteAt_blind names hb, walkFrom_blind names hb]

/-- **A pass over a legible source is a walk over its parts.** -/
theorem replaceWith_shownAll (names : List Text) {handler : σ → Directive → Option Text × σ}
    (hb : Blind handler) (s : σ) {ps : List Part} (h : Legible ps) :
    replaceWith names handler s (shownAll ps) =
      (shownAll (walk (rewritePart names handler) s ps).1,
        (walk (rewritePart names handler) s ps).2) := by
  rw [replaceWith_placed names handler s h, walkFrom_blind names hb]

/-- A pass without a state is a map over the parts. -/
theorem replace_shownAll (names : List Text) {handler : Directive → Option Text}
    (hb : ∀ d e : Directive, d.name = e.name → d.args = e.args → handler d = handler e)
    {ps : List Part} (h : Legible ps) :
    replace names handler (shownAll ps) =
      shownAll (walk (rewritePart names fun (_ : Unit) d => (handler d, ())) () ps).1 := by
  have blind : Blind fun (_ : Unit) d => (handler d, ()) :=
    fun _ d e hn ha => congrArg (·, ()) (hb d e hn ha)
  rw [replace, replaceWith_shownAll names blind () h]

/-! ### What a pass leaves behind -/

/-- What a pass writes: it begins with a bracket, and holds no at sign. -/
def Bracketed (t : Text) : Prop := ∃ c r, t = c :: r ∧ (c = '\x7b' ∨ c = '<') ∧ '@' ∉ r

/-- A part stays as it is, gives way to what begins with a bracket, or is a `@break` that gives way to
nothing. -/
def Becomes (p q : Part) : Prop :=
  p = q ∨ (∃ t, q = .text t ∧ Bracketed t) ∨ (p = .word "break" ∧ q = .text [])

/-- What a walk makes of each part. -/
theorem walk_forall₂ {f : σ → Part → Part × σ} {R : Part → Part → Prop} : ∀ {ps : List Part} (s : σ),
    (∀ s, ∀ p ∈ ps, R p (f s p).1) → List.Forall₂ R ps (walk f s ps).1
  | [], _, _ => .nil
  | p :: _, s, h =>
      .cons (h s p List.mem_cons_self)
        (walk_forall₂ (f s p).2 fun s q hq => h s q (List.mem_cons_of_mem p hq))

/-- What a walk makes of each part, if its state keeps an invariant. -/
theorem walkFrom_forall₂ {f : Nat → σ → Part → Part × σ} {R : Part → Part → Prop} {I : σ → Prop} :
    ∀ {ps : List Part} {pos : Nat} {s : σ},
      (∀ pos s, I s → ∀ p ∈ ps, R p (f pos s p).1 ∧ I (f pos s p).2) →
        I s → List.Forall₂ R ps (walkFrom f pos s ps).1
  | [], _, _, _, _ => .nil
  | p :: _, pos, s, h, hs => by
      obtain ⟨here, next⟩ := h pos s hs p List.mem_cons_self
      exact .cons here (walkFrom_forall₂
        (fun pos s hs q hq => h pos s hs q (List.mem_cons_of_mem p hq)) next)

/-- What a pass makes of a part, if its handler answers with what begins with a bracket. -/
theorem rewriteAt_becomes {names : List Text} {handler : σ → Directive → Option Text × σ}
    {I : σ → Prop} (pos : Nat) {s : σ} {p : Part} (hs : I s)
    (h : ∀ d, p.mark? pos = some d → names.contains d.name = true →
      (∀ new, (handler s d).1 = some new → Bracketed new ∨ (p = .word "break" ∧ new = [])) ∧
        I (handler s d).2) :
    Becomes p (rewriteAt names handler pos s p).1 ∧ I (rewriteAt names handler pos s p).2 := by
  unfold rewriteAt
  cases hm : p.mark? pos with
  | none => exact ⟨Or.inl rfl, hs⟩
  | some d =>
      simp only
      split
      · next hn =>
        obtain ⟨answers, next⟩ := h d hm hn
        cases ha : handler s d with
        | mk answer s' =>
            rw [ha] at answers next
            cases answer with
            | none => exact ⟨Or.inl rfl, next⟩
            | some new =>
                obtain hb | ⟨hp, rfl⟩ := answers new rfl
                · exact ⟨Or.inr (Or.inl ⟨new, rfl, hb⟩), next⟩
                · exact ⟨Or.inr (Or.inr ⟨hp, rfl⟩), next⟩
      · exact ⟨Or.inl rfl, hs⟩

theorem rewritePart_becomes {names : List Text} {handler : σ → Directive → Option Text × σ}
    {s : σ} {p : Part}
    (h : ∀ d new, p.mark? 0 = some d → (handler s d).1 = some new →
      Bracketed new ∨ (p = .word "break" ∧ new = [])) :
    Becomes p (rewritePart names handler s p).1 :=
  (rewriteAt_becomes (I := fun _ => True) 0 trivial
    fun d hd _ => ⟨fun new => h d new hd, trivial⟩).1

theorem continuesAddress_dot (t : Text) :
    continuesAddress ('.' :: t) = (t.head?.map isWord).getD false := by
  cases t <;> rfl

theorem headWord_becomes : ∀ {ps qs : List Part}, List.Forall₂ Becomes ps qs → Legible ps →
    ((shownAll ps).head?.map isWord).getD false = false →
    ((shownAll qs).head?.map isWord).getD false = false
  | _, _, .nil, _, h => h
  | p :: ps, q :: qs, .cons hp hps, hl, h => by
      obtain rfl | ⟨-, rfl, c, r, rfl, hc, -⟩ | ⟨rfl, rfl⟩ := hp
      · cases p with
        | text t =>
            cases t with
            | nil =>
                have ih := headWord_becomes hps hl.2 h
                exact ih
            | cons c t => exact h
        | word n => rfl
        | call n gap args => rfl
      · obtain rfl | rfl := hc <;> rfl
      · have ih := headWord_becomes hps hl.2.2.2 (endsName_iff.mp hl.2.1).1
        exact ih

theorem endsName_becomes : ∀ {ps qs : List Part}, List.Forall₂ Becomes ps qs → Legible ps →
    endsName (shownAll ps) = true → endsName (shownAll qs) = true
  | _, _, .nil, _, h => h
  | p :: ps, q :: qs, .cons hp hps, hl, h => by
      obtain rfl | ⟨-, rfl, c, r, rfl, hc, -⟩ | ⟨rfl, rfl⟩ := hp
      · cases p with
        | word n => rfl
        | call n gap args => rfl
        | text t =>
            cases t with
            | nil =>
                have ih := endsName_becomes hps hl.2 h
                exact ih
            | cons c t =>
                obtain ⟨hw, ha⟩ := endsName_iff.mp h
                refine endsName_iff.mpr ⟨hw, ?_⟩
                by_cases hc : c = '.'
                · subst hc
                  cases t with
                  | nil =>
                      refine (continuesAddress_dot _).trans (headWord_becomes hps hl.2 ?_)
                      exact (continuesAddress_dot _).symm.trans ha
                  | cons d t => exact ha
                · exact continuesAddress_of_ne _ hc
      · obtain rfl | rfl := hc <;> rfl
      · have ih := endsName_becomes hps hl.2.2.2 hl.2.1
        exact ih

theorem opensArguments_becomes {ps qs : List Part} (hb : List.Forall₂ Becomes ps qs)
    (h : opensArguments ps = false) : opensArguments qs = false := by
  induction hb with
  | nil => exact h
  | @cons p q ps qs hp hps ih =>
      obtain rfl | ⟨-, rfl, c, r, rfl, hc, -⟩ | ⟨rfl, rfl⟩ := hp
      · cases p with
        | text t =>
            rw [opensArguments] at h ⊢
            split at h
            · exact ih h
            · exact h
        | word n =>
            rw [opensArguments, Bool.and_eq_false_iff] at h ⊢
            exact h.imp id ih
        | call n gap args => rfl
      · obtain rfl | rfl := hc <;> rfl
      · exact ih h

/-- **A legible source stays legible** where directives give way to what begins with a bracket, and a
`@break` to nothing. -/
theorem Legible.becomes : ∀ {ps qs : List Part}, Legible ps → List.Forall₂ Becomes ps qs →
    Legible qs
  | _, _, _, .nil => trivial
  | p :: ps, q :: qs, hl, .cons hp hps => by
      have ih := hl.tail.becomes hps
      obtain rfl | ⟨-, rfl, c, r, rfl, hc, hr⟩ | ⟨rfl, rfl⟩ := hp
      · cases p with
        | text t => exact ⟨hl.1, ih⟩
        | word n =>
            obtain ⟨hn, he, ha, hps'⟩ := hl
            exact ⟨hn, endsName_becomes hps hps' he, ha.imp id (opensArguments_becomes hps), ih⟩
        | call n gap args =>
            obtain ⟨hn, hb, hg, ha, hat, -⟩ := hl
            exact ⟨hn, hb, hg, ha, hat, ih⟩
      · refine ⟨fun h => ?_, ih⟩
        have apart : '@' ≠ c := by obtain rfl | rfl := hc <;> decide
        exact hr ((List.mem_cons.mp h).resolve_left apart)
      · exact ⟨List.not_mem_nil, ih⟩

end Pagewright.Directive
