import Pagewright.Proofs.Desk.Run
import Pagewright.Proofs.Desk.Visit

/-! # What work reports

Work on a page may report problems, and it may stop with one.  `Work.Reports P I` says that all of
them are problems of the kind `P`, that the include stack is left as it was found, and that the memo
keeps what `I` says of it; `Work.ReportsAt` says so of work at one desk.  It composes like the work
itself (`ReportsAt.bind`, `ReportsAt.orElse`, `ReportsAt.within`), so the kind has to be checked
only where work stops with a problem.

Main definitions: `Passed`, `Work.ReportsAt`, `Work.Reports`. -/

namespace Pagewright

/-- A desk before and after work that reports none but problems of a kind and keeps what is known of
the memo. -/
structure Passed (P : Problem → Prop) (I : Memo → Prop) (d d' : Desk) : Prop where
  stack : d'.session.includeStack = d.session.includeStack
  problems : ∀ p ∈ d'.session.problems, p ∈ d.session.problems ∨ P p
  memo : I d.memo → I d'.memo

namespace Passed

variable {P : Problem → Prop} {I : Memo → Prop} {d d' d'' : Desk}

theorem refl (d : Desk) : Passed P I d d := ⟨rfl, fun _ hp => Or.inl hp, id⟩

theorem trans (h : Passed P I d d') (h' : Passed P I d' d'') : Passed P I d d'' := by
  refine ⟨h'.stack.trans h.stack, ?_, h'.memo ∘ h.memo⟩
  intro p hp
  obtain earlier | new := h'.problems p hp
  · exact h.problems p earlier
  · exact Or.inr new

/-- A change of the session that adds no problem. -/
theorem session {s : Session} (stack : s.includeStack = d.session.includeStack)
    (problems : s.problems = d.session.problems) : Passed P I d { d with session := s } :=
  ⟨stack, fun _ hp => Or.inl (problems ▸ hp), id⟩

theorem report {p : Problem} (hp : P p) :
    Passed P I d { d with session := d.session.report p } := by
  refine ⟨rfl, ?_, id⟩
  intro q hq
  have added : (d.session.report p).problems = d.session.problems ++ [p] :=
    (Session.Grown.report d.session p).problems
  rw [show ({ d with session := d.session.report p } : Desk).session.problems = _ from added] at hq
  obtain earlier | new := List.mem_append.mp hq
  · exact Or.inl earlier
  · rw [List.mem_singleton.mp new]
    exact Or.inr hp

end Passed

namespace Session

theorem problems_withStack (s : Session) (paths : List Text) (r : Reference) :
    (s.withStack paths r).problems = s.problems := by
  cases r <;> rfl

end Session

namespace Work

variable {α β : Type} {P : Problem → Prop} {I : Memo → Prop}

/-- At a desk some work reports none but problems of a kind, and stops with no other one. -/
def ReportsAt (P : Problem → Prop) (I : Memo → Prop) (w : Work α) (d : Desk) : Prop :=
  Passed P I d (w.outcome d).2 ∧ ∀ p, (w.outcome d).1 = .error (.problem p) → P p

/-- Work that reports none but problems of a kind, at whatever desk. -/
def Reports (P : Problem → Prop) (I : Memo → Prop) (w : Work α) : Prop := ∀ d, ReportsAt P I w d

/-! ### Primitives -/

theorem exists_of_print_error {q : Press} {t : Text} {data : List (Value × Value)}
    {path : Option Text} {p : Problem} (h : (q.print t data path).1 = .error p) :
    ∃ wording place phase, p = .expression wording place phase := by
  unfold Press.print at h
  rcases hc : q.compile t path with ⟨r, q'⟩
  rw [hc] at h
  cases r with
  | ok c =>
      change Press.printed c data path = .error p at h
      unfold Press.printed at h
      split at h
      · cases h
      · cases h
        exact ⟨_, _, _, rfl⟩
  | error e =>
      obtain rfl : e = p := Except.error.inj h
      unfold Press.compile at hc
      split at hc
      · cases hc
      · split at hc
        · cases hc
        · cases hc
          exact ⟨_, _, _, rfl⟩

theorem Reports.pure (a : α) : Reports P I (pure a : Work α) := by
  intro d
  exact ⟨Passed.refl d, nofun⟩

theorem Reports.problem {p : Problem} (hp : P p) : Reports P I (problem p : Work α) := by
  intro d
  refine ⟨Passed.refl d, ?_⟩
  rintro q ⟨⟩
  exact hp

theorem Reports.session : Reports P I session := by
  intro d
  exact ⟨Passed.refl d, nofun⟩

/-- A change of the session that touches neither the include stack nor the problems. -/
theorem Reports.update {f : Session → Session} (stack : ∀ s, (f s).includeStack = s.includeStack)
    (problems : ∀ s, (f s).problems = s.problems) : Reports P I (update f) := by
  intro d
  exact ⟨Passed.session (stack d.session) (problems d.session), nofun⟩

theorem Reports.remark (t : Text) : Reports P I (Work.update fun s => s.remark t) := by
  apply Reports.update
  · intro s
    rfl
  · intro s
    simp [Session.problems, Session.remark]

theorem Reports.report {p : Problem} (hp : P p) :
    Reports P I (Work.update fun s => s.report p) := by
  intro d
  exact ⟨Passed.report hp, nofun⟩

theorem Reports.stash (output : Text) : Reports P I (stash output) := by
  intro d
  have grown := Session.Grown.stash d.session output
  have same : (d.session.stash output).2.problems = d.session.problems := by
    rw [grown.problems, List.append_nil]
  exact ⟨Passed.session grown.includeStack same, nofun⟩

theorem Reports.splice (t : Text) : Reports P I (splice t) := by
  intro d
  rw [ReportsAt, outcome_splice]
  refine ⟨Passed.refl d, ?_⟩
  cases d.session.splice t <;> nofun

/-- Rewriting reports nothing; what is known of the memo has to be checked. -/
theorem Reports.lower {ds : Delimiters} {t : Text}
    (keeps : ∀ now m, I m → I (Lowering.transformKept ds now t m).2) :
    Reports P I (lower ds t) := by
  intro d
  rw [ReportsAt, outcome_lower]
  refine ⟨⟨rfl, fun _ hp => Or.inl hp, keeps d.now d.memo⟩, ?_⟩
  cases (Lowering.transformKept ds d.now t d.memo).1 <;> nofun

/-- What goes wrong with an expression is of the kind. -/
theorem Reports.evaluate (h : ∀ wording path phase, P (.expression wording path phase)) (t : Text)
    (data : List (Value × Value)) (path : Text) (b : Bool) :
    Reports P I (evaluate t data path b) := by
  intro d
  rw [ReportsAt, outcome_evaluate]
  refine ⟨Passed.refl d, ?_⟩
  intro p hp
  unfold Press.evaluate at hp
  split at hp
  · cases hp
    exact h _ _ _
  · split at hp
    · cases hp
    · cases hp
      exact h _ _ _

/-- What goes wrong with a template is of the kind. -/
theorem Reports.print (h : ∀ wording path phase, P (.expression wording path phase)) (t : Text)
    (data : List (Value × Value)) (path : Text) : Reports P I (print t data path) := by
  intro d
  rw [ReportsAt, outcome_print]
  refine ⟨⟨rfl, fun _ hp => Or.inl hp, id⟩, ?_⟩
  intro p hp
  cases hr : (d.press.print t data path).1 with
  | ok u =>
      rw [hr] at hp
      cases hp
  | error q =>
      obtain ⟨wording, place, phase, rfl⟩ := exists_of_print_error hr
      rw [hr] at hp
      cases hp
      exact h wording place phase

/-! ### Composition -/

theorem ReportsAt.passed {w : Work α} {d e : Desk} {r : Except Halt α} (hw : ReportsAt P I w d)
    (he : w.outcome d = (r, e)) : Passed P I d e := by
  have passed := hw.1
  rwa [he] at passed

/-- Work after work: only what the first part comes to has to be gone on from. -/
theorem ReportsAt.bind {w : Work α} {f : α → Work β} {d : Desk} (hw : ReportsAt P I w d)
    (hf : ∀ a e, w.outcome d = (.ok a, e) → ReportsAt P I (f a) e) :
    ReportsAt P I (w >>= f) d := by
  obtain ⟨passed, stops⟩ := hw
  rw [ReportsAt, outcome_bind]
  rcases hd : w.outcome d with ⟨r, e⟩
  rw [hd] at passed stops
  cases r with
  | ok a =>
      obtain ⟨later, stops'⟩ := hf a e hd
      exact ⟨passed.trans later, stops'⟩
  | error halt =>
      refine ⟨passed, ?_⟩
      rintro p ⟨⟩
      exact stops p rfl

theorem Reports.bind {w : Work α} {f : α → Work β} (hw : Reports P I w)
    (hf : ∀ a, Reports P I (f a)) : Reports P I (w >>= f) := by
  intro d
  exact (hw d).bind fun a e _ => hf a e

/-- Work with an alternative: the alternative starts from a problem of the kind. -/
theorem ReportsAt.orElse {w : Work α} {handle : Problem → Work α} {d : Desk}
    (hw : ReportsAt P I w d) (hh : ∀ p, P p → Reports P I (handle p)) :
    ReportsAt P I (w.orElse handle) d := by
  obtain ⟨passed, stops⟩ := hw
  rw [ReportsAt, outcome_orElse]
  rcases hd : w.outcome d with ⟨r, e⟩
  rw [hd] at passed stops
  match r with
  | .ok a => exact ⟨passed, nofun⟩
  | .error (.failure f) => exact ⟨passed, nofun⟩
  | .error (.problem p) =>
      obtain ⟨later, stops'⟩ := hh p (stops p rfl) e
      exact ⟨passed.trans later, stops'⟩

theorem Reports.orElse {w : Work α} {handle : Problem → Work α} (hw : Reports P I w)
    (hh : ∀ p, P p → Reports P I (handle p)) : Reports P I (w.orElse handle) := by
  intro d
  exact (hw d).orElse hh

/-- Work on a template: the refusal is of the kind, or the template is entered and left. -/
theorem ReportsAt.within {r : Reference} {path : Text} {work : Int → Work α} {d : Desk}
    (refused : ∀ p, d.session.enter? r path = .error p → P p)
    (hw : ∀ depth s, d.session.enter? r path = .ok (depth, s) →
      ReportsAt P I (work depth) { d with session := s }) :
    ReportsAt P I (Work.within r path work) d := by
  rw [ReportsAt]
  cases he : d.session.enter? r path with
  | error p =>
      rw [outcome_within_error he]
      refine ⟨Passed.refl d, ?_⟩
      rintro q ⟨⟩
      exact refused p he
  | ok entry =>
      obtain ⟨depth, s⟩ := entry
      obtain ⟨inner, stops⟩ := hw depth s he
      obtain ⟨-, rfl⟩ := Session.enter?_ok he
      rw [outcome_within_ok he]
      have inside := inner.stack
      refine ⟨⟨?_, ?_, inner.memo⟩, stops⟩
      · cases r with
        | layout => exact inside
        | inclusion =>
            refine (congrArg List.dropLast inside).trans ?_
            exact List.dropLast_concat
      · intro p hp
        rw [show (Session.leave _ r).problems = _ from Session.problems_withStack _ _ r] at hp
        obtain earlier | new := inner.problems p hp
        · rw [show (Session.withStack _ _ r).problems = _ from
            Session.problems_withStack _ _ r] at earlier
          exact Or.inl earlier
        · exact Or.inr new

/-! ### What all work on a page reports -/

theorem composes_reports : Composes P fun _ => Reports P I where
  pure := Reports.pure
  problem := Reports.problem
  failure _ := fun d => ⟨Passed.refl d, nofun⟩
  bind := Reports.bind
  orElse := Reports.orElse

theorem reads_reports (h : ∀ wording path phase, P (.expression wording path phase)) :
    Reads P fun _ => Reports P I where
  toComposes := composes_reports
  evaluate := Reports.evaluate h
  remark := Reports.remark

theorem stages_reports (h : ∀ wording path phase, P (.expression wording path phase)) :
    Stages P fun _ => Reports P I where
  toReads := reads_reports h
  session := Reports.session
  report := Reports.report
  stash := Reports.stash
  splice := Reports.splice
  print := Reports.print h
  within refused hw := fun d =>
    ReportsAt.within (fun p => refused d.session p) fun depth _ _ => hw depth _

end Work

end Pagewright
