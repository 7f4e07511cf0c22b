import Pagewright.Desk

/-! # Work at a desk, step by step

`Work.outcome` is what some work leaves of a desk: its result or the reason why it stopped, and the
desk afterwards.  There is one equation for every primitive of `Work`, so that no proof about the
work on a page opens the monad again.  Work on a page adds to its session and takes nothing away
(`Session.Grown`). -/

namespace Pagewright.Work

variable {α β : Type}

/-- What some work at a desk comes to, and the desk that it leaves. -/
def outcome (w : Work α) (d : Desk) : Except Halt α × Desk := StateT.run (ExceptT.run w) d

@[simp] theorem outcome_pure (a : α) (d : Desk) : (pure a : Work α).outcome d = (.ok a, d) := rfl

theorem outcome_bind (w : Work α) (f : α → Work β) (d : Desk) :
    (w >>= f).outcome d = match w.outcome d with
      | (.ok a, d') => (f a).outcome d'
      | (.error h, d') => (.error h, d') := by
  unfold outcome ExceptT.run StateT.run
  simp only [bind, ExceptT.bind, ExceptT.mk, StateT.bind, ExceptT.bindCont]
  cases w d with
  | mk r d' => cases r <;> rfl

/-- Work after work that came to a result. -/
theorem outcome_bind_ok {w : Work α} {f : α → Work β} {d d' : Desk} {a : α}
    (h : w.outcome d = (.ok a, d')) : (w >>= f).outcome d = (f a).outcome d' := by
  rw [outcome_bind, h]

/-- Work after work that stopped is not begun. -/
theorem outcome_bind_error {w : Work α} {f : α → Work β} {d d' : Desk} {e : Halt}
    (h : w.outcome d = (.error e, d')) : (w >>= f).outcome d = (.error e, d') := by
  rw [outcome_bind, h]

/-- Work after work that comes to something: so did the first part. -/
theorem exists_of_outcome_bind {w : Work α} {f : α → Work β} {d d' : Desk} {b : β}
    (h : (w >>= f).outcome d = (.ok b, d')) :
    ∃ a e, w.outcome d = (.ok a, e) ∧ (f a).outcome e = (.ok b, d') := by
  rw [outcome_bind] at h
  rcases hw : w.outcome d with ⟨r, e⟩
  rw [hw] at h
  cases r with
  | ok a => exact ⟨a, e, rfl, h⟩
  | error halt => cases h

/-- What some work leaves, if only its result is known. -/
theorem outcome_of_toOption {w : Work α} {a : α} {d : Desk}
    (h : (w.outcome d).1.toOption = some a) : w.outcome d = (.ok a, (w.outcome d).2) := by
  match hw : w.outcome d with
  | (.ok b, e) =>
      rw [hw] at h
      obtain rfl := Option.some.inj h
      rfl
  | (.error f, e) =>
      rw [hw] at h
      cases h

@[simp] theorem outcome_problem (p : Problem) (d : Desk) :
    (problem p : Work α).outcome d = (.error (.problem p), d) := rfl

@[simp] theorem outcome_ofProblem (r : Except Problem α) (d : Desk) :
    (ofProblem r).outcome d = (r.mapError .problem, d) := by
  cases r <;> rfl

@[simp] theorem outcome_ofFailure (r : Except Failure α) (d : Desk) :
    (ofFailure r).outcome d = (r.mapError .failure, d) := by
  cases r <;> rfl

@[simp] theorem outcome_ofExcept (r : Except Halt α) (d : Desk) :
    (ofExcept r).outcome d = (r, d) := by
  cases r <;> rfl

@[simp] theorem outcome_session (d : Desk) : session.outcome d = (.ok d.session, d) := rfl

@[simp] theorem outcome_update (f : Session → Session) (d : Desk) :
    (update f).outcome d = (.ok (), { d with session := f d.session }) := rfl

@[simp] theorem outcome_stash (output : Text) (d : Desk) :
    (stash output).outcome d =
      (.ok (d.session.stash output).1, { d with session := (d.session.stash output).2 }) := rfl

theorem outcome_splice (t : Text) (d : Desk) :
    (splice t).outcome d = ((d.session.splice t).mapError .failure, d) := by
  rw [splice, outcome_bind_ok (outcome_session d), outcome_ofFailure]

theorem outcome_noted (page : Text) (p : Problem) (d : Desk) :
    (noted page p).outcome d =
      (stash (p.metAt page).placeholder).outcome
        { d with session := d.session.report (p.metAt page) } := by
  rw [noted]
  exact outcome_bind_ok (outcome_update _ d)

theorem outcome_lower (ds : Delimiters) (t : Text) (d : Desk) :
    (lower ds t).outcome d =
      ((Lowering.transformKept ds d.now t d.memo).1.mapError .failure,
        { d with memo := (Lowering.transformKept ds d.now t d.memo).2 }) := by
  rw [← outcome_ofFailure]
  rfl

/-- A text that was rewritten is what the memo answers, and the session is as it was. -/
theorem outcome_lower_ok {ds : Delimiters} {t lowered : Text} {d d' : Desk}
    (h : (lower ds t).outcome d = (.ok lowered, d')) :
    (Lowering.transformKept ds d.now t d.memo).1 = .ok lowered ∧ d'.session = d.session := by
  rw [outcome_lower] at h
  cases hk : (Lowering.transformKept ds d.now t d.memo).1 with
  | ok u =>
      rw [hk] at h
      obtain ⟨same, rfl⟩ := Prod.mk.inj h
      exact ⟨congrArg Except.ok (Except.ok.inj same), rfl⟩
  | error f =>
      rw [hk] at h
      cases h

theorem outcome_print (t : Text) (data : List (Value × Value)) (path : Text) (d : Desk) :
    (print t data path).outcome d =
      ((d.press.print t data path).1.mapError .problem,
        { d with press := (d.press.print t data path).2 }) := by
  rw [← outcome_ofProblem]
  rfl

theorem outcome_evaluate (t : Text) (data : List (Value × Value)) (path : Text) (b : Bool)
    (d : Desk) :
    (evaluate t data path b).outcome d =
      ((Press.evaluate d.press.dialect t data (some path) b).mapError .problem, d) := by
  have seen : (get : Work Desk).outcome d = (.ok d, d) := rfl
  rw [evaluate, outcome_bind_ok seen, outcome_ofProblem]

/-- Work with an alternative: the alternative begins at the desk that the work has left. -/
theorem outcome_orElse (w : Work α) (handle : Problem → Work α) (d : Desk) :
    (w.orElse handle).outcome d = match w.outcome d with
      | (.error (.problem p), d') => (handle p).outcome d'
      | r => r := by
  unfold orElse outcome ExceptT.run StateT.run
  simp only [tryCatch, tryCatchThe, MonadExceptOf.tryCatch, ExceptT.tryCatch, ExceptT.mk, bind,
    StateT.bind]
  cases w d with
  | mk r d' =>
      cases r with
      | ok a => rfl
      | error h => cases h <;> rfl

/-- Work on a template that may not be entered is not begun. -/
theorem outcome_within_error {r : Reference} {path : Text} {work : Int → Work α} {d : Desk}
    {p : Problem} (h : d.session.enter? r path = .error p) :
    (within r path work).outcome d = (.error (.problem p), d) := by
  rw [within, outcome_bind_ok (outcome_session d)]
  apply outcome_bind_error
  rw [outcome_ofProblem, h]
  rfl

/-- Work on a template begins with the template on its stack and ends with the stack as the work
has left it, less its last entry. -/
theorem outcome_within_ok {r : Reference} {path : Text} {work : Int → Work α} {d : Desk}
    {depth : Int} {s : Session} (h : d.session.enter? r path = .ok (depth, s)) :
    (within r path work).outcome d =
      (((work depth).outcome { d with session := s }).1,
        { ((work depth).outcome { d with session := s }).2 with
          session := ((work depth).outcome { d with session := s }).2.session.leave r }) := by
  rw [within, outcome_bind_ok (outcome_session d)]
  have entered : (ofProblem (d.session.enter? r path)).outcome d = (.ok (depth, s), d) := by
    rw [outcome_ofProblem, h]
    rfl
  rw [outcome_bind_ok entered]
  refine (outcome_bind_ok (outcome_update _ d)).trans ?_
  unfold outcome ExceptT.run StateT.run
  simp only [tryFinally, tryFinally', ExceptT.mk, bind, StateT.bind, Functor.map, ExceptT.map]
  cases work depth { d with session := s } with
  | mk r d' => cases r <;> rfl

end Pagewright.Work

/-! ## Properties that composition keeps

Work on a page is composed of few primitives.  A property that holds of the primitives and is kept
by composition holds of all that is composed of them, so it is enough to check it once for each:
for work that composes at all (`Work.Composes`), for the reading of tags, which evaluates
expressions and makes remarks (`Work.Reads`), and for the stages of a page, which also enter
templates, report problems and print (`Work.Stages`).  The problems with which the work may stop can
be limited to a kind.

Main definitions: `Work.Composes`, `Work.Reads`, `Work.Stages`. -/

namespace Pagewright.Work

variable {P : Problem → Prop} {Q : (α : Type) → Work α → Prop}

/-- A property of work that may stop with problems of a kind, and of all that is composed of it. -/
structure Composes (P : Problem → Prop) (Q : (α : Type) → Work α → Prop) : Prop where
  pure : ∀ {α : Type} (a : α), Q α (pure a)
  problem : ∀ {α : Type} {p : Problem}, P p → Q α (problem p)
  failure : ∀ {α : Type} (f : Failure), Q α (throw (.failure f))
  bind : ∀ {α β : Type} {w : Work α} {f : α → Work β}, Q α w → (∀ a, Q β (f a)) → Q β (w >>= f)
  orElse : ∀ {α : Type} {w : Work α} {handle : Problem → Work α}, Q α w →
    (∀ p, P p → Q α (handle p)) → Q α (w.orElse handle)

/-- A property that evaluating expressions and making remarks have, too. -/
structure Reads (P : Problem → Prop) (Q : (α : Type) → Work α → Prop) : Prop
    extends Composes P Q where
  evaluate : ∀ t data path b, Q _ (evaluate t data path b)
  remark : ∀ t, Q _ (update fun s => s.remark t)

/-- A property that the stages of a page have, apart from rewriting its text. -/
structure Stages (P : Problem → Prop) (Q : (α : Type) → Work α → Prop) : Prop
    extends Reads P Q where
  session : Q _ session
  report : ∀ {p}, P p → Q _ (update fun s => s.report p)
  stash : ∀ output, Q _ (stash output)
  splice : ∀ t, Q _ (splice t)
  print : ∀ t data path, Q _ (print t data path)
  within : ∀ {α : Type} {r : Reference} {path : Text} {work : Int → Work α},
    (∀ (s : Session) p, s.enter? r path = .error p → P p) → (∀ depth, Q α (work depth)) →
      Q α (within r path work)

variable {α β : Type}

theorem Composes.ofProblem (h : Composes P Q) {r : Except Problem α}
    (hr : ∀ p, r = .error p → P p) : Q α (ofProblem r) := by
  cases r with
  | ok a => exact h.pure a
  | error p => exact h.problem (hr p rfl)

theorem Composes.ofFailure (h : Composes P Q) (r : Except Failure α) : Q α (ofFailure r) := by
  cases r with
  | ok a => exact h.pure a
  | error f => exact h.failure f

theorem Composes.ofExcept (h : Composes P Q) {r : Except Halt α}
    (hr : ∀ p, r = .error (.problem p) → P p) : Q α (ofExcept r) := by
  cases r with
  | ok a => exact h.pure a
  | error halt =>
      cases halt with
      | problem p => exact h.problem (hr p rfl)
      | failure f => exact h.failure f

theorem Composes.mapM (h : Composes P Q) {f : α → Work β} (hf : ∀ a, Q β (f a)) (as : List α) :
    Q (List β) (as.mapM f) := by
  induction as with
  | nil => exact h.pure []
  | cons a as ih =>
      rw [List.mapM_cons]
      exact h.bind (hf a) fun b => h.bind ih fun bs => h.pure (b :: bs)

/-- A problem is noted at a page, if it is of the kind there, too. -/
theorem Stages.noted (h : Stages P Q) {p : Problem} {page : Text} (hp : P (p.metAt page)) :
    Q Text (noted page p) :=
  h.bind (h.report hp) fun _ => h.stash _

end Pagewright.Work

/-! ## What work on a page adds to its session

`Session.Grown found s s'` says that a session has only grown: the stacks and the once keys are what
they were, earlier notices and earlier output stand where they stood, and the problems that were
added are `found`.  It composes (`Grown.trans`), and every primitive of `Work` that expansion uses
grows the session by what it reports; work that reports nothing is `Work.Quiet`, and so is such work
after such work. -/

namespace Pagewright

namespace Session

/-- The session `s'` is the session `s` grown by the problems `found`. -/
structure Grown (found : List Problem) (s s' : Session) : Prop where
  maxDepth : s'.maxDepth = s.maxDepth
  layoutStack : s'.layoutStack = s.layoutStack
  includeStack : s'.includeStack = s.includeStack
  onceSeen : s'.onceSeen = s.onceSeen
  notices : s.notices <+: s'.notices
  outputs : s.outputs <+: s'.outputs
  problems : s'.problems = s.problems ++ found

namespace Grown

variable {found more : List Problem} {s s' s'' : Session}

theorem refl (s : Session) : Grown [] s s :=
  ⟨rfl, rfl, rfl, rfl, List.prefix_rfl, List.prefix_rfl, (List.append_nil _).symm⟩

theorem trans (h : Grown found s s') (h' : Grown more s' s'') : Grown (found ++ more) s s'' where
  maxDepth := h'.maxDepth.trans h.maxDepth
  layoutStack := h'.layoutStack.trans h.layoutStack
  includeStack := h'.includeStack.trans h.includeStack
  onceSeen := h'.onceSeen.trans h.onceSeen
  notices := h.notices.trans h'.notices
  outputs := h.outputs.trans h'.outputs
  problems := by rw [h'.problems, h.problems, List.append_assoc]

theorem report (s : Session) (p : Problem) : Grown [p] s (s.report p) where
  maxDepth := rfl
  layoutStack := rfl
  includeStack := rfl
  onceSeen := rfl
  notices := List.prefix_append _ _
  outputs := List.prefix_rfl
  problems := by simp [Session.problems, Session.report]

theorem remark (s : Session) (t : Text) : Grown [] s (s.remark t) where
  maxDepth := rfl
  layoutStack := rfl
  includeStack := rfl
  onceSeen := rfl
  notices := List.prefix_append _ _
  outputs := List.prefix_rfl
  problems := by simp [Session.problems, Session.remark]

theorem stash (s : Session) (output : Text) : Grown [] s (s.stash output).2 := by
  unfold Session.stash
  split
  · exact refl s
  · exact ⟨rfl, rfl, rfl, rfl, List.prefix_rfl, List.prefix_append _ _, (List.append_nil _).symm⟩

end Grown

/-! ### Entering and leaving -/

/-- Only a template on the stack, or one too deep, is refused. -/
theorem enter?_error {s : Session} {r : Reference} {path : Text} {p : Problem}
    (h : s.enter? r path = .error p) :
    p = .cycle (s.stack r ++ [path]) r.scope ∨
      p = .tooDeep path (s.entryDepth r) s.maxDepth r.scope := by
  simp only [enter?] at h
  split at h
  · exact .inl (Except.error.inj h).symm
  · split at h
    · exact .inr (Except.error.inj h).symm
    · cases h

theorem enter?_ok {s s' : Session} {r : Reference} {path : Text} {depth : Int}
    (h : s.enter? r path = .ok (depth, s')) :
    depth = s.entryDepth r ∧ s' = s.withStack (s.stack r ++ [path]) r := by
  simp only [enter?] at h
  split at h
  · cases h
  · split at h
    · cases h
    · obtain ⟨hd, hs⟩ := Prod.mk.inj (Except.ok.inj h)
      exact ⟨hd.symm, hs.symm⟩

/-- A page that is not on its way may be entered as long as there is room. -/
theorem enter?_fresh {s : Session} {page : Text} (h : page ∉ s.includeStack)
    (hd : (s.includeStack.length : Int) ≤ s.maxDepth) :
    s.enter? .inclusion page =
      .ok (s.includeStack.length, s.withStack (s.includeStack ++ [page]) .inclusion) := by
  have fresh : ¬ (s.stack .inclusion).contains page = true := fun hc =>
    h (List.contains_iff_mem.mp hc)
  have room : ¬ s.maxDepth < s.entryDepth .inclusion := Int.not_lt.mpr hd
  unfold enter?
  exact (if_neg fresh).trans (if_neg room)

/-- Whatever work between entering and leaving adds, the session has grown by it. -/
theorem Grown.leave {s s' s'' : Session} {path : Text} {depth : Int} {found : List Problem}
    (h : s.enter? .inclusion path = .ok (depth, s')) (grown : Grown found s' s'') :
    Grown found s (s''.leave .inclusion) := by
  obtain ⟨-, rfl⟩ := enter?_ok h
  have stack : s''.includeStack = s.includeStack ++ [path] := grown.includeStack
  refine ⟨grown.maxDepth, grown.layoutStack, ?_, grown.onceSeen, grown.notices, grown.outputs,
    grown.problems⟩
  show s''.includeStack.dropLast = s.includeStack
  rw [stack, List.dropLast_concat]

end Session

/-! ### Nothing but problems and output -/

namespace Session

/-- The session `s'` is the session `s` with the problems `found` reported and further output set
aside, and differs in nothing else but the output of the entry page. -/
def Extended (found : List Problem) (s s' : Session) : Prop :=
  ∃ more entry, s' = { s with
    notices := s.notices ++ found.map .problem
    outputs := s.outputs ++ more
    entryOutputs := entry }

namespace Extended

variable {found more : List Problem} {s s' s'' : Session}

theorem refl (s : Session) : Extended [] s s :=
  ⟨[], s.entryOutputs, by rw [List.map_nil, List.append_nil, List.append_nil]⟩

theorem trans (h : Extended found s s') (h' : Extended more s' s'') :
    Extended (found ++ more) s s'' := by
  obtain ⟨m, e, rfl⟩ := h
  obtain ⟨m', e', rfl⟩ := h'
  refine ⟨m ++ m', e', ?_⟩
  simp only [List.map_append, List.append_assoc]

theorem report (s : Session) (p : Problem) : Extended [p] s (s.report p) :=
  ⟨[], s.entryOutputs, by rw [List.append_nil]; rfl⟩

theorem stash (s : Session) (output : Text) : Extended [] s (s.stash output).2 := by
  unfold Session.stash
  split
  · exact refl s
  · exact ⟨[output], s.entryOutputs, by rw [List.map_nil, List.append_nil]⟩

theorem entry (s : Session) (outputs : List Text) :
    Extended [] s { s with entryOutputs := outputs } :=
  ⟨[], outputs, by rw [List.map_nil, List.append_nil, List.append_nil]⟩

/-- What is added between entering and leaving is all that the work on a template adds. -/
theorem leave {path : Text} {depth : Int} (h : s.enter? .inclusion path = .ok (depth, s'))
    (ext : Extended found s' s'') : Extended found s (s''.leave .inclusion) := by
  obtain ⟨-, rfl⟩ := enter?_ok h
  obtain ⟨m, e, rfl⟩ := ext
  refine ⟨m, e, ?_⟩
  simp only [Session.leave, Session.withStack, Session.stack, List.dropLast_concat]

theorem nonce (h : Extended found s s') : s'.nonce = s.nonce := by
  obtain ⟨m, e, rfl⟩ := h
  rfl

theorem outputs (h : Extended found s s') : s.outputs <+: s'.outputs := by
  obtain ⟨m, e, rfl⟩ := h
  exact List.prefix_append _ _

end Extended

end Session

/-! ### Work that reports nothing -/

namespace Work

open Session

variable {α β : Type}

/-- Work that reports no problem, however it ends. -/
def Quiet (w : Work α) : Prop := ∀ d, Grown [] d.session (w.outcome d).2.session

theorem Quiet.lower (ds : Delimiters) (t : Text) : Quiet (lower ds t) := by
  intro d
  rw [outcome_lower]
  exact Grown.refl _

theorem Quiet.print (t : Text) (data : List (Value × Value)) (path : Text) :
    Quiet (print t data path) := by
  intro d
  rw [outcome_print]
  exact Grown.refl _

theorem Quiet.splice (t : Text) : Quiet (splice t) := by
  intro d
  rw [outcome_splice]
  exact Grown.refl _

theorem Quiet.stash (output : Text) : Quiet (stash output) := by
  intro d
  rw [outcome_stash]
  exact Grown.stash d.session output

theorem Quiet.bind {w : Work α} {f : α → Work β} (hw : Quiet w) (hf : ∀ a, Quiet (f a)) :
    Quiet (w >>= f) := by
  intro d
  have first := hw d
  rw [outcome_bind]
  match h : w.outcome d with
  | (.ok a, d') =>
      rw [h] at first
      exact first.trans (hf a d')
  | (.error e, d') =>
      rw [h] at first
      exact first

end Work

end Pagewright
