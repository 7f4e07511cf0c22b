import Mathlib.Data.List.Nodup
import Pagewright.Proofs.Desk.Run

/-! # Coming and going

A `Visit` is a session together with the templates that are being worked on, each with the session
from which it was entered.  A `Move` enters a template, leaves the one entered last, reports a
problem or sets output aside.  What a single move preserves (`Orderly.step`) holds after every
sequence of moves from a fresh session (`orderly_run`): no template stands twice on a stack, no
stack passes its limit, an entry is refused for a cycle or for the limit and for nothing else, and
leaving a template gives both stacks back as they were when it was entered. -/

namespace Pagewright

/-- The most templates of a kind that may be worked on at once.  The page itself is on the include
stack and does not count there. -/
def Reference.limit (most : Int) : Reference → Int
  | .layout => most
  | .inclusion => most + 1

namespace Session

variable {s s' : Session} {r k : Reference} {path : Text} {paths : List Text} {p : Problem}

/-! ### The two stacks -/

@[simp] theorem stack_withStack (s : Session) (paths : List Text) (r k : Reference) :
    (s.withStack paths r).stack k = if k = r then paths else s.stack k := by
  cases r <;> cases k <;> rfl

@[simp] theorem maxDepth_withStack (s : Session) (paths : List Text) (r : Reference) :
    (s.withStack paths r).maxDepth = s.maxDepth := by
  cases r <;> rfl

@[simp] theorem maxDepth_leave (s : Session) (r : Reference) :
    (s.leave r).maxDepth = s.maxDepth := maxDepth_withStack s _ r

@[simp] theorem stack_leave (s : Session) (r k : Reference) :
    (s.leave r).stack k = if k = r then (s.stack r).dropLast else s.stack k :=
  stack_withStack s _ r k

@[simp] theorem stack_report (s : Session) (p : Problem) (k : Reference) :
    (s.report p).stack k = s.stack k := by
  cases k <;> rfl

@[simp] theorem stack_stash (s : Session) (output : Text) (k : Reference) :
    (s.stash output).2.stack k = s.stack k := by
  unfold stash
  split <;> cases k <;> rfl

@[simp] theorem maxDepth_stash (s : Session) (output : Text) :
    (s.stash output).2.maxDepth = s.maxDepth := by
  unfold stash
  split <;> rfl

/-! ### When an entry is refused -/

/-- The depth of a template is too great exactly if its stack would pass the limit. -/
theorem lt_entryDepth_iff (s : Session) (r : Reference) :
    s.maxDepth < s.entryDepth r ↔ r.limit s.maxDepth < (s.stack r).length + 1 := by
  cases r with
  | layout => exact Iff.rfl
  | inclusion =>
      show s.maxDepth < (s.includeStack.length : Int) ↔
        s.maxDepth + 1 < (s.includeStack.length : Int) + 1
      omega

/-- What an entry comes to. -/
theorem enter?_eq (s : Session) (r : Reference) (path : Text) :
    s.enter? r path =
      if path ∈ s.stack r then .error (.cycle (s.stack r ++ [path]) r.scope)
      else if r.limit s.maxDepth < (s.stack r).length + 1 then
        .error (.tooDeep path (s.entryDepth r) s.maxDepth r.scope)
      else .ok (s.entryDepth r, s.withStack (s.stack r ++ [path]) r) := by
  simp only [enter?, List.contains_iff_mem, lt_entryDepth_iff]

theorem enter?_eq_cycle_iff :
    s.enter? r path = .error (.cycle (s.stack r ++ [path]) r.scope) ↔ path ∈ s.stack r := by
  rw [enter?_eq]
  constructor
  · intro h
    by_contra absent
    rw [if_neg absent] at h
    split at h <;> cases h
  · intro h
    rw [if_pos h]

theorem enter?_eq_tooDeep_iff :
    s.enter? r path = .error (.tooDeep path (s.entryDepth r) s.maxDepth r.scope) ↔
      path ∉ s.stack r ∧ r.limit s.maxDepth < (s.stack r).length + 1 := by
  rw [enter?_eq]
  constructor
  · intro h
    split at h
    · cases h
    · next absent =>
      split at h
      · next full => exact ⟨absent, full⟩
      · cases h
  · rintro ⟨absent, full⟩
    rw [if_neg absent, if_pos full]

theorem enter?_eq_ok_iff {depth : Int} :
    s.enter? r path = .ok (depth, s') ↔
      path ∉ s.stack r ∧ ((s.stack r).length : Int) + 1 ≤ r.limit s.maxDepth ∧
        depth = s.entryDepth r ∧ s' = s.withStack (s.stack r ++ [path]) r := by
  rw [enter?_eq]
  constructor
  · intro h
    split at h
    · cases h
    · next absent =>
      split at h
      · cases h
      · next room =>
        obtain ⟨hd, hs⟩ := Prod.mk.inj (Except.ok.inj h)
        exact ⟨absent, by omega, hd.symm, hs.symm⟩
  · rintro ⟨absent, room, rfl, rfl⟩
    rw [if_neg absent, if_neg (by omega)]

end Session

/-! ### Visits -/

/-- What can be done in a visit. -/
inductive Move where
  | enter (r : Reference) (path : Text)
  /-- Leaves the template that was entered last. -/
  | leave
  | report (p : Problem)
  | stash (output : Text)

/-- A session, and the templates that are being worked on with the innermost first: the kind of
each, and the session from which it was entered. -/
structure Visit where
  session : Session
  opened : List (Reference × Session) := []

namespace Visit

/-- A visit with nothing being worked on, of which the greatest depth is `most`. -/
def fresh (most : Int) (nonce : Text) : Visit := ⟨{ maxDepth := most, nonce }, []⟩

/-- A visit after one move.  A refused entry and leaving nothing are no moves. -/
def step (v : Visit) : Move → Visit
  | .enter r path =>
    match v.session.enter? r path with
    | .ok (_, s) => ⟨s, (r, v.session) :: v.opened⟩
    | .error _ => v
  | .leave =>
    match v.opened with
    | [] => v
    | (r, _) :: rest => ⟨v.session.leave r, rest⟩
  | .report p => { v with session := v.session.report p }
  | .stash output => { v with session := (v.session.stash output).2 }

/-- A visit after a sequence of moves. -/
def run (v : Visit) (moves : List Move) : Visit := moves.foldl step v

/-- The stacks of a session hold what is being worked on and nothing else: each template stands on
its stack behind what was there when it was entered. -/
def Nested : Session → List (Reference × Session) → Prop
  | s, [] => ∀ k, s.stack k = []
  | s, (r, before) :: rest =>
    (∃ path, s.stack r = before.stack r ++ [path]) ∧
      (∀ k, k ≠ r → s.stack k = before.stack k) ∧ Nested before rest

/-- Only the stacks count. -/
theorem Nested.congr {s s' : Session} (h : ∀ k, s'.stack k = s.stack k) :
    ∀ {opened : List (Reference × Session)}, Nested s opened → Nested s' opened
  | [], hn => fun k => (h k).trans (hn k)
  | (r, _) :: _, ⟨⟨path, top⟩, others, below⟩ =>
      ⟨⟨path, (h r).trans top⟩, fun k hk => (h k).trans (others k hk), below⟩

/-- Leaving a template gives both stacks back as they were when it was entered. -/
theorem Nested.leave {s before : Session} {r : Reference} {rest : List (Reference × Session)}
    (h : Nested s ((r, before) :: rest)) (k : Reference) :
    (s.leave r).stack k = before.stack k := by
  obtain ⟨⟨path, top⟩, others, -⟩ := h
  rw [Session.stack_leave]
  split
  · next e => rw [e, top, List.dropLast_concat]
  · next ne => exact others k ne

/-- What holds of a visit after any moves. -/
structure Orderly (most : Int) (v : Visit) : Prop where
  maxDepth : v.session.maxDepth = most
  distinct : ∀ r, (v.session.stack r).Nodup
  bounded : ∀ r, ((v.session.stack r).length : Int) ≤ r.limit most
  nested : Nested v.session v.opened

variable {most : Int} {v : Visit}

theorem orderly_fresh (h : 0 ≤ most) (nonce : Text) : Orderly most (fresh most nonce) where
  maxDepth := rfl
  distinct r := by cases r <;> exact List.nodup_nil
  bounded r := by
    cases r with
    | layout => exact h
    | inclusion => exact Int.le_add_one h
  nested r := by cases r <;> rfl

/-- A session with the same stacks is as orderly. -/
theorem Orderly.of_stacks {s : Session} (h : Orderly most v) (depth : s.maxDepth = v.session.maxDepth)
    (same : ∀ k, s.stack k = v.session.stack k) : Orderly most { v with session := s } where
  maxDepth := depth.trans h.maxDepth
  distinct r := (same r).symm ▸ h.distinct r
  bounded r := (same r).symm ▸ h.bounded r
  nested := h.nested.congr same

/-- An entry that is not refused puts one template on its stack. -/
theorem Orderly.enter {s : Session} {r : Reference} {path : Text} {depth : Int} (h : Orderly most v)
    (he : v.session.enter? r path = .ok (depth, s)) :
    Orderly most ⟨s, (r, v.session) :: v.opened⟩ := by
  obtain ⟨absent, room, -, rfl⟩ := Session.enter?_eq_ok_iff.mp he
  rw [h.maxDepth] at room
  refine ⟨?_, fun k => ?_, fun k => ?_, ⟨path, ?_⟩, fun k hk => ?_, h.nested⟩
  · rw [Session.maxDepth_withStack, h.maxDepth]
  · rw [Session.stack_withStack]
    split
    · exact List.nodup_append.mpr ⟨h.distinct r, List.nodup_singleton path,
        fun a ha b hb e => absent (List.mem_singleton.mp hb ▸ e ▸ ha)⟩
    · exact h.distinct k
  · rw [Session.stack_withStack]
    split
    · next e =>
      subst e
      rw [List.length_append, List.length_singleton]
      push_cast
      exact room
    · exact h.bounded k
  · rw [Session.stack_withStack, if_pos rfl]
  · rw [Session.stack_withStack, if_neg hk]

/-- Leaving takes the template entered last off its stack. -/
theorem Orderly.leave {r : Reference} {before : Session} {rest : List (Reference × Session)}
    (h : Orderly most v) (ho : v.opened = (r, before) :: rest) :
    Orderly most ⟨v.session.leave r, rest⟩ := by
  have nested := h.nested
  rw [ho] at nested
  have sub : ∀ k, ((v.session.leave r).stack k).Sublist (v.session.stack k) := by
    intro k
    rw [Session.stack_leave]
    split
    · next e =>
      rw [e]
      exact List.dropLast_sublist _
    · exact List.Sublist.refl _
  refine ⟨?_, fun k => ?_, fun k => ?_, ?_⟩
  · rw [Session.maxDepth_leave, h.maxDepth]
  · exact (sub k).nodup (h.distinct k)
  · have shorter := (sub k).length_le
    have bound := h.bounded k
    show (((v.session.leave r).stack k).length : Int) ≤ _
    omega
  · exact nested.2.2.congr nested.leave

/-- **One move keeps a visit orderly.** -/
theorem Orderly.step (h : Orderly most v) (move : Move) : Orderly most (v.step move) := by
  cases move with
  | enter r path =>
      simp only [Visit.step]
      cases he : v.session.enter? r path with
      | ok entered => exact h.enter he
      | error p => exact h
  | leave =>
      simp only [Visit.step]
      cases ho : v.opened with
      | nil => exact h
      | cons top rest => exact h.leave ho
  | report p => exact h.of_stacks rfl (Session.stack_report _ p)
  | stash output => exact h.of_stacks (Session.maxDepth_stash _ output) (Session.stack_stash _ output)

theorem Orderly.run (h : Orderly most v) (moves : List Move) : Orderly most (v.run moves) := by
  unfold Visit.run
  induction moves generalizing v with
  | nil => exact h
  | cons move moves ih => exact ih (h.step move)

end Visit

/-! ### Work between entering and leaving -/

/-- Work that leaves both stacks as it finds them, whether it comes to a result or stops. -/
def Work.Balanced {α : Type} (w : Work α) : Prop :=
  ∀ d k, (w.outcome d).2.session.stack k = d.session.stack k

/-- Balanced work on a template is balanced together with entering and leaving the template. -/
theorem Work.Balanced.within {α : Type} {work : Int → Work α} (h : ∀ depth, (work depth).Balanced)
    (r : Reference) (path : Text) : (Work.within r path work).Balanced := by
  intro d k
  cases he : d.session.enter? r path with
  | error p => rw [Work.outcome_within_error he]
  | ok entered =>
      obtain ⟨depth, s⟩ := entered
      have inside := h depth { d with session := s }
      obtain ⟨-, -, -, rfl⟩ := Session.enter?_eq_ok_iff.mp he
      rw [Work.outcome_within_ok he]
      dsimp only at inside ⊢
      rw [Session.stack_leave]
      split
      · next e =>
        subst e
        rw [inside, Session.stack_withStack, if_pos rfl, List.dropLast_concat]
      · next ne => rw [inside, Session.stack_withStack, if_neg ne]

namespace Visit

/-- **Coming and going keeps a session in order.**  After any moves from a fresh session no template
stands twice on a stack; there are at most `most` layouts on theirs and at most `most + 1` templates
on the include stack.  An entry is refused as a cycle exactly if the template is on its stack, and
as too deep exactly if it is not and its stack would pass the limit; nothing else is refused, and a
refusal changes neither the visit nor a desk at which work on the template was to begin.  Leaving
gives both stacks back as they were when the template was entered, and so does all work between
entering and leaving, however it ends. -/
theorem orderly_run_fresh {most : Int} (h : 0 ≤ most) (nonce : Text) (moves : List Move) :
    let v := (fresh most nonce).run moves
    (v.session.layoutStack.Nodup ∧ (v.session.layoutStack.length : Int) ≤ most) ∧
    (v.session.includeStack.Nodup ∧ (v.session.includeStack.length : Int) ≤ most + 1) ∧
    (∀ r path,
      (v.session.enter? r path = .error (.cycle (v.session.stack r ++ [path]) r.scope) ↔
        path ∈ v.session.stack r) ∧
      (v.session.enter? r path = .error (.tooDeep path (v.session.entryDepth r) most r.scope) ↔
        path ∉ v.session.stack r ∧ r.limit most < (v.session.stack r).length + 1) ∧
      ∀ p, v.session.enter? r path = .error p →
        (p = .cycle (v.session.stack r ++ [path]) r.scope ∨
          p = .tooDeep path (v.session.entryDepth r) most r.scope) ∧
        v.step (.enter r path) = v ∧
        ∀ (α : Type) (work : Int → Work α) (d : Desk), d.session = v.session →
          (Work.within r path work).outcome d = (.error (.problem p), d)) ∧
    (∀ r before rest, v.opened = (r, before) :: rest →
      (v.step .leave).opened = rest ∧
        ∀ k, (v.step .leave).session.stack k = before.stack k) ∧
    ∀ (α : Type) (r : Reference) (path : Text) (work : Int → Work α),
      (∀ depth, (work depth).Balanced) → (Work.within r path work).Balanced := by
  intro v
  have orderly : Orderly most v := (orderly_fresh h nonce).run moves
  refine ⟨⟨orderly.distinct .layout, orderly.bounded .layout⟩,
    ⟨orderly.distinct .inclusion, orderly.bounded .inclusion⟩, ?_, ?_,
    fun _ r path _ balanced => Work.Balanced.within balanced r path⟩
  · intro r path
    rw [← orderly.maxDepth]
    refine ⟨Session.enter?_eq_cycle_iff, Session.enter?_eq_tooDeep_iff, fun p hp => ?_⟩
    refine ⟨Session.enter?_error hp, ?_, fun α work d hd => ?_⟩
    · simp only [step, hp]
    · rw [← hd] at hp
      exact Work.outcome_within_error hp
  · intro r before rest ho
    have nested := orderly.nested
    rw [ho] at nested
    simp only [step, ho]
    exact ⟨trivial, nested.leave⟩

/-- A page with a partial in it, inside of a layout: all three are refused a second time, a further
layout is too deep, and leaving the partial leaves the others where they are. -/
theorem orderly_crossing :
    let v := (fresh 1 "0f").run [.enter .inclusion "page", .enter .layout "base",
      .enter .layout "base", .enter .inclusion "part", .enter .inclusion "page"]
    (0 : Int) ≤ 1 ∧ v.session.layoutStack = ["base".toList] ∧
      v.session.includeStack = ["page".toList, "part".toList] ∧
      v.session.enter? .inclusion "page" =
        .error (.cycle ["page", "part", "page"] Reference.inclusion.scope) ∧
      v.session.enter? .layout "top" =
        .error (.tooDeep "top" 2 1 Reference.layout.scope) ∧
      (v.step .leave).session.includeStack = ["page".toList] := by
  intro v
  have depth : (0 : Int) ≤ 1 := by decide
  have all := orderly_run_fresh depth "0f" [.enter .inclusion "page", .enter .layout "base",
    .enter .layout "base", .enter .inclusion "part", .enter .inclusion "page"]
  obtain ⟨-, -, entries, leaving, -⟩ := all
  refine ⟨depth, by decide, by decide, ?_, ?_, ?_⟩
  · exact (entries .inclusion "page").1.mpr (by decide)
  · exact (entries .layout "top").2.1.mpr (by decide)
  · exact (leaving .inclusion _ _ rfl).2 .inclusion

end Visit

end Pagewright
