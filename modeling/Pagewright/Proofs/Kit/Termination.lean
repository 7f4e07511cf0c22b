import Pagewright.Proofs.Assembly.Frame
import Pagewright.Proofs.Kit.Independence

/-! # Every page comes to an end

A template that includes or extends itself is refused, but what a partial includes is only known
once the slots of its tag are put in, so no text grows shorter on the way down.  What shrinks is the
room that is left on the two stacks.  As many pages and texts are open as there are templates on the
stacks, which every step preserves (`Bounded.step`), so a page is never more than `maxDepth` layouts
and `maxDepth + 1` texts deep.  And no sequence of steps goes on for ever, wherever it begins
(`wellFounded_steps`): a task is done before what waits for it goes on.

Main definitions: `Work.Steady`, `Progress.openHops`, `Progress.openTexts`. -/

namespace Pagewright

open Text Directive Assembly

/-! ### Work that keeps the stacks -/

namespace Work

variable {α β : Type}

/-- Work that leaves the stacks and their limit as it finds them, however it ends. -/
def Steady (w : Work α) : Prop :=
  ∀ d, (w.outcome d).2.session.maxDepth = d.session.maxDepth ∧
    ∀ k, (w.outcome d).2.session.stack k = d.session.stack k

theorem Steady.update {f : Session → Session} (maxDepth : ∀ s, (f s).maxDepth = s.maxDepth)
    (stack : ∀ s k, (f s).stack k = s.stack k) : (Work.update f).Steady := fun d =>
  ⟨maxDepth d.session, stack d.session⟩

theorem Steady.bind {w : Work α} {f : α → Work β} (hw : w.Steady) (hf : ∀ a, (f a).Steady) :
    (w >>= f).Steady := by
  intro d
  have first := hw d
  rw [outcome_bind]
  match h : w.outcome d with
  | (.error e, d') =>
    rw [h] at first
    exact first
  | (.ok a, d') =>
    rw [h] at first
    exact ⟨(hf a d').1.trans first.1, fun k => ((hf a d').2 k).trans (first.2 k)⟩

theorem Steady.orElse {w : Work α} {handle : Problem → Work α} (hw : w.Steady)
    (hh : ∀ p, (handle p).Steady) : (w.orElse handle).Steady := by
  intro d
  have first := hw d
  rw [outcome_orElse]
  match h : w.outcome d with
  | (.ok a, d') =>
    rw [h] at first
    exact first
  | (.error (.failure f), d') =>
    rw [h] at first
    exact first
  | (.error (.problem p), d') =>
    rw [h] at first
    exact ⟨(hh p d').1.trans first.1, fun k => ((hh p d').2 k).trans (first.2 k)⟩

theorem Steady.within {r : Reference} {path : Text} {work : Int → Work α}
    (h : ∀ depth, (work depth).Steady) : (Work.within r path work).Steady := by
  intro d
  refine ⟨?_, Balanced.within (fun depth d k => (h depth d).2 k) r path d⟩
  cases he : d.session.enter? r path with
  | error p => rw [outcome_within_error he]
  | ok entered =>
    obtain ⟨depth, s⟩ := entered
    obtain ⟨-, rfl⟩ := Session.enter?_ok he
    rw [outcome_within_ok he, Session.maxDepth_leave, (h depth _).1, Session.maxDepth_withStack]

/-- All stages of a page keep the stacks. -/
theorem stages_steady : Stages (fun _ => True) fun _ => Steady where
  pure _ := fun _ => ⟨rfl, fun _ => rfl⟩
  problem _ := fun _ => ⟨rfl, fun _ => rfl⟩
  failure _ := fun _ => ⟨rfl, fun _ => rfl⟩
  bind := Steady.bind
  orElse hw hh := hw.orElse fun p => hh p trivial
  evaluate t data path b := fun d => by
    rw [outcome_evaluate]
    exact ⟨rfl, fun _ => rfl⟩
  remark t := .update (fun _ => rfl) fun s k => by cases k <;> rfl
  session := fun _ => ⟨rfl, fun _ => rfl⟩
  report _ := .update (fun _ => rfl) fun s k => Session.stack_report s _ k
  stash output := fun d => ⟨Session.maxDepth_stash _ output, Session.stack_stash _ output⟩
  splice t := fun d => by
    rw [outcome_splice]
    exact ⟨rfl, fun _ => rfl⟩
  print t data path := fun d => by
    rw [outcome_print]
    exact ⟨rfl, fun _ => rfl⟩
  within _ hw := Steady.within hw

theorem Steady.noted (page : Text) (p : Problem) : (noted page p).Steady :=
  stages_steady.noted trivial

theorem Steady.ofExcept (r : Except Halt α) : (ofExcept r).Steady :=
  stages_steady.ofExcept fun _ _ => trivial

theorem Steady.lower (ds : Delimiters) (t : Text) : (lower ds t).Steady := by
  intro d
  rw [outcome_lower]
  exact ⟨rfl, fun _ => rfl⟩

end Work

namespace Assembly

open Work

theorem steady_partialFor (site : Site) (data : List (Value × Value)) (page : Text)
    (tag : IncludeTag) : (partialFor site data page tag).Steady :=
  reads_partialFor Mishaps.all stages_steady.toReads site data page tag

theorem steady_printPartial (p : Partial) (resolved : Text) : (printPartial p resolved).Steady :=
  (stages_steady.print _ _ _).bind fun _ => (stages_steady.splice _).bind fun _ =>
    stages_steady.stash _

theorem steady_withoutLayout (t page : Text) (p : Problem) : (withoutLayout t page p).Steady :=
  (Steady.noted page p).bind fun _ => stages_steady.pure _

theorem steady_finishPage (flattened page : Text) (data : List (Value × Value))
    (r : Except Halt Text) : (finishPage flattened page data r).Steady := by
  have expanded := (Steady.ofExcept r).orElse fun p =>
    (Steady.noted page p).bind fun placeholder => stages_steady.pure (placeholder ++ flattened)
  refine expanded.bind fun expanded => ?_
  refine (stages_printPage stages_steady flattened expanded page data).bind fun printed => ?_
  refine (stages_steady.splice _).bind fun printed => ?_
  refine stages_steady.session.bind fun s => ?_
  have seen : (Work.update fun s' => { s' with onceSeen := (collect printed s.onceSeen).2 }).Steady :=
    .update (fun _ => rfl) fun s k => by cases k <;> rfl
  exact seen.bind fun _ => stages_steady.pure (collect printed s.onceSeen).1

/-! ### What is open -/

/-- How many pages wait for their layouts. -/
def hopsIn : List Frame → Nat
  | [] => 0
  | .hop _ :: frames => hopsIn frames + 1
  | _ :: frames => hopsIn frames

/-- How many texts wait for the partial of one of their tags. -/
def textsIn : List Frame → Nat
  | [] => 0
  | .tag .. :: frames => textsIn frames + 1
  | _ :: frames => textsIn frames

namespace Progress

/-- How many layouts are open: as many as there are pages that wait for theirs. -/
def openHops (c : Progress) : Nat := hopsIn c.frames

/-- How many texts are open: those that wait for a partial, and the one that is worked on. -/
def openTexts (c : Progress) : Nat :=
  textsIn c.frames + match c.task with
    | .tags _ _ => 1
    | _ => 0

end Progress

/-- The templates on the stacks of a session are as many as are open, and not too many. -/
structure Fits (most : Int) (s : Session) (hops texts : Nat) : Prop where
  maxDepth : s.maxDepth = most
  layouts : s.layoutStack.length = hops
  inclusions : s.includeStack.length = texts
  hops : (hops : Int) ≤ most
  texts : (texts : Int) ≤ most + 1

namespace Fits

variable {most : Int} {s s' : Session} {hops texts : Nat}

theorem congr (h : Fits most s hops texts) (maxDepth : s'.maxDepth = s.maxDepth)
    (stack : ∀ k, s'.stack k = s.stack k) : Fits most s' hops texts where
  maxDepth := maxDepth.trans h.maxDepth
  layouts := (congrArg List.length (stack .layout)).trans h.layouts
  inclusions := (congrArg List.length (stack .inclusion)).trans h.inclusions
  hops := h.hops
  texts := h.texts

theorem steady {α : Type} {w : Work α} (hw : w.Steady) {d : Desk}
    (h : Fits most d.session hops texts) : Fits most (w.outcome d).2.session hops texts :=
  h.congr (hw d).1 (hw d).2

theorem enterLayout {path : Text} {depth : Int} (h : Fits most s hops texts)
    (he : s.enter? .layout path = .ok (depth, s')) : Fits most s' (hops + 1) texts := by
  obtain ⟨-, room, -, rfl⟩ := Session.enter?_eq_ok_iff.mp he
  have fits : ((s.layoutStack.length : Nat) : Int) + 1 ≤ s.maxDepth := room
  refine ⟨h.maxDepth, ?_, h.inclusions, ?_, h.texts⟩
  · show (s.layoutStack ++ [path]).length = hops + 1
    rw [List.length_append, List.length_singleton, h.layouts]
  · rw [h.layouts, h.maxDepth] at fits
    exact fits

theorem enterText {path : Text} {depth : Int} (h : Fits most s hops texts)
    (he : s.enter? .inclusion path = .ok (depth, s')) : Fits most s' hops (texts + 1) := by
  obtain ⟨-, room, -, rfl⟩ := Session.enter?_eq_ok_iff.mp he
  have fits : ((s.includeStack.length : Nat) : Int) + 1 ≤ s.maxDepth + 1 := room
  refine ⟨h.maxDepth, h.layouts, ?_, h.hops, ?_⟩
  · show (s.includeStack ++ [path]).length = texts + 1
    rw [List.length_append, List.length_singleton, h.inclusions]
  · rw [h.inclusions, h.maxDepth] at fits
    exact fits

theorem leaveLayout (h : Fits most s (hops + 1) texts) : Fits most (s.leave .layout) hops texts where
  maxDepth := h.maxDepth
  layouts := by
    show s.layoutStack.dropLast.length = hops
    rw [List.length_dropLast, h.layouts, Nat.add_sub_cancel]
  inclusions := h.inclusions
  hops := by
    have := h.hops
    push_cast at this
    omega
  texts := h.texts

theorem leaveText (h : Fits most s hops (texts + 1)) : Fits most (s.leave .inclusion) hops texts where
  maxDepth := h.maxDepth
  layouts := h.layouts
  inclusions := by
    show s.includeStack.dropLast.length = texts
    rw [List.length_dropLast, h.inclusions, Nat.add_sub_cancel]
  hops := h.hops
  texts := by
    have := h.texts
    push_cast at this
    omega

end Fits

namespace Progress

/-- As many pages and texts are open as there are templates on the stacks. -/
def Bounded (most : Int) (c : Progress) : Prop :=
  Fits most c.desk.session c.openHops c.openTexts

variable {site : Site} {most : Int} {frames : List Frame} {d : Desk}

theorem bounded_conclude {w : Work Text} (hw : w.Steady)
    (h : Fits most d.session (hopsIn frames) (textsIn frames)) :
    Bounded most (conclude w frames d) := h.steady hw

theorem bounded_goOn (o : OpenText) (tags : List IncludeTag) {w : Work Text} (hw : w.Steady)
    (h : Fits most d.session (hopsIn frames) (textsIn frames + 1)) :
    Bounded most (goOn o tags w frames d) := by
  have after := h.steady (hw.orElse (Steady.noted o.page))
  unfold goOn
  match ho : (w.orElse (Work.noted o.page)).outcome d with
  | (.ok output, d') =>
    rw [ho] at after
    exact after
  | (.error e, d') =>
    rw [ho] at after
    exact after.leaveText

theorem bounded_stepExtend {t page : Text} {inherited : List (Text × Text)}
    (h : Bounded most ⟨.extend t page inherited, frames, d⟩) :
    Bounded most (stepExtend site t page inherited frames d) := by
  unfold stepExtend
  split
  · exact h
  · next e _ =>
    cases hl : enterLayout site page e d.session with
    | error halt =>
      exact bounded_conclude ((Steady.ofExcept _).orElse (steady_withoutLayout t page)) h
    | ok entered =>
      obtain ⟨target, layout, s⟩ := entered
      obtain ⟨depth, he⟩ := enterLayout_ok hl
      exact h.enterLayout he

theorem bounded_stepResolve {t page : Text} {data : List (Value × Value)}
    (h : Bounded most ⟨.resolve t data page, frames, d⟩) :
    Bounded most (stepResolve site t data page frames d) := by
  unfold stepResolve
  cases he : d.session.enter? .inclusion page with
  | error p => exact h
  | ok entered =>
    obtain ⟨depth, s⟩ := entered
    have opened : Fits most s (hopsIn frames) (textsIn frames + 1) :=
      h.enterText he
    have after := Fits.steady (Steady.lower site.delimiters t) (d := { d with session := s }) opened
    dsimp only
    match hl : (Work.lower site.delimiters t).outcome { d with session := s } with
    | (.ok lowered, d') =>
      rw [hl] at after
      exact after
    | (.error halt, d') =>
      rw [hl] at after
      exact after.leaveText

theorem bounded_stepTags {o : OpenText} : ∀ {tags : List IncludeTag},
    Bounded most ⟨.tags o tags, frames, d⟩ → Bounded most (stepTags site o frames d tags)
  | [], h => by
    have entry : Fits most
        (if o.depth = 0 then { d.session with entryOutputs := o.outputs } else d.session)
        (hopsIn frames) (textsIn frames + 1) := by
      split
      · exact h.congr rfl fun k => by cases k <;> rfl
      · exact h
    exact entry.leaveText
  | tag :: tags, h => by
    have asked := h.steady (steady_partialFor site o.data o.page tag)
    unfold stepTags
    dsimp only
    match hp : (partialFor site o.data o.page tag).outcome d with
    | (.ok (some p), d') =>
      rw [hp] at asked
      exact asked
    | (.ok none, d') =>
      rw [hp] at asked
      exact bounded_goOn o tags (stages_steady.pure []) asked
    | (.error halt, d') =>
      rw [hp] at asked
      exact bounded_goOn o tags (Steady.ofExcept _) asked

theorem bounded_stepAnswer {r : Except Halt Text} : ∀ {f : Frame},
    Bounded most ⟨.answer r, f :: frames, d⟩ → Bounded most (stepAnswer site r frames d f)
  | .hop hop, h =>
    bounded_conclude ((Steady.ofExcept _).orElse (steady_withoutLayout hop.text hop.page))
      (Fits.leaveLayout h)
  | .tag o p tags, h =>
    bounded_goOn o tags ((Steady.ofExcept r).bind (steady_printPartial p)) h
  | .flattening page data, h => by
    cases r with
    | ok flattened => exact h
    | error halt => exact h
  | .expanding flattened page data, h =>
    bounded_conclude (steady_finishPage flattened page data r) h

/-- **A step keeps the balance**: what it opens is put on a stack, and what it closes is taken off
again. -/
theorem Bounded.step {c c' : Progress} (h : c.Bounded most) (hs : c.step site = some c') :
    c'.Bounded most := by
  obtain ⟨task, frames, d⟩ := c
  match task, frames, hs with
  | .extend t page inherited, frames, hs =>
    obtain rfl := Option.some.inj hs
    exact bounded_stepExtend h
  | .resolve t data page, frames, hs =>
    obtain rfl := Option.some.inj hs
    exact bounded_stepResolve h
  | .tags o tags, frames, hs =>
    obtain rfl := Option.some.inj hs
    exact bounded_stepTags h
  | .answer r, f :: frames, hs =>
    obtain rfl := Option.some.inj hs
    exact bounded_stepAnswer h

theorem Bounded.follows {c c' : Progress} (h : c.Bounded most) (hs : Follows site c c') :
    c'.Bounded most := by
  induction hs with
  | refl => exact h
  | tail _ last ih => exact ih.step last

/-- Before the first step of a page nothing is open. -/
theorem bounded_start (hd : 0 ≤ d.session.maxDepth) (layouts : d.session.layoutStack = [])
    (inclusions : d.session.includeStack = []) (t page : Text) (data : List (Value × Value)) :
    Bounded d.session.maxDepth (start site t page data d) where
  maxDepth := rfl
  layouts := congrArg List.length layouts
  inclusions := congrArg List.length inclusions
  hops := hd
  texts := Int.le_add_one hd

end Progress

/-! ### No run goes on for ever -/

section

variable {site : Site}

/-- What leads to the end of all runs has none but such runs itself, as there is but one next
step. -/
theorem acc_of_follows {c c' : Progress} (h : Follows site c c')
    (ends : Acc (fun c' c => Steps site c c') c') : Acc (fun c' c => Steps site c c') c := by
  induction h using Relation.ReflTransGen.head_induction_on with
  | refl => exact ends
  | head first _ ih => exact ⟨_, fun c₂ second => Option.some.inj (first.symm.trans second) ▸ ih⟩

open Progress

/-- Every task is done before what waits for it goes on: its steps lead to a result, and leave the
frames below it as they are. -/
theorem exists_answer (site : Site) (task : Task) (frames : List Frame) (d : Desk) :
    ∃ r d', Follows site ⟨task, frames, d⟩ ⟨.answer r, frames, d'⟩ := by
  cases task with
  | answer r => exact ⟨r, d, .refl⟩
  | extend t page inherited => exact ⟨_, _, follows_extend site _ t page inherited frames d rfl⟩
  | resolve t data page => exact ⟨_, _, follows_resolve site _ t data page frames d rfl⟩
  | tags o tags =>
    have all := follows_tags
      (fun t data page frames d _ _ => follows_resolve site _ t data page frames d rfl)
      (faithful_resolve site) frames tags o d rfl rfl
    match h : (tags.mapM (expandTag site (resolve site) o.data o.page)).outcome d with
    | (.ok outputs, d') =>
      rw [h] at all
      exact ⟨_, _, all.trans (Follows.of_step rfl .refl)⟩
    | (.error halt, d') =>
      rw [h] at all
      exact ⟨_, _, all⟩

/-- By induction on the frames: a result is taken by the innermost of them, and what follows is done
before the others go on. -/
theorem acc_answer (site : Site) : ∀ (frames : List Frame) (r : Except Halt Text) (d : Desk),
    Acc (fun c' c => Steps site c c') ⟨.answer r, frames, d⟩
  | [], r, d => ⟨_, fun _ h => nomatch h⟩
  | f :: frames, r, d => by
    have done (task : Task) (d : Desk) : Acc (fun c' c => Steps site c c') ⟨task, frames, d⟩ := by
      obtain ⟨r, d', h⟩ := exists_answer site task frames d
      exact acc_of_follows h (acc_answer site frames r d')
    refine acc_of_follows (Follows.of_step rfl .refl) ?_
    cases f with
    | hop h => exact done _ _
    | tag o p tags =>
      dsimp only [stepAnswer, goOn]
      split
      · exact done _ _
      · exact done _ _
    | flattening page data =>
      cases r with
      | error halt => exact done _ _
      | ok flattened =>
        obtain ⟨r', d', h⟩ := exists_answer site (.resolve flattened data page)
          (.expanding flattened page data :: frames) d
        exact acc_of_follows (h.trans (Follows.of_step rfl .refl)) (done _ _)
    | expanding flattened page data => exact done _ _

/-- **No run goes on for ever**, wherever it begins. -/
theorem wellFounded_steps (site : Site) : WellFounded fun c' c => Steps site c c' := by
  refine ⟨fun ⟨task, frames, d⟩ => ?_⟩
  obtain ⟨r, d', h⟩ := exists_answer site task frames d
  exact acc_of_follows h (acc_answer site frames r d')

end

end Assembly

/-! ### What a page comes to -/

namespace Work

variable {α β : Type}

/-- Work that handles every problem that it meets. -/
def Settles (w : Work α) : Prop := ∀ d p, (w.outcome d).1 ≠ .error (.problem p)

theorem Settles.bind {w : Work α} {f : α → Work β} (hw : w.Settles) (hf : ∀ a, (f a).Settles) :
    (w >>= f).Settles := by
  intro d p
  have first := hw d
  rw [outcome_bind]
  match h : w.outcome d with
  | (.ok a, d') => exact hf a d' p
  | (.error (.failure f), d') => exact nofun
  | (.error (.problem q), d') =>
    rw [h] at first
    exact absurd rfl (first q)

theorem Settles.orElse (w : Work α) {handle : Problem → Work α} (hh : ∀ p, (handle p).Settles) :
    (w.orElse handle).Settles := by
  intro d p
  rw [outcome_orElse]
  match w.outcome d with
  | (.ok a, d') => exact nofun
  | (.error (.failure f), d') => exact nofun
  | (.error (.problem q), d') => exact hh q d' p

theorem Settles.pure (a : α) : (pure a : Work α).Settles := fun _ _ => nofun

theorem Settles.session : session.Settles := fun _ _ => nofun

theorem Settles.update (f : Session → Session) : (update f).Settles := fun _ _ => nofun

theorem Settles.ofFailure (r : Except Failure α) : (ofFailure r).Settles := by
  intro d p
  rw [outcome_ofFailure]
  cases r with
  | ok a => exact nofun
  | error f => exact nofun

theorem Settles.splice (t : Text) : (splice t).Settles :=
  .bind .session fun s => .ofFailure (s.splice t)

theorem Settles.noted (page : Text) (p : Problem) : (noted page p).Settles := by
  intro d q
  rw [outcome_noted]
  exact nofun

end Work

namespace Assembly

open Work

theorem settles_hop (site : Site) (next : Text → Text → List (Text × Text) → Work Text)
    (t page : Text) (inherited : List (Text × Text)) :
    (hop site next t page inherited).Settles := by
  unfold hop
  split
  · exact .pure t
  · exact .orElse _ fun p => .bind (.noted page p) fun _ => .pure _

theorem settles_flatten (site : Site) (t page : Text) : (flatten site t page).Settles := by
  refine .bind .session fun s => ?_
  cases (s.maxDepth - s.layoutStack.length).toNat with
  | zero => exact settles_hop site _ _ page []
  | succ room => exact settles_hop site _ _ page []

theorem settles_printPage (flattened expanded page : Text) (data : List (Value × Value)) :
    (printPage flattened expanded page data).Settles := by
  have fallen : (fallback flattened).Settles :=
    .bind .session fun _ => .bind (.ofFailure _) fun _ => .splice _
  exact .orElse _ fun _ => .bind (.update _) fun _ => .bind fallen fun _ => .pure _

/-- Putting a page together handles every problem. -/
theorem settles_makePage (site : Site) (t page : Text) (data : List (Value × Value)) :
    (makePage site t page data).Settles := by
  refine .bind (settles_flatten site t page) fun flattened => ?_
  refine .bind (.orElse _ fun p => .bind (.noted page p) fun _ => .pure _) fun expanded => ?_
  refine .bind (settles_printPage flattened expanded page _) fun printed => ?_
  refine .bind (.splice printed) fun printed => ?_
  refine .bind .session fun s => ?_
  exact .bind (.update _) fun _ => .pure (collect printed s.onceSeen).1

end Assembly

namespace Kit

open Assembly Progress

/-- **Every page comes to an end**, whatever its layouts and partials refer to.  No sequence of steps
goes on for ever; at no time of the run are more than `maxDepth + 1` texts and `maxDepth` layouts
open; and the run ends with what printing the page answers: a page, or a failure. -/
theorem render_terminates (k : Kit) (depth : 0 ≤ k.settings.maxDepth) (now : Rat)
    (nonce t page : Text) (data : List (Value × Value)) :
    let first := start k.site t page data (k.desk now nonce)
    (WellFounded fun c' c => Steps k.site c c') ∧
      (∀ c, Follows k.site first c → (c.openTexts : Int) ≤ k.settings.maxDepth + 1 ∧
        (c.openHops : Int) ≤ k.settings.maxDepth) ∧
      ∃ (r : Except Failure Text) (d : Desk),
        Follows k.site first ⟨.answer (r.mapError .failure), [], d⟩ ∧
        k.render now nonce t page data =
          (r.map fun text => ⟨text, page, d.session.notices, d.session.onceSeen.length⟩,
            { k with press := d.press, memo := d.memo }) := by
  intro first
  refine ⟨wellFounded_steps k.site, fun c hc => ?_, ?_⟩
  · have bounded := (bounded_start depth rfl rfl t page data).follows hc
    exact ⟨bounded.texts, bounded.hops⟩
  · have leads := @follows_makePage k.site t page data (k.desk now nonce)
    have settled := settles_makePage k.site t page data (k.desk now nonce)
    rw [render_eq]
    unfold conclude at leads
    cases hr : ((makePage k.site t page data).outcome (k.desk now nonce)).1 with
    | ok text =>
      rw [hr] at leads
      exact ⟨.ok text, _, leads, rfl⟩
    | error halt =>
      cases halt with
      | problem p => exact absurd hr (settled p)
      | failure f =>
        rw [hr] at leads
        exact ⟨.error f, _, leads, rfl⟩

/-- A layout that extends itself, and a partial that is put into its own slot. -/
def entangled : Kit := make { maxDepth := 1 } (.shelf ⟨[("loop", "@extends('loop')[@yield('c')]"),
  ("card", "(@slot('s'))")]⟩) {}

/-- The page that refers to both. -/
def entangledPage : Text :=
  "@extends('loop')@section('c')<include src=\"card\">" ++
    "@slot('s')<include src=\"card\" />@endslot</include>@endsection"

theorem render_entangled :
    0 ≤ entangled.settings.maxDepth ∧
      (∀ c, Follows entangled.site
        (start entangled.site entangledPage "index.html" [] (entangled.desk 0 "5eed")) c →
          (c.openTexts : Int) ≤ 2 ∧ (c.openHops : Int) ≤ 1) ∧
      ∃ r d, Follows entangled.site
          (start entangled.site entangledPage "index.html" [] (entangled.desk 0 "5eed"))
          ⟨.answer (.ok r), [], d⟩ ∧
        d.session.problems.map Problem.code = ["E1001".toList, "E1002".toList] := by
  have depth : 0 ≤ entangled.settings.maxDepth := by decide
  obtain ⟨-, bounded, r, d, leads, same⟩ :=
    render_terminates entangled depth 0 "5eed" entangledPage "index.html" []
  refine ⟨depth, bounded, ?_⟩
  have codes : (entangled.render 0 "5eed" entangledPage "index.html" []).1.toOption.map
      (fun p => p.problems.map Problem.code) = some ["E1001".toList, "E1002".toList] := by
    decide +kernel
  rw [same] at codes
  cases r with
  | error f => cases codes
  | ok text => exact ⟨text, d, leads, Option.some.inj codes⟩

end Kit

end Pagewright
