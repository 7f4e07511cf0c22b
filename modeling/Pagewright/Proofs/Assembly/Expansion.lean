import Pagewright.Proofs.Assembly.Asking
import Pagewright.Proofs.Desk.Visit

/-! # Expansion of include tags: failures stay in their branch

`expansions` records what becomes of the include tags of a text: for every tag that is met, at
whatever depth, the tags of the partial that it enters and the problem that stopped it, if there was
one.  Work on a tag and on a text grows the session by exactly the problems of that record
(`renderTag_grown`, `expandTag_grown`, `resolveTags_grown`), one for every tag that failed.  A text
is refused before anything else happens or no problem leaves it (`resolve_branch_local`). -/

namespace Pagewright.Assembly

open Session

/-- What became of an include tag on a page: what became of the tags of the partial that it entered,
and the problem that stopped it. -/
inductive Expansion where
  | mk (page : Text) (tag : IncludeTag) (inner : List Expansion) (problem : Option Problem)

mutual

/-- The problems of an expansion in the order in which they are met: the own one comes last. -/
def Expansion.problems : Expansion → List Problem
  | .mk page _ inner problem => problemsOf inner ++ (problem.map fun p => p.metAt page).toList

/-- The problems of expansions in order. -/
def problemsOf : List Expansion → List Problem
  | [] => []
  | x :: xs => x.problems ++ problemsOf xs

end

section record

variable (site : Site) (next : Text → List (Value × Value) → Text → Work Text)
  (inside : Text → List (Value × Value) → Text → Desk → List Expansion)
  (data : List (Value × Value)) (page : Text)

/-- What becomes of the tags of the partial that a tag enters; `inside` tells it for a text. -/
def entered (tag : IncludeTag) (d : Desk) : List Expansion :=
  match (partialFor site data page tag).outcome d with
  | (.ok (some p), d') => inside p.text p.data p.path d'
  | _ => []

/-- The problem that stops a tag. -/
def stopped? (tag : IncludeTag) (d : Desk) : Option Problem :=
  match (renderTag site next data page tag).outcome d with
  | (.error (.problem p), _) => some p
  | _ => none

/-- What becomes of some tags, one after the other. -/
def expansionsOf : List IncludeTag → Desk → List Expansion
  | [], _ => []
  | tag :: tags, d =>
    .mk page tag (entered site inside data page tag d) (stopped? site next data page tag d) ::
      match (expandTag site next data page tag).outcome d with
      | (.ok _, d') => expansionsOf tags d'
      | (.error _, _) => []

/-- What becomes of the tags of a text. -/
def levelExpansions (t : Text) (data : List (Value × Value)) (page : Text) (d : Desk) :
    List Expansion :=
  match d.session.enter? .inclusion page with
  | .error _ => []
  | .ok (_, s) =>
    match (Work.lower site.delimiters t).outcome { d with session := s } with
    | (.ok lowered, d') =>
      expansionsOf site next inside data page (includeTags lowered) d'
    | (.error _, _) => []

end record

/-- What becomes of the tags of a text below which at most `room` partials can be entered. -/
def expansionsWithin (site : Site) : Nat → Text → List (Value × Value) → Text → Desk →
    List Expansion
  | 0 => levelExpansions site (fun t _ _ => pure t) fun _ _ _ _ => []
  | room + 1 => levelExpansions site (resolveWithin site room) (expansionsWithin site room)

/-- What becomes of the tags of a text that is resolved at a desk. -/
def expansions (site : Site) (t : Text) (data : List (Value × Value)) (page : Text) (d : Desk) :
    List Expansion :=
  expansionsWithin site (d.session.maxDepth + 1 - d.session.includeStack.length).toNat t data page d

/-! ### One tag, one text -/

section level

variable {site : Site} {next : Text → List (Value × Value) → Text → Work Text}
  {inside : Text → List (Value × Value) → Text → Desk → List Expansion}

/-- The record that `inside` keeps of a text tells all the problems that `next` adds. -/
def Faithful (next : Text → List (Value × Value) → Text → Work Text)
    (inside : Text → List (Value × Value) → Text → Desk → List Expansion) : Prop :=
  ∀ t data page d, Grown (problemsOf (inside t data page d)) d.session
    ((next t data page).outcome d).2.session

variable (site) in
/-- Work on a tag adds the problems of the partial that it enters, and none of its own. -/
theorem renderTag_grown (faithful : Faithful next inside) (data : List (Value × Value))
    (page : Text) (tag : IncludeTag) (d : Desk) :
    Grown (problemsOf (entered site inside data page tag d)) d.session
      ((renderTag site next data page tag).outcome d).2.session := by
  have before := quiet_partialFor site data page tag d
  unfold renderTag entered
  rw [Work.outcome_bind]
  match h : (partialFor site data page tag).outcome d with
  | (.error e, d') =>
      rw [h] at before
      exact before
  | (.ok none, d') =>
      rw [h] at before
      exact before
  | (.ok (some p), d') =>
      rw [h] at before
      dsimp only
      rw [Work.outcome_bind]
      have within := faithful p.text p.data p.path d'
      match h' : (next p.text p.data p.path).outcome d' with
      | (.error e, d'') =>
          rw [h'] at within
          exact before.trans within
      | (.ok resolved, d'') =>
          rw [h'] at within
          have after : (do
              let printed ← Work.print resolved p.data p.path
              let spliced ← Work.splice printed
              Work.stash spliced : Work Text).Quiet :=
            (Work.Quiet.print _ _ _).bind fun printed =>
              (Work.Quiet.splice printed).bind fun spliced => Work.Quiet.stash spliced
          have all := (before.trans within).trans (after d'')
          rw [List.append_nil] at all
          exact all

variable (site) in
/-- Work on a tag and on what stands in for it adds the problems of the partial that it enters and,
if the tag fails, the one problem of that failure; no problem leaves it. -/
theorem expandTag_grown (faithful : Faithful next inside) (data : List (Value × Value))
    (page : Text) (tag : IncludeTag) (d : Desk) :
    Grown (Expansion.mk page tag (entered site inside data page tag d)
        (stopped? site next data page tag d)).problems d.session
      ((expandTag site next data page tag).outcome d).2.session ∧
    ∀ p, ((expandTag site next data page tag).outcome d).1 ≠ .error (.problem p) := by
  have inner := renderTag_grown site faithful data page tag d
  unfold expandTag stopped?
  rw [Work.outcome_orElse]
  match h : (renderTag site next data page tag).outcome d with
  | (.ok t, d') =>
      rw [h] at inner
      simpa [Expansion.problems] using inner
  | (.error (.failure e), d') =>
      rw [h] at inner
      simpa [Expansion.problems] using inner
  | (.error (.problem p), d') =>
      rw [h] at inner
      dsimp only at inner ⊢
      rw [Work.outcome_noted, Work.outcome_stash]
      have reported := inner.trans (Grown.report d'.session (p.metAt page))
      have stashed := reported.trans (Grown.stash (d'.session.report (p.metAt page))
        (p.metAt page).placeholder)
      rw [List.append_nil] at stashed
      exact ⟨stashed, fun q hq => by cases hq⟩

variable (site) in
/-- Work on some tags adds the problems that their record tells. -/
theorem expandTags_grown (faithful : Faithful next inside) (data : List (Value × Value))
    (page : Text) : ∀ (tags : List IncludeTag) (d : Desk),
    Grown (problemsOf (expansionsOf site next inside data page tags d)) d.session
      ((tags.mapM (expandTag site next data page)).outcome d).2.session ∧
    ∀ p, ((tags.mapM (expandTag site next data page)).outcome d).1 ≠ .error (.problem p)
  | [], d => ⟨Grown.refl d.session, fun p hp => by cases hp⟩
  | tag :: tags, d => by
      obtain ⟨first, noProblem⟩ := expandTag_grown site faithful data page tag d
      rw [List.mapM_cons, Work.outcome_bind]
      simp only [expansionsOf, problemsOf]
      match h : (expandTag site next data page tag).outcome d with
      | (.error e, d') =>
          rw [h] at first noProblem
          simp only [problemsOf, List.append_nil]
          refine ⟨first, fun p hp => noProblem p ?_⟩
          cases hp
          rfl
      | (.ok t, d') =>
          rw [h] at first
          dsimp only
          obtain ⟨others, noProblem'⟩ := expandTags_grown faithful data page tags d'
          rw [Work.outcome_bind]
          match h' : (tags.mapM (expandTag site next data page)).outcome d' with
          | (.error e, d'') =>
              rw [h'] at others noProblem'
              refine ⟨first.trans others, fun p hp => noProblem' p ?_⟩
              cases hp
              rfl
          | (.ok ts, d'') =>
              rw [h'] at others
              exact ⟨first.trans others, fun p hp => by cases hp⟩

/-- Keeping the outputs of the entry page changes nothing that a session is judged by. -/
theorem quiet_keepOutputs (depth : Int) (outputs : List Text) (t : Text) :
    (do
      if depth = 0 then Work.update fun s => { s with entryOutputs := outputs }
      return t : Work Text).Quiet := by
  intro d
  by_cases h : depth = 0
  · rw [if_pos h]
    exact ⟨rfl, rfl, rfl, rfl, List.prefix_rfl, List.prefix_rfl, (List.append_nil _).symm⟩
  · rw [if_neg h]
    exact Grown.refl d.session

/-- A text that may not be entered leaves the desk as it was. -/
theorem resolveTags_refused {t : Text} {data : List (Value × Value)} {page : Text} {d : Desk}
    {p : Problem} (h : d.session.enter? .inclusion page = .error p) :
    (resolveTags site next t data page).outcome d = (.error (.problem p), d) :=
  Work.outcome_within_error h

/-- Work on a text that may be entered adds the problems that its record tells, and no problem
leaves it. -/
theorem resolveTags_grown (faithful : Faithful next inside) {t : Text}
    {data : List (Value × Value)} {page : Text} {d : Desk} {depth : Int} {s : Session}
    (h : d.session.enter? .inclusion page = .ok (depth, s)) :
    Grown (problemsOf (levelExpansions site next inside t data page d)) d.session
      ((resolveTags site next t data page).outcome d).2.session ∧
    ∀ p, ((resolveTags site next t data page).outcome d).1 ≠ .error (.problem p) := by
  unfold resolveTags levelExpansions
  rw [Work.outcome_within_ok h, h]
  dsimp only
  have lowering := Work.Quiet.lower site.delimiters t { d with session := s }
  rw [Work.outcome_bind]
  rcases hl : (Work.lower site.delimiters t).outcome { d with session := s } with
    ⟨e | lowered, d'⟩
  · rw [hl] at lowering
    refine ⟨lowering.leave h, fun p hp => ?_⟩
    rw [Work.outcome_lower] at hl
    obtain ⟨hl, -⟩ := Prod.mk.inj hl
    obtain rfl := Except.error.inj hp
    cases ht : (Lowering.transformKept site.delimiters d.now t d.memo).1 with
    | ok lowered =>
        rw [ht] at hl
        cases hl
    | error f =>
        rw [ht] at hl
        cases hl
  · rw [hl] at lowering
    dsimp only
    obtain ⟨tags, noProblem⟩ :=
      expandTags_grown site faithful data page (includeTags lowered) d'
    rw [Work.outcome_bind]
    rcases ht : ((includeTags lowered).mapM (expandTag site next data page)).outcome d' with
      ⟨e | outputs, d''⟩
    · rw [ht] at tags noProblem
      refine ⟨(lowering.trans tags).leave h, fun p hp => noProblem p ?_⟩
      cases hp
      rfl
    · rw [ht] at tags
      dsimp only
      have kept := quiet_keepOutputs depth outputs (replaceTags lowered outputs) d''
      have all := (lowering.trans tags).trans kept
      rw [List.append_nil] at all
      refine ⟨all.leave h, fun p hp => ?_⟩
      by_cases hd : depth = 0
      · rw [if_pos hd] at hp
        cases hp
      · rw [if_neg hd] at hp
        cases hp

/-- The record of a text tells all the problems that work on it adds. -/
theorem faithful_resolveTags (faithful : Faithful next inside) :
    Faithful (resolveTags site next) (levelExpansions site next inside) := by
  intro t data page d
  cases h : d.session.enter? .inclusion page with
  | error p =>
      rw [resolveTags_refused h]
      unfold levelExpansions
      rw [h]
      exact Grown.refl d.session
  | ok e => exact (resolveTags_grown faithful h).1

end level

/-! ### All levels -/

theorem faithful_nothing : Faithful (fun t _ _ => pure t) fun _ _ _ _ => [] :=
  fun _ _ _ d => Grown.refl d.session

theorem faithful_resolveWithin (site : Site) : ∀ room : Nat,
    Faithful (resolveWithin site room) (expansionsWithin site room)
  | 0 => faithful_resolveTags faithful_nothing
  | room + 1 => faithful_resolveTags (faithful_resolveWithin site room)

/-- A text is refused at once or no problem leaves it, however many partials may still be entered
below it. -/
theorem resolveWithin_grown (site : Site) (room : Nat) (t : Text) (data : List (Value × Value))
    {page : Text} {d : Desk} {depth : Int} {s : Session}
    (h : d.session.enter? .inclusion page = .ok (depth, s)) :
    Grown (problemsOf (expansionsWithin site room t data page d)) d.session
      ((resolveWithin site room t data page).outcome d).2.session ∧
    ∀ p, ((resolveWithin site room t data page).outcome d).1 ≠ .error (.problem p) := by
  cases room with
  | zero => exact resolveTags_grown faithful_nothing h
  | succ room => exact resolveTags_grown (faithful_resolveWithin site room) h

theorem resolveWithin_refused (site : Site) (room : Nat) {t : Text} {data : List (Value × Value)}
    {page : Text} {d : Desk} {p : Problem} (h : d.session.enter? .inclusion page = .error p) :
    (resolveWithin site room t data page).outcome d = (.error (.problem p), d) := by
  cases room with
  | zero => exact resolveTags_refused h
  | succ room => exact resolveTags_refused h

/-- **Failures of include tags stay in their branch.**  Resolving a text is refused at once, by a
cycle or by the depth limit and with the desk as it was, or no problem leaves it.  Then, whatever
fails inside, both stacks and the once keys are what they were, earlier notices and output stand
where they stood, and the problems that were added are those of the tags that failed, one for each
of them, in the order in which they failed. -/
theorem resolve_branch_local (site : Site) (t : Text) (data : List (Value × Value)) (page : Text)
    (d : Desk) :
    (∃ p, (p = .cycle (d.session.includeStack ++ [page]) "include" ∨
          p = .tooDeep page d.session.includeStack.length d.session.maxDepth "include") ∧
        d.session.enter? .inclusion page = .error p ∧
        (resolve site t data page).outcome d = (.error (.problem p), d)) ∨
    ((∃ e, d.session.enter? .inclusion page = .ok e) ∧
      (∀ p, ((resolve site t data page).outcome d).1 ≠ .error (.problem p)) ∧
      Grown (problemsOf (expansions site t data page d)) d.session
        ((resolve site t data page).outcome d).2.session) := by
  unfold resolve expansions
  rw [Work.outcome_bind_ok (Work.outcome_session d)]
  cases h : d.session.enter? .inclusion page with
  | error p =>
      exact .inl ⟨p, enter?_error h, rfl, resolveWithin_refused site _ h⟩
  | ok e =>
      obtain ⟨grown, noProblem⟩ := resolveWithin_grown site
        (d.session.maxDepth + 1 - d.session.includeStack.length).toNat t data h
      exact .inr ⟨⟨e, rfl⟩, noProblem, grown⟩

end Pagewright.Assembly

/-! ## The room does not show

Texts are resolved with a number that says how many partials may still be entered, so that resolving
comes to an end.  As the number is taken from the session, and the session refuses what is too deep
before the number is used up, a text is resolved by rewriting it and expanding its tags, where the
partials of the tags are resolved in the same way (`resolve_eq_resolveTags`). -/

namespace Pagewright.Assembly

open Session

/-- Two ways to go on with a text that come to the same while some templates are being included. -/
def AgreeAt (stack : List Text) (most : Int)
    (next next' : Text → List (Value × Value) → Text → Work Text) : Prop :=
  ∀ t data page d, d.session.includeStack = stack → d.session.maxDepth = most →
    (next t data page).outcome d = (next' t data page).outcome d

section

variable {site : Site} {stack : List Text} {most : Int}
  {next next' : Text → List (Value × Value) → Text → Work Text}
  {inside : Text → List (Value × Value) → Text → Desk → List Expansion}

variable (site) in
theorem expandTag_congr (agree : AgreeAt stack most next next') (data : List (Value × Value))
    (page : Text) (tag : IncludeTag) {d : Desk} (hs : d.session.includeStack = stack)
    (hm : d.session.maxDepth = most) :
    (expandTag site next data page tag).outcome d =
      (expandTag site next' data page tag).outcome d := by
  have rendered : (renderTag site next data page tag).outcome d =
      (renderTag site next' data page tag).outcome d := by
    have asked := quiet_partialFor site data page tag d
    unfold renderTag
    rw [Work.outcome_bind, Work.outcome_bind]
    match h : (partialFor site data page tag).outcome d with
    | (.error e, d') => rfl
    | (.ok none, d') => rfl
    | (.ok (some p), d') =>
        rw [h] at asked
        have same := agree p.text p.data p.path d' (asked.includeStack.trans hs)
          (asked.maxDepth.trans hm)
        dsimp only
        rw [Work.outcome_bind, Work.outcome_bind, same]
  unfold expandTag
  rw [Work.outcome_orElse, Work.outcome_orElse, rendered]

variable (site) in
/-- Every tag finds the stack as the text has left it. -/
theorem expandTags_congr (agree : AgreeAt stack most next next') (faithful : Faithful next inside)
    (data : List (Value × Value)) (page : Text) : ∀ (tags : List IncludeTag) (d : Desk),
    d.session.includeStack = stack → d.session.maxDepth = most →
    (tags.mapM (expandTag site next data page)).outcome d =
      (tags.mapM (expandTag site next' data page)).outcome d
  | [], _, _, _ => rfl
  | tag :: tags, d, hs, hm => by
      have same := expandTag_congr site agree data page tag hs hm
      have grown := (expandTag_grown site faithful data page tag d).1
      rw [List.mapM_cons, List.mapM_cons, Work.outcome_bind, Work.outcome_bind, ← same]
      match h : (expandTag site next data page tag).outcome d with
      | (.error e, d') => rfl
      | (.ok output, d') =>
          rw [h] at grown
          have others := expandTags_congr agree faithful data page tags d'
            (grown.includeStack.trans hs) (grown.maxDepth.trans hm)
          dsimp only
          rw [Work.outcome_bind, Work.outcome_bind, others]

theorem resolveTags_congr {t : Text} {data : List (Value × Value)} {page : Text} {d : Desk}
    (agree : AgreeAt (d.session.includeStack ++ [page]) d.session.maxDepth next next')
    (faithful : Faithful next inside) :
    (resolveTags site next t data page).outcome d =
      (resolveTags site next' t data page).outcome d := by
  cases he : d.session.enter? .inclusion page with
  | error p => rw [resolveTags_refused he, resolveTags_refused he]
  | ok entered =>
      obtain ⟨depth, s⟩ := entered
      obtain ⟨-, rfl⟩ := enter?_ok he
      unfold resolveTags
      rw [Work.outcome_within_ok he, Work.outcome_within_ok he, Work.outcome_bind, Work.outcome_bind,
        Work.outcome_lower]
      cases (Lowering.transformKept site.delimiters d.now t d.memo).1 with
      | error f => rfl
      | ok lowered =>
          have tags := expandTags_congr site agree faithful data page (includeTags lowered)
            { d with
              session := d.session.withStack (d.session.stack .inclusion ++ [page]) .inclusion
              memo := (Lowering.transformKept site.delimiters d.now t d.memo).2 } rfl rfl
          dsimp only [Except.mapError]
          rw [Work.outcome_bind, Work.outcome_bind, tags]

end

/-- The room for a text is what the session leaves to it. -/
theorem outcome_resolve (site : Site) (t : Text) (data : List (Value × Value)) (page : Text)
    (d : Desk) :
    (resolve site t data page).outcome d =
      (resolveWithin site (d.session.maxDepth + 1 - d.session.includeStack.length).toNat t data
        page).outcome d :=
  Work.outcome_bind_ok (Work.outcome_session d)

theorem faithful_resolve (site : Site) : Faithful (resolve site) (expansions site) := by
  intro t data page d
  rw [outcome_resolve]
  exact faithful_resolveWithin site _ t data page d

/-- **A text is resolved by expanding its tags**, the partials of which are resolved in turn. -/
theorem resolve_eq_resolveTags (site : Site) (t : Text) (data : List (Value × Value)) (page : Text)
    (d : Desk) :
    (resolve site t data page).outcome d =
      (resolveTags site (resolve site) t data page).outcome d := by
  rw [outcome_resolve]
  cases he : d.session.enter? .inclusion page with
  | error p => rw [resolveWithin_refused site _ he, resolveTags_refused he]
  | ok entered =>
      obtain ⟨depth, s⟩ := entered
      have room : (d.session.includeStack.length : Int) + 1 ≤ d.session.maxDepth + 1 :=
        (enter?_eq_ok_iff.mp he).2.1
      obtain ⟨n, hn⟩ : ∃ n, (d.session.maxDepth + 1 - d.session.includeStack.length).toNat = n + 1 :=
        Nat.exists_eq_succ_of_ne_zero (by omega)
      rw [hn]
      refine resolveTags_congr (fun t' data' page' d' hs hm => ?_) (faithful_resolveWithin site n)
      have less : (d'.session.maxDepth + 1 - d'.session.includeStack.length).toNat = n := by
        rw [hs, hm, List.length_append, List.length_singleton]
        omega
      rw [outcome_resolve, less]

end Pagewright.Assembly
