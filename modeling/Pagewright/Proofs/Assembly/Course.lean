import Pagewright.Proofs.Assembly.Hop
import Pagewright.Proofs.Desk.Visit

/-! # The course of a page through its layouts

A page leads to a layout by its first extends directive, the layout to a further one, and so on.
`course` follows this way through a shelf until a template extends nothing or a hop fails one of its
checks (`HopCheck`), of which the first that fails counts.  Flattening a page never fails: it gives
what the course comes to (`Course.shown`), and adds to the session one problem and one comment if
the course is broken and nothing if it is not (`flatten_course`).

Main definitions: `Hop`, `HopCheck`, `Hop.failing?`, `Course`, `course`. -/

namespace Pagewright

open Text Directive

/-! ### Comments in the place of what failed -/

theorem Problem.placeholder_ne_nil (p : Problem) : p.placeholder ≠ [] := by
  unfold Problem.placeholder
  intro h
  obtain ⟨h, -⟩ := List.append_eq_nil_iff.mp h
  obtain ⟨h, -⟩ := List.append_eq_nil_iff.mp h
  cases h

/-- A session in which a problem was reported and its comment set aside. -/
def Session.bearing (s : Session) (p : Problem) : Session :=
  { s with notices := s.notices ++ [.problem p], outputs := s.outputs ++ [p.placeholder] }

/-- Noting a problem adds it and its comment to the session, and nothing else. -/
theorem Work.outcome_noted_bearing (page : Text) (p : Problem) (d : Desk) :
    (Work.noted page p).outcome d = (.ok (d.session.token d.session.outputs.length),
      { d with session := d.session.bearing (p.metAt page) }) := by
  have filled : ¬ (p.metAt page).placeholder.isEmpty = true := fun h =>
    (p.metAt page).placeholder_ne_nil (List.isEmpty_iff.mp h)
  rw [Work.outcome_noted, Work.outcome_stash, Session.stash, if_neg filled]
  rfl

namespace Assembly

/-! ### The checks of a hop -/

/-- A hop that a template asks for: the layouts that are being worked on, the path of the template
and the directive. -/
structure Hop where
  entered : List Text
  page : Text
  directive : Directive

/-- What a hop is checked for. -/
inductive HopCheck where
  /-- The reference is a string literal. -/
  | literal
  /-- The reference does not lead out of the shelf. -/
  | inside
  /-- The layout is not being worked on already. -/
  | unvisited
  /-- The hop is not too deep. -/
  | shallow
  /-- There is a layout. -/
  | present
  deriving DecidableEq, Repr

namespace HopCheck

/-- The checks in their order. -/
def all : List HopCheck := [.literal, .inside, .unvisited, .shallow, .present]

/-- The code under which a hop that fails a check is reported. -/
def code : HopCheck → Text
  | .literal => "E4001"
  | .inside => "E2001"
  | .unvisited => "E1001"
  | .shallow => "E1003"
  | .present => "E3001"

end HopCheck

namespace Hop

variable (s : Shelf) (most : Int) (h : Hop)

/-- The reference of a hop, if it is a string literal. -/
def reference? : Option Text := h.directive.argumentList.head?.bind literal?

/-- The path to which the reference leads. -/
def target : Text := Path.normal (replaceAll "\\" "/" (h.reference?.getD []))

/-- Whether a hop fails a check, where hops may be at most `most` deep. -/
def Fails : HopCheck → Prop
  | .literal => h.reference? = none
  | .inside => h.target.head? = some '/' ∨ h.target = Path.up ∨ Path.up ++ ['/'] <+: h.target
  | .unvisited => h.target ∈ h.entered
  | .shallow => most < h.entered.length + 1
  | .present => s.text? h.target = none

instance : DecidablePred (h.Fails s most)
  | .literal => inferInstanceAs (Decidable (_ = none))
  | .inside => inferInstanceAs (Decidable (_ ∨ _ ∨ _))
  | .unvisited => inferInstanceAs (Decidable (_ ∈ _))
  | .shallow => inferInstanceAs (Decidable (_ < _))
  | .present => inferInstanceAs (Decidable (_ = none))

/-- The first check that a hop fails. -/
def failing? : Option HopCheck := HopCheck.all.find? fun c => h.Fails s most c

/-- The problem of a hop that fails a check. -/
def problem : HopCheck → Problem
  | .literal => .malformed ("@extends expects a quoted layout path, got '" ++
      h.directive.args.getD "None" ++ "'") (some h.page) []
  | .inside => .outside (h.reference?.getD []) Shelf.label "layout"
  | .unvisited => .cycle (h.entered ++ [h.target]) "layout"
  | .shallow => .tooDeep h.target (h.entered.length + 1) most "layout"
  | .present => .absent h.target "layout" (closeMatches 3 h.target s.names)

/-- The layout to which a hop leads, without comments. -/
def layout : Text := Lowering.stripComments ((s.text? h.target).getD [])

variable {s most h}

theorem failing?_eq_none : h.failing? s most = none ↔ ∀ c, ¬ h.Fails s most c := by
  unfold failing?
  rw [List.find?_eq_none]
  constructor
  · intro none c
    have listed : c ∈ HopCheck.all := by cases c <;> decide
    simpa using none c listed
  · intro none c _
    simpa using none c

/-- A failing check comes behind checks that do not fail. -/
theorem failing?_eq_some {c : HopCheck} (hc : h.failing? s most = some c) :
    h.Fails s most c ∧ ∀ b, HopCheck.all.idxOf b < HopCheck.all.idxOf c → ¬ h.Fails s most b := by
  obtain ⟨fails, before, behind, split, first⟩ := List.find?_eq_some_iff_append.mp hc
  refine ⟨of_decide_eq_true fails, fun b hb => ?_⟩
  have listed : b ∈ before := by
    have absent : c ∉ before := fun hm => by simpa [of_decide_eq_true fails] using first c hm
    have all : b ∈ HopCheck.all := by cases b <;> decide
    by_contra nb
    rw [split, List.idxOf_append_of_notMem absent, List.idxOf_append_of_notMem nb,
      List.idxOf_cons_self] at hb
    omega
  simpa using first b listed

theorem code_problem (s : Shelf) (most : Int) (h : Hop) (c : HopCheck) :
    (h.problem s most c).code = c.code := by
  cases c <;> rfl

/-- The problem of a hop names where it was met. -/
theorem metAt_problem (s : Shelf) (most : Int) (h : Hop) (c : HopCheck) :
    (h.problem s most c).metAt h.page = h.problem s most c := by
  cases c with
  | literal =>
      obtain ⟨entered, page, d⟩ := h
      cases page <;> rfl
  | _ => rfl

end Hop

/-! ### Courses -/

/-- What following the layouts of a template comes to. -/
inductive Course where
  /-- A template that extends nothing. -/
  | last (t : Text)
  /-- A template whose hop fails a check. -/
  | broken (t : Text) (h : Hop) (c : HopCheck)
  /-- A template, its hop, the layout that is entered, and how it goes on from there. -/
  | through (t : Text) (h : Hop) (layout : Text) (rest : Course)

namespace Course

/-- The hop that fails and the check, if there is one. -/
def broken? : Course → Option (Hop × HopCheck)
  | .last _ => none
  | .broken _ h c => some (h, c)
  | .through _ _ _ rest => rest.broken?

/-- The text that a course comes to, where `token` stands for the comment in the place of what
failed.  A template whose hop fails is left with its sections in place; every other one is completed
around what its layout has come to. -/
def shown (ds : Delimiters) (token : Text) : List (Text × Text) → Course → Text
  | _, .last t => t
  | _, .broken t _ _ => token ++ unwrapSections t
  | inherited, .through t h layout rest =>
    let (sections, kept) :=
      extractSections (t.take h.directive.start ++ t.drop h.directive.stop)
    let completed := rest.shown ds token (Named.putAll inherited sections)
    (carriedBlocks kept).flatten ++
      fillYields ds [sections, inherited, (extractSections layout).1] (extractSections completed).2

end Course

/-- The course of a template with a path and a text without comments, while layouts are being worked
on.  It ends, as every hop goes deeper. -/
def course (s : Shelf) (most : Int) (entered : List Text) (page t : Text) : Course :=
  match (named ["extends"] (directives t)).head? with
  | none => .last t
  | some d =>
    let h : Hop := ⟨entered, page, d⟩
    match _hc : h.failing? s most with
    | some c => .broken t h c
    | none =>
      .through t h (h.layout s) (course s most (entered ++ [h.target]) h.target (h.layout s))
termination_by (most - entered.length).toNat
decreasing_by
  have shallow : ¬ most < entered.length + 1 := Hop.failing?_eq_none.mp _hc .shallow
  rw [List.length_append, List.length_singleton]
  omega

section

variable {s : Shelf} {most : Int} {entered : List Text} {page t : Text} {d : Directive}

theorem course_last (h : (named ["extends"] (directives t)).head? = none) :
    course s most entered page t = .last t := by
  rw [course, h]

theorem course_broken {c : HopCheck} (h : (named ["extends"] (directives t)).head? = some d)
    (hc : Hop.failing? s most ⟨entered, page, d⟩ = some c) :
    course s most entered page t = .broken t ⟨entered, page, d⟩ c := by
  rw [course, h]
  dsimp only
  split
  · next hc' => rw [Option.some.inj (hc.symm.trans hc')]
  · next hc' => cases hc.symm.trans hc'

theorem course_through (h : (named ["extends"] (directives t)).head? = some d)
    (hc : Hop.failing? s most ⟨entered, page, d⟩ = none) :
    course s most entered page t =
      .through t ⟨entered, page, d⟩ (Hop.layout s ⟨entered, page, d⟩)
        (course s most (entered ++ [Hop.target ⟨entered, page, d⟩]) (Hop.target ⟨entered, page, d⟩)
          (Hop.layout s ⟨entered, page, d⟩)) := by
  rw [course, h]
  dsimp only
  split
  · next hc' => cases hc.symm.trans hc'
  · rfl

end

/-- A course that is not broken shows no comment. -/
theorem Course.shown_unbroken (ds : Delimiters) (token : Text) : ∀ (c : Course)
    (inherited : List (Text × Text)), c.broken? = none →
    c.shown ds token inherited = c.shown ds [] inherited
  | .last _, _, _ => rfl
  | .through _ _ _ rest, _, h => by
      simp only [Course.shown, Course.shown_unbroken ds token rest _ h]

/-- A course is broken by the first check that a hop fails. -/
theorem course_failing {s : Shelf} {most : Int} {entered : List Text} {page t : Text} {h : Hop}
    {check : HopCheck} (hb : (course s most entered page t).broken? = some (h, check)) :
    h.failing? s most = some check := by
  induction entered, page, t using course.induct s most with
  | case1 entered page t he =>
      rw [course_last he] at hb
      cases hb
  | case2 entered page t d he h' c hc =>
      rw [course_broken he hc] at hb
      obtain ⟨rfl, rfl⟩ := Prod.mk.inj (Option.some.inj hb)
      exact hc
  | case3 entered page t d he h' hc ih =>
      rw [course_through he hc] at hb
      exact ih hb

/-! ### One hop -/

section

variable (s : Shelf) (ds : Delimiters) (data : List (Value × Value))
  (next : Text → Text → List (Text × Text) → Work Text) (t : Text) (inherited : List (Text × Text))
  {page : Text} {e : Directive} {d : Desk}

theorem layoutReference_hop {entered : List Text} {reference : Text}
    (hr : Hop.reference? ⟨entered, page, e⟩ = some reference) :
    layoutReference page e = .ok reference := by
  have found : e.argumentList.head?.bind literal? = some reference := hr
  rw [layoutReference, found]

/-- Where the reference of a hop leads. -/
theorem locate_layout (most : Int) (h : Hop) {reference : Text} (hr : h.reference? = some reference) :
    (Library.shelf s).locate "layout" reference =
      if h.Fails s most .inside then .error (.problem (h.problem s most .inside))
      else .ok h.target := by
  have target : h.target = Path.normal (replaceAll "\\" "/" reference) := by
    rw [Hop.target, hr]
    rfl
  simp only [Library.locate, Shelf.locate, Hop.Fails, Hop.problem, target, hr,
    List.isPrefixOf_iff_prefix]
  split <;> rfl

/-- The session in which the layout of a hop is being worked on. -/
def Hop.inside (h : Hop) (s : Session) : Session := s.withStack (h.entered ++ [h.target]) .layout

theorem enter_hop
    (unvisited : ¬ Hop.Fails s d.session.maxDepth ⟨d.session.layoutStack, page, e⟩ .unvisited)
    (shallow : ¬ Hop.Fails s d.session.maxDepth ⟨d.session.layoutStack, page, e⟩ .shallow) :
    d.session.enter? .layout (Hop.target ⟨d.session.layoutStack, page, e⟩) =
      .ok (d.session.entryDepth .layout,
        Hop.inside ⟨d.session.layoutStack, page, e⟩ d.session) := by
  refine Session.enter?_eq_ok_iff.mpr ⟨unvisited, ?_, rfl, rfl⟩
  exact Int.not_lt.mp shallow

theorem left_hop (s : Session) (page : Text) (e : Directive) :
    (Hop.inside ⟨s.layoutStack, page, e⟩ s).leave .layout = s := session_leave s .layout _

/-- **A hop that fails a check** stops with the problem of the first check that it fails and leaves
the desk as it was. -/
theorem extend_refused {c : HopCheck}
    (hc : Hop.failing? s d.session.maxDepth ⟨d.session.layoutStack, page, e⟩ = some c) :
    (extend ⟨.shelf s, ds, data⟩ next t page inherited e).outcome d =
      (.error (.problem (Hop.problem s d.session.maxDepth ⟨d.session.layoutStack, page, e⟩ c)),
        d) := by
  obtain ⟨fails, before⟩ := Hop.failing?_eq_some hc
  unfold extend
  cases hr : Hop.reference? ⟨d.session.layoutStack, page, e⟩ with
  | none =>
      -- Without a reference no check can come before that for a literal.
      obtain rfl : c = .literal := by
        by_contra other
        refine before .literal ?_ hr
        cases c with
        | literal => exact absurd rfl other
        | _ => decide
      have none : e.argumentList.head?.bind literal? = none := hr
      apply Work.outcome_bind_error
      rw [Work.outcome_ofProblem, layoutReference, none]
      rfl
  | some reference =>
      rw [layoutReference_hop hr, Work.ofProblem, pure_bind]
      have located := locate_layout s d.session.maxDepth _ hr
      cases c with
      | literal => cases hr.symm.trans fails
      | inside =>
          apply Work.outcome_bind_error
          rw [Work.outcome_ofExcept, located, if_pos fails]
      | unvisited =>
          rw [if_neg (before .inside (by decide))] at located
          rw [located, Work.ofExcept, pure_bind]
          apply Work.outcome_within_error
          exact Session.enter?_eq_cycle_iff.mpr fails
      | shallow =>
          rw [if_neg (before .inside (by decide))] at located
          rw [located, Work.ofExcept, pure_bind]
          apply Work.outcome_within_error
          exact Session.enter?_eq_tooDeep_iff.mpr ⟨before .unvisited (by decide), fails⟩
      | present =>
          rw [if_neg (before .inside (by decide))] at located
          rw [located, Work.ofExcept, pure_bind]
          have entered := enter_hop s (before .unvisited (by decide)) (before .shallow (by decide))
          have absent : (Library.shelf s).read (Hop.target ⟨d.session.layoutStack, page, e⟩) "layout" =
              .error (Hop.problem s d.session.maxDepth ⟨d.session.layoutStack, page, e⟩ .present) := by
            have missing : (Library.shelf s).text? (Hop.target ⟨d.session.layoutStack, page, e⟩) = none :=
              fails
            rw [Library.read, missing]
            rfl
          refine (Work.outcome_within_ok entered).trans ?_
          rw [absent, Work.outcome_bind_error (Work.outcome_ofProblem _ _)]
          dsimp only
          rw [left_hop]

/-- **A hop that fails no check** completes the template around what its layout comes to. -/
theorem extend_passed {resolved : Text} {d' : Desk}
    (hc : Hop.failing? s d.session.maxDepth ⟨d.session.layoutStack, page, e⟩ = none)
    (hn : (next (Hop.layout s ⟨d.session.layoutStack, page, e⟩)
        (Hop.target ⟨d.session.layoutStack, page, e⟩)
        (Named.putAll inherited (extractSections (t.take e.start ++ t.drop e.stop)).1)).outcome
          { d with session := Hop.inside ⟨d.session.layoutStack, page, e⟩ d.session } =
        (.ok resolved, d')) :
    (extend ⟨.shelf s, ds, data⟩ next t page inherited e).outcome d =
      (.ok ((carriedBlocks (extractSections (t.take e.start ++ t.drop e.stop)).2).flatten ++
        fillYields ds
          [(extractSections (t.take e.start ++ t.drop e.stop)).1, inherited,
            (extractSections (Hop.layout s ⟨d.session.layoutStack, page, e⟩)).1]
          (extractSections resolved).2), { d' with session := d'.session.leave .layout }) := by
  have passes := Hop.failing?_eq_none.mp hc
  obtain ⟨reference, hr⟩ := Option.ne_none_iff_exists'.mp (passes .literal)
  obtain ⟨source, hs⟩ := Option.ne_none_iff_exists'.mp (passes .present)
  have located := locate_layout s d.session.maxDepth _ hr
  rw [if_neg (passes .inside)] at located
  have read : (Library.shelf s).read (Hop.target ⟨d.session.layoutStack, page, e⟩) "layout" =
      .ok source := by
    have there : (Library.shelf s).text? (Hop.target ⟨d.session.layoutStack, page, e⟩) =
      some source := hs
    rw [Library.read, there]
  have layout : Hop.layout s ⟨d.session.layoutStack, page, e⟩ = Lowering.stripComments source := by
    rw [Hop.layout, hs]
    rfl
  rw [layout] at hn ⊢
  exact extend_entered next t page inherited (layoutReference_hop hr) located read
    (enter_hop s (passes .unvisited) (passes .shallow)) hn

/-- A template whose hop fails is left with a comment in front and its sections in place. -/
theorem hop_refused {c : HopCheck} (he : (named ["extends"] (directives t)).head? = some e)
    (hc : Hop.failing? s d.session.maxDepth ⟨d.session.layoutStack, page, e⟩ = some c) :
    (hop ⟨.shelf s, ds, data⟩ next t page inherited).outcome d =
      (.ok (d.session.token d.session.outputs.length ++ unwrapSections t),
        { d with session := d.session.bearing <|
            Hop.problem s d.session.maxDepth ⟨d.session.layoutStack, page, e⟩ c }) := by
  have noted := Work.outcome_noted_bearing page
    (Hop.problem s d.session.maxDepth ⟨d.session.layoutStack, page, e⟩ c) d
  rw [Hop.metAt_problem s d.session.maxDepth ⟨d.session.layoutStack, page, e⟩ c] at noted
  unfold hop
  rw [he]
  dsimp only
  rw [Work.outcome_orElse, extend_refused s ds data next t inherited hc]
  dsimp only
  rw [Work.outcome_bind_ok noted, Work.outcome_pure]

end

/-! ### The whole way -/

/-- The session that a course leaves. -/
def Course.after (s : Shelf) (c : Course) (session : Session) : Session :=
  match c.broken? with
  | none => session
  | some (h, check) => session.bearing (h.problem s session.maxDepth check)

/-- What happens further on happens to the session in which the layout is being worked on. -/
theorem Course.after_through (s : Shelf) (session : Session) (t page layout : Text) (e : Directive)
    (rest : Course) :
    (rest.after s (Hop.inside ⟨session.layoutStack, page, e⟩ session)).leave .layout =
      (Course.through t ⟨session.layoutStack, page, e⟩ layout rest).after s session := by
  have same : (Course.through t ⟨session.layoutStack, page, e⟩ layout rest).broken? = rest.broken? :=
    rfl
  unfold Course.after
  rw [same]
  cases rest.broken? with
  | none => exact left_hop session page e
  | some broken =>
      simp only [Session.leave, Session.bearing, Hop.inside, Session.withStack, Session.stack,
        List.dropLast_concat]

section

variable (s : Shelf) (ds : Delimiters) (data : List (Value × Value))

/-- **One hop of a course**, where `next` follows the layout further. -/
theorem hop_course (next : Text → Text → List (Text × Text) → Work Text) (t page : Text)
    (inherited : List (Text × Text)) (d : Desk)
    (hn : ∀ e, Hop.failing? s d.session.maxDepth ⟨d.session.layoutStack, page, e⟩ = none →
      ∀ passed, let h : Hop := ⟨d.session.layoutStack, page, e⟩
      let rest := course s d.session.maxDepth (h.entered ++ [h.target]) h.target (h.layout s)
      (next (h.layout s) h.target passed).outcome { d with session := h.inside d.session } =
        (.ok (rest.shown ds (d.session.token d.session.outputs.length) passed),
          { d with session := rest.after s (h.inside d.session) })) :
    let c := course s d.session.maxDepth d.session.layoutStack page t
    (hop ⟨.shelf s, ds, data⟩ next t page inherited).outcome d =
      (.ok (c.shown ds (d.session.token d.session.outputs.length) inherited),
        { d with session := c.after s d.session }) := by
  cases he : (named ["extends"] (directives t)).head? with
  | none =>
      rw [course_last he]
      unfold hop
      rw [he]
      rfl
  | some e =>
      cases hc : Hop.failing? s d.session.maxDepth ⟨d.session.layoutStack, page, e⟩ with
      | some c =>
          rw [course_broken he hc]
          exact hop_refused s ds data next t inherited he hc
      | none =>
          rw [course_through he hc]
          have extended := extend_passed s ds data next t inherited hc (hn e hc _)
          unfold hop
          rw [he]
          dsimp only
          rw [Work.outcome_orElse, extended]
          dsimp only
          rw [Course.after_through s d.session t page _ e]
          rfl

/-- The induction is on the room that is left for layouts; without room no hop passes. -/
theorem flattenWithin_course : ∀ (room : Nat) (t page : Text) (inherited : List (Text × Text))
    (d : Desk), d.session.maxDepth - d.session.layoutStack.length ≤ room →
    let c := course s d.session.maxDepth d.session.layoutStack page t
    (flattenWithin ⟨.shelf s, ds, data⟩ room t page inherited).outcome d =
      (.ok (c.shown ds (d.session.token d.session.outputs.length) inherited),
        { d with session := c.after s d.session })
  | 0, t, page, inherited, d, hr => by
      refine hop_course s ds data _ t page inherited d fun e hc => ?_
      have shallow : ¬ d.session.maxDepth < (d.session.layoutStack.length : Int) + 1 :=
        Hop.failing?_eq_none.mp hc .shallow
      omega
  | room + 1, t, page, inherited, d, hr => by
      refine hop_course s ds data _ t page inherited d fun e hc passed => ?_
      let h : Hop := ⟨d.session.layoutStack, page, e⟩
      refine flattenWithin_course room (h.layout s) h.target passed
        { d with session := h.inside d.session } ?_
      show d.session.maxDepth - ((d.session.layoutStack ++ [h.target]).length : Int) ≤ room
      rw [List.length_append, List.length_singleton]
      push_cast at hr ⊢
      omega

end

end Assembly

end Pagewright
