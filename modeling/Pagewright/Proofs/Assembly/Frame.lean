import Mathlib.Logic.Relation
import Pagewright.Kit
import Pagewright.Proofs.Assembly.Expansion
import Pagewright.Proofs.Assembly.Hop

/-! # Putting a page together step by step

Work on a page calls itself: a layout may extend a further one, and a partial may include others.
Here it is cut into steps that do not.  What is open at a time is written down: the pages that wait
for their layout and the texts that wait for a partial (`Frame`), the innermost first, and what is
done next (`Task`).  A step either gives a result to the innermost frame, or goes on with the task,
which may put one more frame on top.

The steps come to what the recursive work comes to: from the task to resolve a text they lead to its
result, with the frames and the desk as the recursive work leaves them (`follows_resolve`), and so
they do for the layout of a page (`follows_extend`) and for a whole page (`follows_makePage`).

Main definitions: `Frame`, `Task`, `Progress`, `Progress.step`, `Follows`. -/

namespace Pagewright.Assembly

open Text Directive

/-! ### What is open -/

/-- A page that waits for its layout. -/
structure OpenHop where
  text : Text
  page : Text
  inherited : List (Text × Text)
  directive : Directive
  layout : Text

/-- A text of which the include tags are being expanded: where it is entered and with which data,
the text in engine syntax, and the outputs of its tags so far. -/
structure OpenText where
  page : Text
  data : List (Value × Value)
  depth : Int
  lowered : Text
  outputs : List Text := []

/-- What waits for the work that is going on. -/
inductive Frame where
  /-- A page that waits for its layout. -/
  | hop (h : OpenHop)
  /-- A text that waits for the partial of a tag, and the tags behind that one. -/
  | tag (o : OpenText) (p : Partial) (tags : List IncludeTag)
  /-- The page as a whole, until its layouts are put together. -/
  | flattening (page : Text) (data : List (Value × Value))
  /-- The page as a whole, until its include tags are expanded. -/
  | expanding (flattened page : Text) (data : List (Value × Value))

/-- What is done next. -/
inductive Task where
  | extend (t page : Text) (inherited : List (Text × Text))
  | resolve (t : Text) (data : List (Value × Value)) (page : Text)
  | tags (o : OpenText) (tags : List IncludeTag)
  /-- A result is given to what waits for it. -/
  | answer (r : Except Halt Text)

/-- A page that is being put together: what is done next, what waits for it with the innermost
first, and the desk. -/
structure Progress where
  task : Task
  frames : List Frame
  desk : Desk

/-! ### Steps -/

namespace OpenHop

/-- The sections that a page declares, and the page without them and without its layout. -/
def extracted (h : OpenHop) : List (Text × Text) × Text :=
  extractSections (h.text.take h.directive.start ++ h.text.drop h.directive.stop)

/-- The sections that are handed on to the layout. -/
def handed (h : OpenHop) : List (Text × Text) := Named.putAll h.inherited h.extracted.1

/-- A page completed with what its layout has come to. -/
def complete (site : Site) (h : OpenHop) (resolved : Text) : Text :=
  (carriedBlocks h.extracted.2).flatten ++
    fillYields site.delimiters [h.extracted.1, h.inherited, (extractSections h.layout).1]
      (extractSections resolved).2

end OpenHop

/-- The layout that a directive names, entered: its path, its text, and the session in which it is
worked on. -/
def enterLayout (site : Site) (page : Text) (e : Directive) (s : Session) :
    Except Halt (Text × Text × Session) :=
  match layoutReference page e with
  | .error p => .error (.problem p)
  | .ok reference =>
    match site.library.locate "layout" reference with
    | .error h => .error h
    | .ok target =>
      match s.enter? .layout target, site.library.read target "layout" with
      | .error p, _ => .error (.problem p)
      | .ok _, .error p => .error (.problem p)
      | .ok (_, s), .ok source => .ok (target, Lowering.stripComments source, s)

/-- A page in the place of a layout that cannot be had. -/
def withoutLayout (t page : Text) (p : Problem) : Work Text := do
  return (← Work.noted page p) ++ unwrapSections t

/-- What is done with the resolved text of a partial. -/
def printPartial (p : Partial) (resolved : Text) : Work Text := do
  Work.stash (← Work.splice (← Work.print resolved p.data p.path))

/-- What is done with a flattened page and the result of expanding it. -/
def finishPage (flattened page : Text) (data : List (Value × Value)) (r : Except Halt Text) :
    Work Text := do
  let expanded ← (Work.ofExcept r).orElse fun p => do return (← Work.noted page p) ++ flattened
  let printed ← Work.splice (← printPage flattened expanded page data)
  let (text, seen) := collect printed (← Work.session).onceSeen
  Work.update fun s => { s with onceSeen := seen }
  return text

/-- A desk on which the innermost template of a kind was left. -/
def Desk.left (d : Desk) (r : Reference) : Desk := { d with session := d.session.leave r }

namespace Progress

/-- The result of some work given to what waits for it. -/
def conclude (w : Work Text) (frames : List Frame) (d : Desk) : Progress :=
  ⟨.answer (w.outcome d).1, frames, (w.outcome d).2⟩

/-- The output of a tag of a text put behind the others, or the token of a comment if the tag
fails. -/
def goOn (o : OpenText) (tags : List IncludeTag) (w : Work Text) (frames : List Frame) (d : Desk) :
    Progress :=
  match (w.orElse (Work.noted o.page)).outcome d with
  | (.ok output, d) => ⟨.tags { o with outputs := o.outputs ++ [output] } tags, frames, d⟩
  | (.error h, d) => ⟨.answer (.error h), frames, Desk.left d .inclusion⟩

/-- A page on its way to its layout. -/
def stepExtend (site : Site) (t page : Text) (inherited : List (Text × Text)) (frames : List Frame)
    (d : Desk) : Progress :=
  match (named ["extends"] (directives t)).head? with
  | none => ⟨.answer (.ok t), frames, d⟩
  | some e =>
    match enterLayout site page e d.session with
    | .ok (target, layout, s) =>
      let h : OpenHop := ⟨t, page, inherited, e, layout⟩
      ⟨.extend layout target h.handed, .hop h :: frames, { d with session := s }⟩
    | .error h => conclude ((Work.ofExcept (.error h)).orElse (withoutLayout t page)) frames d

/-- A text entered and rewritten. -/
def stepResolve (site : Site) (t : Text) (data : List (Value × Value)) (page : Text)
    (frames : List Frame) (d : Desk) : Progress :=
  match d.session.enter? .inclusion page with
  | .error p => ⟨.answer (.error (.problem p)), frames, d⟩
  | .ok (depth, s) =>
    match (Work.lower site.delimiters t).outcome { d with session := s } with
    | (.ok lowered, d) => ⟨.tags ⟨page, data, depth, lowered, []⟩ (includeTags lowered), frames, d⟩
    | (.error h, d) => ⟨.answer (.error h), frames, Desk.left d .inclusion⟩

/-- The next tag of a text, or the text with its tags replaced if there is none. -/
def stepTags (site : Site) (o : OpenText) (frames : List Frame) (d : Desk) :
    List IncludeTag → Progress
  | [] =>
    let s := d.session
    let s := if o.depth = 0 then { s with entryOutputs := o.outputs } else s
    ⟨.answer (.ok (replaceTags o.lowered o.outputs)), frames,
      Desk.left { d with session := s } .inclusion⟩
  | tag :: tags =>
    match (partialFor site o.data o.page tag).outcome d with
    | (.ok (some p), d) => ⟨.resolve p.text p.data p.path, .tag o p tags :: frames, d⟩
    | (.ok none, d) => goOn o tags (pure []) frames d
    | (.error h, d) => goOn o tags (Work.ofExcept (.error h)) frames d

/-- A result taken by the frame that waits for it. -/
def stepAnswer (site : Site) (r : Except Halt Text) (frames : List Frame) (d : Desk) :
    Frame → Progress
  | .hop h =>
    conclude ((Work.ofExcept (r.map (h.complete site))).orElse (withoutLayout h.text h.page)) frames
      (Desk.left d .layout)
  | .tag o p tags => goOn o tags (Work.ofExcept r >>= printPartial p) frames d
  | .flattening page data =>
    match r with
    | .ok flattened => ⟨.resolve flattened data page, .expanding flattened page data :: frames, d⟩
    | .error h => ⟨.answer (.error h), frames, d⟩
  | .expanding flattened page data => conclude (finishPage flattened page data r) frames d

/-- One step; there is none once a result is there and nothing waits for it. -/
def step (site : Site) (c : Progress) : Option Progress :=
  match c.task, c.frames with
  | .extend t page inherited, frames => some (stepExtend site t page inherited frames c.desk)
  | .resolve t data page, frames => some (stepResolve site t data page frames c.desk)
  | .tags o tags, frames => some (stepTags site o frames c.desk tags)
  | .answer r, f :: frames => some (stepAnswer site r frames c.desk f)
  | .answer _, [] => none

/-- A page before the first step. -/
def start (site : Site) (t page : Text) (data : List (Value × Value)) (d : Desk) : Progress :=
  ⟨.extend (Lowering.stripComments t) page [], [.flattening page (layered [site.data, data])], d⟩

end Progress

/-- One step leads from some progress to another. -/
def Steps (site : Site) (c c' : Progress) : Prop := c.step site = some c'

/-- Some steps lead from some progress to another. -/
def Follows (site : Site) : Progress → Progress → Prop := Relation.ReflTransGen (Steps site)

/-! ### The steps of a text -/

section

variable {site : Site}

theorem Follows.of_step {c c' c'' : Progress} (h : c.step site = some c') (h' : Follows site c' c'') :
    Follows site c c'' := Relation.ReflTransGen.head h h'

/-- Only what some work comes to counts for what is done instead. -/
theorem outcome_orElse_congr {w w' : Work Text} {d d' : Desk} (h : w.outcome d = w'.outcome d')
    (handle : Problem → Work Text) :
    (w.orElse handle).outcome d = (w'.orElse handle).outcome d' := by
  rw [Work.outcome_orElse, Work.outcome_orElse, h]

namespace Progress

/-- Only what some work comes to counts. -/
theorem conclude_congr {w w' : Work Text} {d d' : Desk} (h : w.outcome d = w'.outcome d')
    (frames : List Frame) : conclude w frames d = conclude w' frames d' := by
  unfold conclude
  rw [h]

theorem goOn_congr {w w' : Work Text} {d d' : Desk} (h : w.outcome d = w'.outcome d')
    (o : OpenText) (tags : List IncludeTag) (frames : List Frame) :
    goOn o tags w frames d = goOn o tags w' frames d' := by
  unfold goOn
  rw [outcome_orElse_congr h]

end Progress

open Progress

/-- Wherever a text is resolved below some templates, the steps come to what `next` comes to. -/
def Agrees (site : Site) (next : Text → List (Value × Value) → Text → Work Text)
    (stack : List Text) (most : Int) : Prop :=
  ∀ t data page frames d, d.session.includeStack = stack → d.session.maxDepth = most →
    Follows site ⟨.resolve t data page, frames, d⟩ (conclude (next t data page) frames d)

variable {next : Text → List (Value × Value) → Text → Work Text} {stack : List Text} {most : Int}

/-- The steps of one tag. -/
theorem follows_tag (agrees : Agrees site next stack most) (o : OpenText) (tag : IncludeTag)
    (tags : List IncludeTag) (frames : List Frame) {d : Desk}
    (hs : d.session.includeStack = stack) (hm : d.session.maxDepth = most) :
    Follows site ⟨.tags o (tag :: tags), frames, d⟩
      (goOn o tags (renderTag site next o.data o.page tag) frames d) := by
  have asked := quiet_partialFor site o.data o.page tag d
  have rendered : (renderTag site next o.data o.page tag).outcome d =
      match (partialFor site o.data o.page tag).outcome d with
      | (.ok (some p), d') => (next p.text p.data p.path >>= printPartial p).outcome d'
      | (.ok none, d') => (.ok [], d')
      | (.error h, d') => (.error h, d') := by
    unfold renderTag
    rw [Work.outcome_bind]
    match (partialFor site o.data o.page tag).outcome d with
    | (.ok (some p), d') => rfl
    | (.ok none, d') => rfl
    | (.error h, d') => rfl
  match hp : (partialFor site o.data o.page tag).outcome d with
  | (.error h, d') =>
      have same : goOn o tags (renderTag site next o.data o.page tag) frames d =
          goOn o tags (Work.ofExcept (.error h)) frames d' :=
        goOn_congr (by rw [rendered, hp]; rfl) o tags frames
      rw [same]
      exact .of_step (by simp only [step, stepTags, hp]) .refl
  | (.ok none, d') =>
      have same : goOn o tags (renderTag site next o.data o.page tag) frames d =
          goOn o tags (pure []) frames d' :=
        goOn_congr (by rw [rendered, hp]; rfl) o tags frames
      rw [same]
      exact .of_step (by simp only [step, stepTags, hp]) .refl
  | (.ok (some p), d') =>
      rw [hp] at asked
      have inner := agrees p.text p.data p.path (.tag o p tags :: frames) d'
        (asked.includeStack.trans hs) (asked.maxDepth.trans hm)
      have same : goOn o tags (renderTag site next o.data o.page tag) frames d =
          goOn o tags (Work.ofExcept ((next p.text p.data p.path).outcome d').1 >>= printPartial p)
            frames ((next p.text p.data p.path).outcome d').2 := by
        refine goOn_congr ?_ o tags frames
        rw [rendered, hp]
        dsimp only
        rw [Work.outcome_bind, Work.outcome_bind, Work.outcome_ofExcept]
      rw [same]
      refine .of_step (by simp only [step, stepTags, hp]) (inner.trans ?_)
      exact Follows.of_step rfl .refl

/-- The steps of some tags, of which the outputs are put behind those of earlier ones. -/
theorem follows_tags (agrees : Agrees site next stack most)
    {inside : Text → List (Value × Value) → Text → Desk → List Expansion}
    (faithful : Faithful next inside) (frames : List Frame) :
    ∀ (tags : List IncludeTag) (o : OpenText) (d : Desk), d.session.includeStack = stack →
      d.session.maxDepth = most →
      Follows site ⟨.tags o tags, frames, d⟩
        (match (tags.mapM (expandTag site next o.data o.page)).outcome d with
          | (.ok outputs, d) => ⟨.tags { o with outputs := o.outputs ++ outputs } [], frames, d⟩
          | (.error h, d) => ⟨.answer (.error h), frames, Desk.left d .inclusion⟩)
  | [], o, d, _, _ => by
      rw [List.mapM_nil, Work.outcome_pure]
      dsimp only
      rw [List.append_nil]
      exact .refl
  | tag :: tags, o, d, hs, hm => by
      have one := follows_tag agrees o tag tags frames hs hm
      have grown := (expandTag_grown site faithful o.data o.page tag d).1
      have split : goOn o tags (renderTag site next o.data o.page tag) frames d =
          match (expandTag site next o.data o.page tag).outcome d with
          | (.ok output, d) => ⟨.tags { o with outputs := o.outputs ++ [output] } tags, frames, d⟩
          | (.error h, d) => ⟨.answer (.error h), frames, Desk.left d .inclusion⟩ := rfl
      rw [split] at one
      rw [List.mapM_cons, Work.outcome_bind]
      match h : (expandTag site next o.data o.page tag).outcome d with
      | (.error e, d') =>
          rw [h] at one
          exact one
      | (.ok output, d') =>
          rw [h] at one grown
          have others := follows_tags agrees faithful frames tags
            { o with outputs := o.outputs ++ [output] } d' (grown.includeStack.trans hs)
            (grown.maxDepth.trans hm)
          refine one.trans ?_
          dsimp only at others ⊢
          rw [Work.outcome_bind]
          match h' : (tags.mapM (expandTag site next o.data o.page)).outcome d' with
          | (.error e, d'') =>
              rw [h'] at others
              exact others
          | (.ok outputs, d'') =>
              rw [h'] at others
              dsimp only at others
              rw [List.append_assoc, List.singleton_append] at others
              exact others

/-- The steps of a text that is entered below some templates. -/
theorem follows_resolveTags {d : Desk} {page : Text}
    (agrees : Agrees site next (d.session.includeStack ++ [page]) d.session.maxDepth)
    {inside : Text → List (Value × Value) → Text → Desk → List Expansion}
    (faithful : Faithful next inside) (t : Text) (data : List (Value × Value))
    (frames : List Frame) :
    Follows site ⟨.resolve t data page, frames, d⟩
      (conclude (resolveTags site next t data page) frames d) := by
  cases he : d.session.enter? .inclusion page with
  | error p =>
      have refused : (⟨.resolve t data page, frames, d⟩ : Progress).step site =
          some ⟨.answer (.error (.problem p)), frames, d⟩ := by simp only [step, stepResolve, he]
      refine .of_step refused ?_
      unfold conclude
      rw [resolveTags_refused he]
      exact .refl
  | ok entered =>
      obtain ⟨depth, s⟩ := entered
      obtain ⟨-, rfl⟩ := Session.enter?_ok he
      unfold conclude resolveTags
      rw [Work.outcome_within_ok he, Work.outcome_bind]
      have lowering := Work.Quiet.lower site.delimiters t
        { d with session := d.session.withStack (d.session.stack .inclusion ++ [page]) .inclusion }
      match hl : (Work.lower site.delimiters t).outcome
          { d with session := d.session.withStack (d.session.stack .inclusion ++ [page]) .inclusion }
        with
      | (.error h, d') =>
          have failed : (⟨.resolve t data page, frames, d⟩ : Progress).step site =
              some ⟨.answer (.error h), frames, Desk.left d' .inclusion⟩ := by
            simp only [step, stepResolve, he, hl]
          exact .of_step failed .refl
      | (.ok lowered, d') =>
          rw [hl] at lowering
          have tags := follows_tags agrees faithful frames (includeTags lowered)
            ⟨page, data, depth, lowered, []⟩ d' lowering.includeStack lowering.maxDepth
          refine .of_step (by simp only [step, stepResolve, he, hl]) (tags.trans ?_)
          dsimp only
          rw [Work.outcome_bind]
          match ht : ((includeTags lowered).mapM (expandTag site next data page)).outcome d' with
          | (.error h, d'') => exact .refl
          | (.ok outputs, d'') =>
              refine Follows.of_step rfl ?_
              by_cases hd : depth = 0
              · simp only [stepTags, hd, if_true, List.nil_append]
                exact .refl
              · simp only [stepTags, hd, if_false, List.nil_append]
                exact .refl

/-- **The steps of a text come to what resolving it comes to.**  By induction on how many templates
may still be entered: the partials of its tags are resolved with one less. -/
theorem follows_resolve (site : Site) (room : Nat) : ∀ (t : Text) (data : List (Value × Value))
    (page : Text) (frames : List Frame) (d : Desk),
    (d.session.maxDepth + 1 - d.session.includeStack.length).toNat = room →
    Follows site ⟨.resolve t data page, frames, d⟩
      (conclude (resolve site t data page) frames d) := by
  induction room with
  | zero =>
      intro t data page frames d hr
      have same := conclude_congr (resolve_eq_resolveTags site t data page d) frames
      rw [same]
      cases he : d.session.enter? .inclusion page with
      | error p =>
          have refused : (⟨.resolve t data page, frames, d⟩ : Progress).step site =
              some ⟨.answer (.error (.problem p)), frames, d⟩ := by
            simp only [step, stepResolve, he]
          refine .of_step refused ?_
          unfold conclude
          rw [resolveTags_refused he]
          exact .refl
      | ok entered =>
          have fits : (d.session.includeStack.length : Int) + 1 ≤ d.session.maxDepth + 1 :=
            (Session.enter?_eq_ok_iff.mp he).2.1
          omega
  | succ room ih =>
      intro t data page frames d hr
      have same := conclude_congr (resolve_eq_resolveTags site t data page d) frames
      rw [same]
      refine follows_resolveTags (fun t' data' page' frames' d' hs hm => ?_) (faithful_resolve site)
        t data frames
      refine ih t' data' page' frames' d' ?_
      rw [hs, hm, List.length_append, List.length_singleton]
      omega

end

end Pagewright.Assembly

/-! ## The steps of a page

The steps that lead a page to its layout come to what the recursive work on its chain of layouts
comes to (`follows_extend`), and the steps of a page as a whole to what putting it together comes to
(`follows_makePage`). -/

namespace Pagewright.Assembly

open Text Directive Progress

variable {site : Site}

/-! ### The steps of a chain of layouts -/

/-- A layout that was entered has a place on its stack. -/
theorem enterLayout_ok {page target layout : Text} {e : Directive} {s s' : Session}
    (h : enterLayout site page e s = .ok (target, layout, s')) :
    ∃ depth, s.enter? .layout target = .ok (depth, s') := by
  unfold enterLayout at h
  split at h
  · cases h
  · split at h
    · cases h
    · split at h
      · cases h
      · cases h
      · next depth s'' source he hr =>
        obtain ⟨rfl, rest⟩ := Prod.mk.inj (Except.ok.inj h)
        obtain ⟨-, rfl⟩ := Prod.mk.inj rest
        exact ⟨depth, he⟩

/-- A page is extended by what its layout comes to once it is entered. -/
theorem outcome_extend (next : Text → Text → List (Text × Text) → Work Text) (t page : Text)
    (inherited : List (Text × Text)) (e : Directive) (d : Desk) :
    (extend site next t page inherited e).outcome d =
      match enterLayout site page e d.session with
      | .ok (target, layout, s) =>
        let h : OpenHop := ⟨t, page, inherited, e, layout⟩
        let out := (next layout target h.handed).outcome { d with session := s }
        (out.1.map (h.complete site), Desk.left out.2 .layout)
      | .error h => (.error h, d) := by
  rw [extend, enterLayout, Work.outcome_bind, Work.outcome_ofProblem]
  cases layoutReference page e with
  | error p => rfl
  | ok reference =>
    dsimp only [Except.mapError]
    rw [Work.outcome_bind, Work.outcome_ofExcept]
    cases site.library.locate "layout" reference with
    | error h => rfl
    | ok target =>
      dsimp only
      cases he : d.session.enter? .layout target with
      | error p => rw [Work.outcome_within_error he]
      | ok entered =>
        obtain ⟨depth, s⟩ := entered
        obtain ⟨-, rfl⟩ := Session.enter?_ok he
        rw [Work.outcome_within_ok he, Work.outcome_bind, Work.outcome_ofProblem]
        cases site.library.read target "layout" with
        | error p =>
          dsimp only [Except.mapError]
          rw [session_leave]
        | ok source =>
          dsimp only [Except.mapError]
          rw [Work.outcome_bind]
          dsimp only [OpenHop.handed, OpenHop.extracted]
          cases (next (Lowering.stripComments source) target (Named.putAll inherited
            (extractSections (t.take e.start ++ t.drop e.stop)).1)).outcome
              { d with
                session := d.session.withStack (d.session.stack .layout ++ [target]) .layout } with
          | mk r d' => cases r <;> rfl

/-- Wherever a layout of a page is resolved in turn, the steps come to what `next` comes to. -/
theorem follows_hop {next : Text → Text → List (Text × Text) → Work Text} {page : Text} {d : Desk}
    (agrees : ∀ e target layout s, enterLayout site page e d.session = .ok (target, layout, s) →
      ∀ inherited frames,
        Follows site ⟨.extend layout target inherited, frames, { d with session := s }⟩
          (conclude (next layout target inherited) frames { d with session := s }))
    (t : Text) (inherited : List (Text × Text)) (frames : List Frame) :
    Follows site ⟨.extend t page inherited, frames, d⟩
      (conclude (hop site next t page inherited) frames d) := by
  unfold hop
  cases he : (named ["extends"] (directives t)).head? with
  | none =>
    have kept : (⟨.extend t page inherited, frames, d⟩ : Progress).step site =
        some ⟨.answer (.ok t), frames, d⟩ := by simp only [step, stepExtend, he]
    exact .of_step kept .refl
  | some e =>
    change Follows site _
      (conclude ((extend site next t page inherited e).orElse (withoutLayout t page)) frames d)
    have extended := @outcome_extend site next t page inherited e d
    cases hl : enterLayout site page e d.session with
    | error h =>
      rw [hl] at extended
      have same : conclude ((extend site next t page inherited e).orElse (withoutLayout t page))
          frames d = conclude ((Work.ofExcept (.error h)).orElse (withoutLayout t page)) frames d :=
        conclude_congr (outcome_orElse_congr (extended.trans (Work.outcome_ofExcept _ d).symm) _)
          frames
      have refused : (⟨.extend t page inherited, frames, d⟩ : Progress).step site =
          some (conclude ((Work.ofExcept (.error h)).orElse (withoutLayout t page)) frames d) := by
        simp only [step, stepExtend, he, hl]
      rw [same]
      exact .of_step refused .refl
    | ok entered =>
      obtain ⟨target, layout, s⟩ := entered
      rw [hl] at extended
      have inner := agrees e target layout s hl (OpenHop.handed ⟨t, page, inherited, e, layout⟩)
        (.hop ⟨t, page, inherited, e, layout⟩ :: frames)
      refine .of_step (by simp only [step, stepExtend, he, hl]) (inner.trans (Follows.of_step rfl ?_))
      have same := conclude_congr (outcome_orElse_congr
        (extended.trans (Work.outcome_ofExcept _ _).symm) (withoutLayout t page)) frames
      rw [same]
      exact .refl

/-- **The steps of a page that extends a layout come to what its chain of layouts comes to.**  By
induction on how many layouts may still be entered: the layout is extended with one less. -/
theorem follows_extend (site : Site) : ∀ (room : Nat) (t page : Text)
    (inherited : List (Text × Text)) (frames : List Frame) (d : Desk),
    (d.session.maxDepth - d.session.layoutStack.length).toNat = room →
    Follows site ⟨.extend t page inherited, frames, d⟩
      (conclude (flattenWithin site room t page inherited) frames d)
  | 0, t, page, inherited, frames, d, hr => by
    refine follows_hop (fun e target layout s hl => ?_) t inherited frames
    obtain ⟨depth, entered⟩ := enterLayout_ok hl
    have fits : (d.session.layoutStack.length : Int) + 1 ≤ d.session.maxDepth :=
      (Session.enter?_eq_ok_iff.mp entered).2.1
    omega
  | room + 1, t, page, inherited, frames, d, hr => by
    refine follows_hop (fun e target layout s hl inherited' frames' => ?_) t inherited frames
    obtain ⟨depth, entered⟩ := enterLayout_ok hl
    obtain ⟨-, rfl⟩ := Session.enter?_ok entered
    refine follows_extend site room layout target inherited' frames' _ ?_
    show (d.session.maxDepth - (d.session.layoutStack ++ [target]).length).toNat = room
    rw [List.length_append, List.length_singleton]
    omega

/-! ### The steps of a page -/

/-- Putting a page together is flattening it, expanding it and finishing it. -/
theorem outcome_makePage (t page : Text) (data : List (Value × Value)) (d : Desk) :
    (makePage site t page data).outcome d =
      match (flatten site t page).outcome d with
      | (.ok flattened, d') =>
        let data := layered [site.data, data]
        let out := (resolve site flattened data page).outcome d'
        (finishPage flattened page data out.1).outcome out.2
      | (.error h, d') => (.error h, d') := by
  unfold makePage
  rw [Work.outcome_bind]
  match (flatten site t page).outcome d with
  | (.error h, d') => rfl
  | (.ok flattened, d') =>
    have expanded : (expandPage site flattened page (layered [site.data, data])).outcome d' =
        ((Work.ofExcept ((resolve site flattened (layered [site.data, data]) page).outcome d').1).orElse
          fun p => do return (← Work.noted page p) ++ flattened).outcome
            ((resolve site flattened (layered [site.data, data]) page).outcome d').2 :=
      outcome_orElse_congr (Work.outcome_ofExcept _ _).symm _
    dsimp only
    unfold finishPage
    rw [Work.outcome_bind, Work.outcome_bind, expanded]

/-- **The steps of a page come to what putting it together comes to.** -/
theorem follows_makePage (t page : Text) (data : List (Value × Value)) (d : Desk) :
    Follows site (start site t page data d) (conclude (makePage site t page data) [] d) := by
  have flat := follows_extend site _ (Lowering.stripComments t) page []
    [.flattening page (layered [site.data, data])] d rfl
  refine flat.trans ?_
  have flatWork : (flatten site t page).outcome d =
      (flattenWithin site (d.session.maxDepth - d.session.layoutStack.length).toNat
        (Lowering.stripComments t) page []).outcome d := Work.outcome_bind_ok (Work.outcome_session d)
  rw [conclude_congr flatWork.symm]
  unfold conclude
  rw [outcome_makePage]
  match (flatten site t page).outcome d with
  | (.error h, d') => exact Follows.of_step rfl .refl
  | (.ok flattened, d') =>
    have expanded := follows_resolve site _ flattened (layered [site.data, data]) page
      [.expanding flattened page (layered [site.data, data])] d' rfl
    exact Follows.of_step rfl (expanded.trans (Follows.of_step rfl .refl))

end Pagewright.Assembly
