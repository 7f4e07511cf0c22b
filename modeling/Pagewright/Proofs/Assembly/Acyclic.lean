import Mathlib.Logic.Relation
import Pagewright.Assembly.Inclusion
import Pagewright.Proofs.Assembly.Asking
import Pagewright.Proofs.Desk.Report
import Pagewright.Proofs.Lowering.SharedMemo

/-! # Graphs of includes

Two graphs over the paths of a page and of the templates in a library.  In the one a file refers to
every template that an include tag written in it may resolve to, however deep in the bodies of other
tags (`Mentions`).  The other follows the texts that are expanded: what a tag carries for the slots
of a template is part of the text of that template (`Expanded`), so a tag in it is a reference of
the template (`Refers`).  A tag enters none but templates that it may resolve to, with its slots
filled (`entered_of_partialFor`).

A list of all files that a page leads to shows by a rank that they refer to each other in no circle
(`Surveyed.acyclic`).

Main definitions: `IncludeTag.MayEnter`, `Mentions`, `Expanded`, `Refers`, `Acyclic`, `Surveyed`. -/

namespace Pagewright

open Text

/-! ### What a tag may resolve to -/

/-- The references of a tag: its source, and the further candidates. -/
def IncludeTag.candidates (tag : IncludeTag) : List Text :=
  let attributes := Assembly.parseAttributes tag.attributes
  strip ((attributes.lookup "src".toList).getD []) ::
    (splitOn "|" ((attributes.lookup (Assembly.reservedLead ++ "first")).getD [])).filter
      fun name => !name.isEmpty

/-- A tag may resolve to a template of a library: one of its references leads there. -/
def IncludeTag.MayEnter (l : Library) (tag : IncludeTag) (path : Text) : Prop :=
  ∃ c ∈ tag.candidates, l.locate "include" c = .ok path ∧ l.holds path = true

/-- A text with its slots filled by what a tag carries. -/
def IncludeTag.fill (tag : IncludeTag) (t : Text) : Text :=
  Assembly.fillSlots t (Assembly.extractSlots (tag.body.getD []))

namespace Assembly

open Lowering

/-! ### References as they are written -/

/-- A tag stands in a text in engine syntax, or in the body of a tag that does. -/
inductive HasTag : Text → IncludeTag → Prop
  | here {t : Text} {tag : IncludeTag} : tag ∈ includeTags t → HasTag t tag
  | inside {t b : Text} {tag outer : IncludeTag} :
      outer ∈ includeTags t → outer.body = some b → HasTag b tag → HasTag t tag

/-- A file refers to a template by a tag that is written in it; `t` is the text of the page. -/
def Mentions (site : Site) (page t p q : Text) : Prop :=
  ∃ text, ((p = page ∧ text = t) ∨ site.library.text? p = some text) ∧
    ∃ lowered tag, transform site.delimiters text = .ok lowered ∧ HasTag lowered tag ∧
      tag.MayEnter site.library q

/-! ### References of expanded texts -/

/-- The texts under which a page and templates may be expanded: the page, and a template with its
slots filled by a tag of such a text. -/
inductive Expanded (site : Site) (page t : Text) : Text → Text → Prop
  | page : Expanded site page t page t
  | tag {p q text lowered raw : Text} {tag : IncludeTag} : Expanded site page t p text →
      transform site.delimiters text = .ok lowered → tag ∈ includeTags lowered →
      tag.MayEnter site.library q → site.library.text? q = some raw →
      Expanded site page t q (tag.fill raw)

/-- A file refers to a template by a tag of a text under which it may be expanded. -/
def Refers (site : Site) (page t p q : Text) : Prop :=
  ∃ text lowered tag, Expanded site page t p text ∧ transform site.delimiters text = .ok lowered ∧
    tag ∈ includeTags lowered ∧ tag.MayEnter site.library q

/-- No path leads from a file over references back to itself. -/
def Acyclic (site : Site) (page t : Text) : Prop :=
  ∀ p, ¬ Relation.TransGen (Refers site page t) p p

/-! ### Surveys -/

/-- What the tags of a text may resolve to, under its path and with its slots filled. -/
def references (site : Site) (text : Text) : List (Text × Text) :=
  match transform site.delimiters text with
  | .error _ => []
  | .ok lowered => (includeTags lowered).flatMap fun tag => tag.candidates.filterMap fun c =>
      match site.library.locate "include" c with
      | .error _ => none
      | .ok q => (site.library.text? q).map fun raw => (q, tag.fill raw)

theorem mem_references {site : Site} {text lowered q raw : Text} {tag : IncludeTag}
    (rewritten : transform site.delimiters text = .ok lowered) (ht : tag ∈ includeTags lowered)
    (may : tag.MayEnter site.library q) (held : site.library.text? q = some raw) :
    (q, tag.fill raw) ∈ references site text := by
  obtain ⟨c, hc, leads, -⟩ := may
  have entry : (match site.library.locate "include" c with
      | .error _ => none
      | .ok q => (site.library.text? q).map fun raw => (q, tag.fill raw)) =
        some (q, tag.fill raw) := by
    rw [leads]
    simp only [held, Option.map_some]
  unfold references
  rw [rewritten]
  exact List.mem_flatMap.mpr ⟨tag, ht, List.mem_filterMap.mpr ⟨c, hc, entry⟩⟩

/-- A list of files holds the page and all that is referred to in it. -/
def Surveyed (site : Site) (page t : Text) (files : List (Text × Text)) : Prop :=
  (page, t) ∈ files ∧ ∀ file ∈ files, ∀ other ∈ references site file.2, other ∈ files

instance (site : Site) (page t : Text) (files : List (Text × Text)) :
    Decidable (Surveyed site page t files) :=
  inferInstanceAs (Decidable (_ ∧ _))

section

variable {site : Site} {page t : Text} {files : List (Text × Text)}

theorem Surveyed.mem (h : Surveyed site page t files) {path text : Text}
    (expanded : Expanded site page t path text) : (path, text) ∈ files := by
  induction expanded with
  | page => exact h.1
  | tag _ rewritten ht may held ih => exact h.2 _ ih _ (mem_references rewritten ht may held)

/-- A rank that falls from every file to those it refers to leaves no path back. -/
theorem Surveyed.acyclic (h : Surveyed site page t files) (rank : Text → Nat)
    (falls : ∀ file ∈ files, ∀ other ∈ references site file.2, rank other.1 < rank file.1) :
    Acyclic site page t := by
  have step : ∀ p q, Refers site page t p q → rank q < rank p := by
    rintro p q ⟨text, lowered, tag, expanded, rewritten, ht, may⟩
    obtain ⟨raw, held⟩ := Option.isSome_iff_exists.mp may.choose_spec.2.2
    exact falls _ (h.mem expanded) _ (mem_references rewritten ht may held)
  have run : ∀ p q, Relation.TransGen (Refers site page t) p q → rank q < rank p := by
    intro p q path
    induction path with
    | single edge => exact step _ _ edge
    | tail _ edge ih => exact Nat.lt_trans (step _ _ edge) ih
  intro p path
  exact Nat.lt_irrefl _ (run p p path)

end

/-! ### What a tag enters -/

theorem exists_of_firstHeld? {l : Library} {target : Text} : ∀ {cs : List Text},
    firstHeld? l cs = .ok (some target) →
      ∃ c ∈ cs, l.locate "include" c = .ok target ∧ l.holds target = true := by
  intro cs
  induction cs with
  | nil => nofun
  | cons c cs ih =>
      intro h
      unfold firstHeld? at h
      cases hc : l.locate "include" c with
      | error e =>
          rw [hc] at h
          cases h
      | ok path =>
          rw [hc] at h
          by_cases held : l.holds path = true
          · have found : (.ok (some path) : Except Halt (Option Text)) = .ok (some target) := by
              rw [← h]
              exact (if_pos held).symm
            cases found
            exact ⟨c, List.mem_cons_self, hc, held⟩
          · have later : firstHeld? l cs = .ok (some target) := by
              rw [← h]
              exact (if_neg held).symm
            obtain ⟨c', hm, rest⟩ := ih later
            exact ⟨c', List.mem_cons_of_mem c hm, rest⟩

theorem firstHeld?_of_locate {l : Library} {src target : Text} {others : List Text}
    {optional : Bool} (h : locate l src others optional = .ok (some target)) :
    firstHeld? l (src :: others) = .ok (some target) := by
  unfold locate at h
  cases hf : firstHeld? l (src :: others) with
  | error e =>
      rw [hf] at h
      cases h
  | ok found =>
      rw [hf] at h
      cases found with
      | some path => exact h
      | none =>
          cases optional with
          | true => cases h
          | false =>
              change (l.locate "include" src >>= fun missing => _) = _ at h
              cases hl : l.locate "include" src <;> rw [hl] at h <;> cases h

/-- **A tag enters a template that it may resolve to**, with its slots filled. -/
theorem entered_of_partialFor {site : Site} {data : List (Value × Value)} {page : Text}
    {tag : IncludeTag} {d d' : Desk} {p : Partial}
    (h : (partialFor site data page tag).outcome d = (.ok (some p), d')) :
    tag.MayEnter site.library p.path ∧
      ∃ raw, site.library.text? p.path = some raw ∧ p.text = tag.fill raw := by
  unfold partialFor at h
  extract_lets attributes src reserved own others found at h
  have entered : ∀ u e, (found u).outcome e = (.ok (some p), d') →
      tag.MayEnter site.library p.path ∧
        ∃ raw, site.library.text? p.path = some raw ∧ p.text = tag.fill raw := by
    intro u e h
    obtain ⟨whenHolds, e₁, -, h⟩ := Work.exists_of_outcome_bind h
    split at h
    · cases h
    obtain ⟨unlessHolds, e₂, -, h⟩ := Work.exists_of_outcome_bind h
    split at h
    · cases h
    obtain ⟨target?, e₃, located, h⟩ := Work.exists_of_outcome_bind h
    split at h
    · next target =>
      rw [Work.outcome_ofExcept] at located
      obtain ⟨held, -⟩ := Prod.mk.inj located
      obtain ⟨c, listed, leads, holds⟩ := exists_of_firstHeld? (firstHeld?_of_locate held)
      obtain ⟨locals, e₄, -, h⟩ := Work.exists_of_outcome_bind h
      obtain ⟨raw, e₅, read, h⟩ := Work.exists_of_outcome_bind h
      obtain rfl : _ = p := Option.some.inj (Except.ok.inj (Prod.mk.inj h).1)
      rw [Work.outcome_ofProblem] at read
      refine ⟨⟨c, listed, leads, holds⟩, raw, ?_, rfl⟩
      cases ht : site.library.text? target with
      | some t =>
          rw [Library.read, ht] at read
          cases read
          rfl
      | none =>
          rw [Library.read, ht] at read
          cases read
    · cases h
  split at h
  · cases h
  · exact entered () d h

end Assembly

end Pagewright

/-! ## No circle of includes without a circle of references

While a text is expanded, every template on the include stack leads to it over references: the text
under a page or a template is the one that holds the tag by which the next one was entered.  So a
template that is entered again leads back to itself, and where no path does (`Acyclic`), no circle
of includes is reported.  One tag keeps the invariant (`reportsAt_renderTag`), so all tags of a text
do (`reportsAt_expandTags`), one level (`level_resolveTags`), and by induction all levels
(`level_resolveWithin`).

Main definitions: `Straight`, `Reaching`, `Level`. -/

namespace Pagewright

open Text

namespace Assembly

open Lowering

/-! ### Rewriting with a memo -/

section

variable {ds : Delimiters} {ts : List Text} {text : Text} (apart : Apart ds ts) (listed : text ∈ ts)

include apart listed

/-- A memo that can be trusted with a text still can when the text was rewritten. -/
theorem reports_lower {P : Problem → Prop} :
    Work.Reports P (Recalls ds ts) (Work.lower ds text) := by
  refine Work.Reports.lower fun now m trusted => ?_
  obtain ⟨m', hm, trusted'⟩ := trusted.transformKept apart now listed
  rw [hm]
  exact trusted'

/-- What a memo that can be trusted makes of a text is its rewriting. -/
theorem transform_of_lower {lowered : Text} {d e : Desk} (memo : Recalls ds ts d.memo)
    (h : (Work.lower ds text).outcome d = (.ok lowered, e)) : transform ds text = .ok lowered := by
  obtain ⟨value, -⟩ := Work.outcome_lower_ok h
  obtain ⟨m', hm, -⟩ := memo.transformKept apart d.now listed
  rw [hm] at value
  exact value

end

/-! ### Circles -/

/-- A problem that is not a circle of includes. -/
def Straight (p : Problem) : Prop := p.code ≠ "E1002"

/-- The only other circles are those of layouts. -/
theorem straight_iff {p : Problem} :
    Straight p ↔ ∀ chain scope, p = .cycle chain scope → scope = "layout" := by
  constructor
  · rintro h chain scope rfl
    by_contra hs
    exact h (if_neg hs)
  · intro h
    cases p with
    | cycle chain scope =>
        rw [h chain scope rfl]
        show ("E1001" : Text) ≠ "E1002"
        decide
    | outside | absent | expression =>
        rw [Straight, Problem.code]
        split <;> decide
    | tooDeep | malformed | other =>
        rw [Straight, Problem.code]
        decide

theorem mishaps_straight : Mishaps Straight where
  expression _ _ _ := straight_iff.mpr nofun
  malformed _ _ _ := straight_iff.mpr nofun
  other _ _ _ := straight_iff.mpr nofun
  outside _ _ _ := straight_iff.mpr nofun
  absent _ _ _ := straight_iff.mpr nofun

/-- All work on a page but entering templates reports nothing else, and what is known of the memo
stays true as long as no text is rewritten. -/
theorem stages_straight {I : Memo → Prop} : Work.Stages Straight fun _ => Work.Reports Straight I :=
  Work.stages_reports mishaps_straight.expression

variable {site : Site} {page t : Text} {ts : List Text}
  {next : Text → List (Value × Value) → Text → Work Text}

/-- A desk at which some text is worked on: all templates that are being worked on lead to it, and
the memo can be trusted. -/
structure Reaching (site : Site) (page t : Text) (ts : List Text) (path : Text) (d : Desk) :
    Prop where
  stack : ∀ q ∈ d.session.includeStack, Relation.ReflTransGen (Refers site page t) q path
  memo : Recalls site.delimiters ts d.memo

theorem Reaching.passed {path : Text} {d d' : Desk} {P : Problem → Prop}
    (h : Reaching site page t ts path d) (passed : Passed P (Recalls site.delimiters ts) d d') :
    Reaching site page t ts path d' := by
  refine ⟨?_, passed.memo h.memo⟩
  rw [passed.stack]
  exact h.stack

/-- Work on a text below others reports no circle of includes, if all of them lead to it. -/
def Level (site : Site) (page t : Text) (ts : List Text)
    (next : Text → List (Value × Value) → Text → Work Text) : Prop :=
  ∀ text data path d, Expanded site page t path text →
    (∀ q ∈ d.session.includeStack, Relation.TransGen (Refers site page t) q path) →
    Recalls site.delimiters ts d.memo →
    Work.ReportsAt Straight (Recalls site.delimiters ts) (next text data path) d

/-- **One tag**: its partial is referred to by the text in which the tag stands, so all that is
being worked on leads to the partial. -/
theorem reportsAt_renderTag (hn : Level site page t ts next) {path text lowered : Text}
    {tag : IncludeTag} (expanded : Expanded site page t path text)
    (rewritten : transform site.delimiters text = .ok lowered) (ht : tag ∈ includeTags lowered)
    (data : List (Value × Value)) {d : Desk} (reaching : Reaching site page t ts path d) :
    Work.ReportsAt Straight (Recalls site.delimiters ts) (renderTag site next data path tag) d := by
  have asking : Work.ReportsAt Straight (Recalls site.delimiters ts)
      (partialFor site data path tag) d :=
    reads_partialFor mishaps_straight stages_straight.toReads site data path tag d
  unfold renderTag
  refine asking.bind fun asked e he => ?_
  have here : Reaching site page t ts path e := reaching.passed (asking.passed he)
  cases asked with
  | none => exact Work.Reports.pure [] e
  | some p =>
      obtain ⟨may, raw, held, filled⟩ := entered_of_partialFor he
      have refers : Refers site page t path p.path :=
        ⟨text, lowered, tag, expanded, rewritten, ht, may⟩
      have below : Expanded site page t p.path p.text := by
        rw [filled]
        exact .tag expanded rewritten ht may held
      have leads : ∀ q ∈ e.session.includeStack,
          Relation.TransGen (Refers site page t) q p.path := by
        intro q hq
        exact Relation.TransGen.tail' (here.stack q hq) refers
      refine (hn p.text p.data p.path e below leads here.memo).bind fun resolved e' _ => ?_
      have finish : Work.Reports Straight (Recalls site.delimiters ts) (do
          Work.stash (← Work.splice (← Work.print resolved p.data p.path)) : Work Text) :=
        (Work.Reports.print mishaps_straight.expression resolved p.data p.path).bind fun printed =>
          (Work.Reports.splice printed).bind fun spliced => Work.Reports.stash spliced
      exact finish e'

theorem reportsAt_expandTag (hn : Level site page t ts next) {path text lowered : Text}
    {tag : IncludeTag} (expanded : Expanded site page t path text)
    (rewritten : transform site.delimiters text = .ok lowered) (ht : tag ∈ includeTags lowered)
    (data : List (Value × Value)) {d : Desk} (reaching : Reaching site page t ts path d) :
    Work.ReportsAt Straight (Recalls site.delimiters ts) (expandTag site next data path tag) d :=
  (reportsAt_renderTag hn expanded rewritten ht data reaching).orElse fun _ hp =>
    stages_straight.noted (mishaps_straight.metAt hp path)

/-- **All tags of a text**, one after the other. -/
theorem reportsAt_expandTags (hn : Level site page t ts next) {path text lowered : Text}
    (expanded : Expanded site page t path text)
    (rewritten : transform site.delimiters text = .ok lowered) (data : List (Value × Value)) :
    ∀ {tags : List IncludeTag} {d : Desk}, tags ⊆ includeTags lowered →
      Reaching site page t ts path d →
      Work.ReportsAt Straight (Recalls site.delimiters ts)
        (tags.mapM (expandTag site next data path)) d := by
  intro tags
  induction tags with
  | nil =>
      intro d _ _
      exact Work.Reports.pure [] d
  | cons tag tags ih =>
      intro d hs reaching
      have first := reportsAt_expandTag hn expanded rewritten (hs List.mem_cons_self) data reaching
      rw [List.mapM_cons]
      refine first.bind fun output e he => ?_
      have others := ih (fun _ hm => hs (List.mem_cons_of_mem tag hm))
        (reaching.passed (first.passed he))
      exact others.bind fun outputs e' _ => Work.Reports.pure (output :: outputs) e'

variable (acyclic : Acyclic site page t) (apart : Apart site.delimiters ts)
  (known : ∀ path text, Expanded site page t path text → text ∈ ts)

include acyclic apart known

/-- **One level**: no template that is being worked on is entered again, as it would lead back to
itself. -/
theorem level_resolveTags (hn : Level site page t ts next) :
    Level site page t ts (resolveTags site next) := by
  intro text data path d expanded leads memo
  unfold resolveTags
  refine Work.ReportsAt.within ?_ ?_
  · intro p hp
    obtain rfl | rfl := Session.enter?_error hp
    · have again : path ∈ d.session.stack .inclusion :=
        (Session.enter?_eq_cycle_iff).mp hp
      exact absurd (leads path again) (acyclic path)
    · exact straight_iff.mpr nofun
  · intro depth s entry
    obtain ⟨-, rfl⟩ := Session.enter?_ok entry
    have listed : text ∈ ts := known path text expanded
    let entered : Desk :=
      { d with session := d.session.withStack (d.session.includeStack ++ [path]) .inclusion }
    have lower : Work.ReportsAt Straight (Recalls site.delimiters ts)
        (Work.lower site.delimiters text) entered := reports_lower apart listed entered
    refine lower.bind fun lowered e he => ?_
    have rewritten : transform site.delimiters text = .ok lowered :=
      transform_of_lower apart listed (d := entered) memo he
    have reaching : Reaching site page t ts path entered := by
      refine ⟨?_, memo⟩
      intro q hq
      obtain earlier | last := List.mem_append.mp hq
      · exact (leads q earlier).to_reflTransGen
      · rw [List.mem_singleton.mp last]
    have tags := reportsAt_expandTags hn expanded rewritten data (List.Subset.refl _)
      (reaching.passed (lower.passed he))
    refine tags.bind fun outputs e' _ => ?_
    split
    · exact (Work.Reports.update (f := fun s => { s with entryOutputs := outputs }) (fun _ => rfl)
        fun _ => rfl).bind (fun _ => Work.Reports.pure (replaceTags lowered outputs)) e'
    · exact Work.Reports.pure (replaceTags lowered outputs) e'

/-- **All levels**, by induction on how many partials may still be entered. -/
theorem level_resolveWithin (room : Nat) : Level site page t ts (resolveWithin site room) := by
  induction room with
  | zero =>
      refine level_resolveTags acyclic apart known ?_
      intro text data path d _ _ _
      exact Work.Reports.pure text d
  | succ room ih => exact level_resolveTags acyclic apart known ih

/-- **A page** is expanded without a circle of includes, if nothing else is being worked on. -/
theorem reportsAt_resolve (data : List (Value × Value)) {d : Desk}
    (first : d.session.includeStack = []) (memo : Recalls site.delimiters ts d.memo) :
    Work.ReportsAt Straight (Recalls site.delimiters ts) (resolve site t data page) d := by
  have whole := Work.Reports.session (P := Straight) (I := Recalls site.delimiters ts) d
  refine whole.bind fun s e he => ?_
  obtain ⟨-, rfl⟩ := Prod.mk.inj he
  refine level_resolveWithin acyclic apart known _ t data page d .page ?_ memo
  intro q hq
  rw [first] at hq
  cases hq

end Assembly

end Pagewright
