import Pagewright.Proofs.Assembly.Yield
import Pagewright.Proofs.Desk.Run
import Pagewright.Proofs.Text.Named

/-! # One hop to a layout

A page is written as items around the directive that names its layout.  If the layout is there and
what it comes to is known, the hop gives the carried blocks of the page and the layout with its
yields filled, and leaves the desk as it was (`hop_page`).

Main definitions: `Page`, `Page.Sound`, `LeadsTo` (a reference leads to a text). -/

namespace Pagewright.Assembly

open Text Directive

/-- The sections that items declare; of two with one name the later counts. -/
def declared (items : List Item) : List (Text × Text) := Named.putAll [] (sections items)

/-- A template that extends a layout. -/
structure Page where
  before : List Item
  gap : Text
  layout : Heading none
  after : List Item

namespace Page

/-- The directive that names the layout. -/
def reference (p : Page) : Part := .call "extends" p.gap p.layout.args

/-- All items of a page. -/
def items (p : Page) : List Item := p.before ++ .other p.reference :: p.after

/-- A page without the directive that names its layout. -/
def body (p : Page) : List Item := p.before ++ p.after

/-- A page as it is written. -/
def shown (p : Page) : Text := shownAll (parts p.items)

/-- The sections that a page declares. -/
def declared (p : Page) : List (Text × Text) := Assembly.declared p.body

/-- The blocks that a page carries over to its layout. -/
def carried (p : Page) : Text := (carriedBlocks (shownAll (parts (bare p.body)))).flatten

end Page

/-- No item is taken for the directive that names a layout. -/
def ExtendsNothing (items : List Item) : Prop := named ["extends"] (marks 0 (parts items)) = []

/-- A page can be read, with and without what is taken out of it, and its own layout is the first
that it names. -/
structure Page.Sound (p : Page) : Prop where
  whole : Written p.items
  body : Written p.body
  bare : Legible (parts (bare p.body))
  first : ExtendsNothing p.before

/-- A reference leads to a layout under a path, which is a text but for its comments. -/
def LeadsTo (site : Site) (reference path t : Text) : Prop :=
  site.library.locate "layout" reference = .ok path ∧
    ∃ source, site.library.read path "layout" = .ok source ∧ Lowering.stripComments source = t

/-! ### Extending -/

theorem session_leave (s : Session) (r : Reference) (path : Text) :
    (s.withStack (s.stack r ++ [path]) r).leave r = s := by
  cases r <;> simp [Session.leave, Session.withStack, Session.stack]

variable {site : Site} (next : Text → Text → List (Text × Text) → Work Text) {d : Desk}

/-- A page is extended by a layout that can be entered and comes to some text, whatever else the work
on the layout has done. -/
theorem extend_entered (t page : Text) (inherited : List (Text × Text))
    {target source resolved reference : Text} {depth : Int} {e : Directive} {s : Session} {d' : Desk}
    (named : layoutReference page e = .ok reference)
    (located : site.library.locate "layout" reference = .ok target)
    (read : site.library.read target "layout" = .ok source)
    (entered : d.session.enter? .layout target = .ok (depth, s))
    (resolves : (next (Lowering.stripComments source) target
      (Named.putAll inherited (extractSections (t.take e.start ++ t.drop e.stop)).1)).outcome
        { d with session := s } = (.ok resolved, d')) :
    (extend site next t page inherited e).outcome d =
      (.ok ((carriedBlocks (extractSections (t.take e.start ++ t.drop e.stop)).2).flatten ++
        fillYields site.delimiters
          [(extractSections (t.take e.start ++ t.drop e.stop)).1, inherited,
            (extractSections (Lowering.stripComments source)).1]
          (extractSections resolved).2), { d' with session := d'.session.leave .layout }) := by
  have step₁ : (Work.ofProblem (layoutReference page e)).outcome d = (.ok reference, d) := by
    rw [Work.outcome_ofProblem, named]
    rfl
  have step₂ : (Work.ofExcept (site.library.locate "layout" reference)).outcome d =
      (.ok target, d) := by
    rw [Work.outcome_ofExcept, located]
  have step₃ : (Work.ofProblem (site.library.read target "layout")).outcome
      { d with session := s } = (.ok source, { d with session := s }) := by
    rw [Work.outcome_ofProblem, read]
    rfl
  unfold extend
  rw [Work.outcome_bind_ok step₁, Work.outcome_bind_ok step₂, Work.outcome_within_ok entered,
    Work.outcome_bind_ok step₃]
  simp only
  rw [Work.outcome_bind_ok resolves]
  simp only [Work.outcome_pure]

/-- A page is extended by a layout that can be entered and comes to some text. -/
theorem extend_ok (t page : Text) (inherited : List (Text × Text))
    {target source resolved reference : Text} {depth : Int} {e : Directive} {s : Session}
    (named : layoutReference page e = .ok reference)
    (located : site.library.locate "layout" reference = .ok target)
    (read : site.library.read target "layout" = .ok source)
    (entered : d.session.enter? .layout target = .ok (depth, s))
    (resolves : (next (Lowering.stripComments source) target
      (Named.putAll inherited (extractSections (t.take e.start ++ t.drop e.stop)).1)).outcome
        { d with session := s } = (.ok resolved, { d with session := s }))
    (left : s.leave .layout = d.session) :
    (extend site next t page inherited e).outcome d =
      (.ok ((carriedBlocks (extractSections (t.take e.start ++ t.drop e.stop)).2).flatten ++
        fillYields site.delimiters
          [(extractSections (t.take e.start ++ t.drop e.stop)).1, inherited,
            (extractSections (Lowering.stripComments source)).1]
          (extractSections resolved).2), d) := by
  have extended := extend_entered next t page inherited named located read entered resolves
  simp only [left] at extended
  exact extended

/-! ### The hop of a page -/

namespace Page

variable (p : Page)

theorem parts_items : parts p.items = parts p.before ++ p.reference :: parts p.after :=
  List.flatMap_append

theorem parts_body : parts p.body = parts p.before ++ parts p.after := List.flatMap_append

theorem sections_items : sections p.items = sections p.body := by
  unfold items body sections
  rw [List.filterMap_append, List.filterMap_append]
  rfl

/-- The directive that names the layout, as it is found in the page. -/
def mark : Directive :=
  ⟨"extends", some p.layout.args, (shownAll (parts p.before)).length,
    (shownAll (parts p.before)).length + p.reference.shown.length, false⟩

variable {p} (h : p.Sound)

include h in
theorem Sound.named_extends :
    (named ["extends"] (directives p.shown)).head? = some p.mark := by
  have e : named ["extends"] (marks 0 (parts p.items)) =
      named ["extends"] (marks 0 (parts p.before)) ++
        p.mark :: named ["extends"]
          (marks (0 + (shownAll (parts p.before)).length + p.reference.shown.length)
            (parts p.after)) := by
    have first : p.reference.mark? (0 + (shownAll (parts p.before)).length) = some p.mark := by
      rw [Nat.zero_add]
      rfl
    rw [p.parts_items, marks_append, marks, first, named, List.filter_append]
    rfl
  rw [shown, directives_shownAll h.whole.legible, e, h.first]
  rfl

variable (p) in
theorem cut_mark : p.shown.take p.mark.start ++ p.shown.drop p.mark.stop = shownAll (parts p.body) := by
  have e : p.shown = shownAll (parts p.before) ++ (p.reference.shown ++ shownAll (parts p.after)) := by
    rw [shown, p.parts_items, shownAll_append, shownAll_cons]
  have front : p.shown.take p.mark.start = shownAll (parts p.before) := by
    rw [e]
    exact List.take_left' rfl
  have back : p.shown.drop p.mark.stop = shownAll (parts p.after) := by
    rw [e, ← List.append_assoc]
    exact List.drop_left' (List.length_append ..)
  rw [front, back, p.parts_body, shownAll_append]

variable (p) in
theorem layoutReference_mark (page : Text) : layoutReference page p.mark = .ok p.layout.name := by
  obtain ⟨a, hargs, hname⟩ := label?_none p.layout.reads
  have list : p.mark.argumentList = [a] := hargs
  unfold layoutReference
  rw [list]
  simp only [List.head?_cons, Option.bind_some, hname]

include h in
theorem Sound.extractSections_body : extractSections (shownAll (parts p.body)) =
    (p.declared, shownAll (parts (Assembly.bare p.body))) := extractSections_items h.body

include h in
theorem Sound.extractSections_shown : (extractSections p.shown).1 = p.declared := by
  rw [shown, extractSections_items h.whole, sections_items]
  rfl

end Page

/-- **The hop of a page** whose layout comes to some text. -/
theorem hop_page {p : Page} (h : p.Sound) (page : Text) (inherited : List (Text × Text))
    {target t resolved : Text} {depth : Int} {s : Session}
    (leads : LeadsTo site p.layout.name target t)
    (entered : d.session.enter? .layout target = .ok (depth, s))
    (left : s.leave .layout = d.session)
    (resolves : (next t target (Named.putAll inherited p.declared)).outcome
      { d with session := s } = (.ok resolved, { d with session := s })) :
    (hop site next p.shown page inherited).outcome d =
      (.ok (p.carried ++ fillYields site.delimiters [p.declared, inherited, (extractSections t).1]
        (extractSections resolved).2), d) := by
  obtain ⟨located, source, read, rfl⟩ := leads
  have cut := p.cut_mark
  have taken := h.extractSections_body
  have extended := extend_ok next p.shown page inherited
    (p.layoutReference_mark page) located read entered
    (by rw [cut, taken]; exact resolves) left
  rw [cut, taken] at extended
  unfold hop
  rw [h.named_extends]
  simp only
  rw [Work.outcome_orElse, extended]
  rfl

/-- A text that names no layout is its own layout. -/
theorem hop_last {t page : Text} {inherited : List (Text × Text)}
    (h : named ["extends"] (directives t) = []) :
    (hop site next t page inherited).outcome d = (.ok t, d) := by
  unfold hop
  rw [h]
  rfl

end Pagewright.Assembly
