import Pagewright.Kit
import Pagewright.Proofs.Assembly.Hop
import Pagewright.Proofs.Directive.Balance
import Pagewright.Proofs.Directive.Outline
import Pagewright.Proofs.Text.Letters

/-! # Chains of layouts

A page extends a layout, which extends a further one, up to a last template that extends nothing.
The sections of all pages are merged on the way to the last template, and its yields are filled on
the way back, at the first hop: from the page next to it, from what that page inherits, or from the
template itself.  What comes of a chain is the carried blocks of its pages and the last template,
each yield of which is replaced by the section of the page nearest to that template
(`flatten_lineage`).  The induction is on the pages that are still to come.

Main definitions: `Lineage`, `Lineage.Sound`, `Lineage.chosen` (the section that fills a yield),
`Lineage.mostDerived` (the section of the page farthest from the last template), `Lineage.front`. -/

namespace Pagewright.Assembly

open Text Directive

/-! ### What a chain comes to -/

/-- Every page leads to the next one, and the last of them to the template `base` under its
path. -/
def Linked (site : Site) (base : Text × List Item) : Page → List (Text × Page) → Prop
  | p, [] => LeadsTo site p.layout.name base.1 (shownAll (parts base.2))
  | p, (path, q) :: rest => LeadsTo site p.layout.name path q.shown ∧ Linked site base q rest

/-- The carried blocks of the layouts behind a page, with their yields filled at the hop to each. -/
def ahead (ds : Delimiters) (inherited : List (Text × Text)) (p : Page) : List (Text × Page) → Text
  | [] => []
  | (_, q) :: rest =>
    fillYields ds [p.declared, inherited, q.declared] q.carried ++
      ahead ds (Named.putAll inherited p.declared) q rest

/-- The section with a name that the last of some pages declares, or else an inherited one, or else
one of the template itself. -/
def nearest (inherited : List (Text × Text)) (pages : List Page) (base : List Item) (name : Text) :
    Option Text :=
  (pages.reverse.findSome? fun p => p.declared.lookup name).or
    ((inherited.lookup name).or ((declared base).lookup name))

theorem nearest_cons (inherited : List (Text × Text)) (p : Page) (pages : List Page)
    (base : List Item) :
    nearest (Named.putAll inherited p.declared) pages base =
      nearest inherited (p :: pages) base := by
  funext name
  have own : p.declared.reverse.lookup name = p.declared.lookup name :=
    Named.lookup_reverse name (Named.nodup_putAll _ List.nodup_nil)
  unfold nearest
  rw [Named.lookup_putAll, own, List.reverse_cons, List.findSome?_append, List.findSome?_singleton,
    Option.or_assoc, Option.or_assoc]

theorem choice_eq_nearest (inherited : List (Text × Text)) (p : Page) (base : List Item) :
    choice [p.declared, inherited, declared base] = nearest inherited [p] base := by
  funext name
  unfold choice nearest
  simp only [List.findSome?_cons, List.findSome?_nil, List.reverse_singleton]
  cases p.declared.lookup name <;> cases inherited.lookup name <;>
    cases (declared base).lookup name <;> rfl

/-! ### Plain sections -/

theorem plain_declared {items : List Item} (h : ∀ i ∈ items, i.Sound) : Plain (declared items) := by
  intro e he
  obtain he | he := Named.mem_putAll he
  · cases he
  · obtain ⟨i, hi, hs⟩ := List.mem_filterMap.mp he
    have sound := h i hi
    cases i with
    | other p => cases hs
    | yield default gap heading => cases hs
    | block gap heading body =>
        obtain rfl := Option.some.inj hs
        exact fun hm => sound (mem_of_mem_strip hm)
    | short value gap heading =>
        obtain rfl := Option.some.inj hs
        exact sound

theorem plain_putAll {base new : List (Text × Text)} (hb : Plain base) (hn : Plain new) :
    Plain (Named.putAll base new) := fun e he => (Named.mem_putAll he).elim (hb e) (hn e)

theorem Page.Sound.plain {p : Page} (h : p.Sound) : Plain p.declared := plain_declared h.body.sound

/-- What a page carries over is made of parts of it. -/
theorem Page.Sound.carries {p : Page} (h : p.Sound) :
    ∃ cs, p.carried = shownAll cs ∧ Carried cs := by
  obtain ⟨cs, e, legible, inside, closed⟩ := carriedBlocks_shownAll h.bare
  exact ⟨cs, e, legible, fun q hq => tame_bare h.body.sound q (inside q hq), closed⟩

/-! ### Going down and coming back -/

/-- The template that a chain ends with. -/
structure Base (items : List Item) : Prop where
  written : Written items
  bare : Legible (parts (bare items))
  last : ExtendsNothing items

variable {site : Site} {base : Text × List Item}

theorem flattenWithin_last (hb : Base base.2) (room : Nat) (page : Text)
    (inherited : List (Text × Text)) (d : Desk) :
    (flattenWithin site room (shownAll (parts base.2)) page inherited).outcome d =
      (.ok (shownAll (parts base.2)), d) := by
  have last : named ["extends"] (directives (shownAll (parts base.2))) = [] := by
    rw [directives_shownAll hb.written.legible]
    exact hb.last
  cases room with
  | zero => exact hop_last _ last
  | succ room => exact hop_last _ last

/-- A layout that is not on the stack is entered while there is room. -/
theorem enter_layout {s : Session} {path : Text} (fresh : path ∉ s.layoutStack)
    (room : (s.layoutStack.length : Int) + 1 ≤ s.maxDepth) :
    s.enter? .layout path =
      .ok (s.layoutStack.length + 1, s.withStack (s.layoutStack ++ [path]) .layout) := by
  have new : ¬ (s.stack .layout).contains path = true := fun h => fresh (List.contains_iff_mem.mp h)
  have shallow : ¬ s.maxDepth < s.entryDepth .layout := by
    show ¬ s.maxDepth < (s.layoutStack.length : Int) + 1
    omega
  unfold Session.enter?
  exact (if_neg new).trans (if_neg shallow)

/-- **What a page of a chain comes to**: its carried blocks, those of the layouts behind it, and the
last template with its yields filled.  No section and no yield is left in it behind the carried
blocks of the page. -/
theorem flattenWithin_linked (base : Text × List Item) (hb : Base base.2) : ∀ (rest : List (Text × Page)) (p : Page)
    (room : Nat) (inherited : List (Text × Text)) (page : Text) (d : Desk),
    (∀ q ∈ p :: rest.map Prod.snd, q.Sound) → Linked site base p rest → Plain inherited →
    (rest.map Prod.fst ++ [base.1]).Nodup →
    (∀ path ∈ rest.map Prod.fst ++ [base.1], path ∉ d.session.layoutStack) →
    rest.length < room → d.session.layoutStack.length + rest.length + 1 ≤ d.session.maxDepth →
    ∃ us, (∀ u ∈ us, u.Harmless sectionNames) ∧
      shownAll us = ahead site.delimiters inherited p rest ++
        shownAll (filled (nearest inherited (p :: rest.map Prod.snd) base.2) base.2) ∧
      (flattenWithin site room p.shown page inherited).outcome d = (.ok (p.carried ++ shownAll us), d)
  | _, _, 0, _, _, _, _, _, _, _, _, hr, _ => absurd hr (Nat.not_lt_zero _)
  | [], p, room + 1, inherited, page, d, hp, leads, hi, _, fresh, _, deep => by
      have hp := hp p List.mem_cons_self
      have hi' : ∀ s ∈ [p.declared, inherited, declared base.2], Plain s := by
        simp only [List.forall_mem_cons, List.not_mem_nil, false_imp_iff, implies_true, and_true]
        exact ⟨hp.plain, hi, plain_declared hb.written.sound⟩
      refine ⟨_, harmless_filled hi' hb.written.sound, by rw [choice_eq_nearest]; rfl, ?_⟩
      have entered := enter_layout (fresh base.1 (by simp)) (by simpa using deep)
      have own : extractSections (shownAll (parts base.2)) =
          (declared base.2, shownAll (parts (bare base.2))) := extractSections_items hb.written
      have hopped := hop_page (flattenWithin site room) hp page inherited leads entered
        (session_leave d.session .layout base.1)
        (flattenWithin_last hb room base.1 _ _)
      rw [own] at hopped
      simp only at hopped
      rw [fillYields_items site.delimiters _ hb.written.sound hb.bare] at hopped
      exact hopped
  | (path, q) :: rest, p, room + 1, inherited, page, d, hp, leads, hi, distinct, fresh, hr, deep => by
      obtain ⟨hp, hs⟩ := List.forall_mem_cons.mp hp
      have hq : q.Sound := hs q List.mem_cons_self
      obtain ⟨leads, linked⟩ := leads
      obtain ⟨notAgain, distinct⟩ := List.nodup_cons.mp distinct
      let s := d.session.withStack (d.session.layoutStack ++ [path]) .layout
      have entered : d.session.enter? .layout path = .ok (d.session.layoutStack.length + 1, s) :=
        enter_layout (fresh path List.mem_cons_self) (by rw [List.length_cons] at deep; omega)
      obtain ⟨us, harmless, shown, flat⟩ := flattenWithin_linked base hb rest q room
        (Named.putAll inherited p.declared) path { d with session := s } hs linked
        (plain_putAll hi hp.plain) distinct
        (fun r hr hm => by
          obtain hm | hm := List.mem_append.mp hm
          · exact fresh r (List.mem_cons_of_mem path hr) hm
          · exact notAgain (List.mem_singleton.mp hm ▸ hr))
        (by rw [List.length_cons] at hr; omega)
        (by
          show ((d.session.layoutStack ++ [path]).length : Int) + rest.length + 1 ≤ d.session.maxDepth
          rw [List.length_append, List.length_singleton]
          rw [List.length_cons] at deep
          push_cast at deep ⊢
          omega)
      have hopped := hop_page (flattenWithin site room) hp page inherited leads entered
        (session_leave d.session .layout path) flat
      obtain ⟨cs, carried, hcs⟩ := hq.carries
      have hi' : ∀ s ∈ [p.declared, inherited, q.declared], Plain s := by
        simp only [List.forall_mem_cons, List.not_mem_nil, false_imp_iff, implies_true, and_true]
        exact ⟨hp.plain, hi, hq.plain⟩
      obtain ⟨fs, filledCs, harmless'⟩ := harmless_carried site.delimiters _ hcs hi'
      rw [hq.extractSections_shown, carried, extractSections_behind hcs harmless] at hopped
      simp only at hopped
      rw [fillYields_behind site.delimiters _ hcs harmless, filledCs, ← shownAll_append] at hopped
      refine ⟨fs ++ us, fun u hu => (List.mem_append.mp hu).elim (harmless' u) (harmless u), ?_,
        hopped⟩
      rw [shownAll_append, shown, ahead, carried, filledCs, List.append_assoc, nearest_cons]
      rfl

/-! ### Whole lineages -/

/-- A page, the layouts between it and the last template with their paths, and that template. -/
structure Lineage where
  page : Page
  layouts : List (Text × Page)
  path : Text
  base : List Item

namespace Lineage

variable (l : Lineage)

/-- All templates but the last, the most derived first. -/
def pages : List Page := l.page :: l.layouts.map Prod.snd

/-- The paths of all layouts in the order in which they are entered. -/
def paths : List Text := l.layouts.map Prod.fst ++ [l.path]

/-- The bodies that are declared under a name in front of the last template, the most derived
first. -/
def bodies (name : Text) : List Text := l.pages.filterMap fun p => p.declared.lookup name

/-- The section that fills the yields of a name. -/
def chosen (name : Text) : Option Text :=
  (l.bodies name).getLast?.or ((declared l.base).lookup name)

/-- The section of a name in the most derived template that declares it. -/
def mostDerived (name : Text) : Option Text :=
  (l.bodies name).head?.or ((declared l.base).lookup name)

/-- What stands in front of the last template: the carried blocks of all pages. -/
def front (ds : Delimiters) : Text := l.page.carried ++ ahead ds [] l.page l.layouts

/-- All templates can be read, each leads to the next one, and no layout is met twice. -/
structure Sound (site : Site) : Prop where
  pages : ∀ p ∈ l.pages, p.Sound
  base : Base l.base
  linked : Linked site (l.path, l.base) l.page l.layouts
  distinct : l.paths.Nodup

theorem nearest_pages : nearest [] l.pages l.base = l.chosen := by
  funext name
  unfold nearest chosen bodies
  rw [List.getLast?_filterMap, List.lookup_nil, Option.none_or]

variable {l}

/-- The most derived section fills the yields of a name exactly if the first and the last of the
bodies in front of the last template are the same. -/
theorem chosen_eq_mostDerived {name : Text} :
    l.chosen name = l.mostDerived name ↔ (l.bodies name).head? = (l.bodies name).getLast? := by
  unfold chosen mostDerived
  cases hb : l.bodies name with
  | nil => simp
  | cons a as =>
      have last : (a :: as).getLast? = some ((a :: as).getLast (List.cons_ne_nil a as)) :=
        List.getLast?_eq_some_getLast _
      rw [last, List.head?_cons, Option.some_or, Option.some_or]
      exact eq_comm

end Lineage

/-- **Yields along a chain of layouts.**  Flattening a page gives the carried blocks of the chain and
the last template without its sections, in which every yield is replaced by the section of its name
that is declared nearest to the last template in front of it, or else by that template's own, by its
default, or by nothing; nothing is noticed and the desk stays as it was.  For a name this is the
section of the most derived template if and only if the pages in front of the last template declare
it with the same body first and last. -/
theorem flatten_lineage {l : Lineage} (h : l.Sound site) {source page : Text} {d : Desk}
    (written : Lowering.stripComments source = l.page.shown)
    (fresh : ∀ path ∈ l.paths, path ∉ d.session.layoutStack)
    (room : (d.session.layoutStack.length : Int) + l.paths.length ≤ d.session.maxDepth) :
    (flatten site source page).outcome d =
        (.ok (l.front site.delimiters ++ shownAll (filled l.chosen l.base)), d) ∧
      ∀ name, l.chosen name = l.mostDerived name ↔
        (l.bodies name).head? = (l.bodies name).getLast? := by
  refine ⟨?_, fun name => Lineage.chosen_eq_mostDerived⟩
  have length : l.paths.length = l.layouts.length + 1 := by simp [Lineage.paths]
  rw [length] at room
  obtain ⟨us, -, shown, flat⟩ := flattenWithin_linked (l.path, l.base) h.base l.layouts
    l.page (d.session.maxDepth - d.session.layoutStack.length).toNat [] page d h.pages h.linked
    (fun e he => absurd he List.not_mem_nil) h.distinct fresh (by omega)
    (by push_cast at room; omega)
  rw [show nearest [] (l.page :: l.layouts.map Prod.snd) l.base = l.chosen from l.nearest_pages]
    at shown
  unfold flatten
  rw [Work.outcome_bind_ok (Work.outcome_session d), written, flat, shown, Lineage.front,
    List.append_assoc]

/-! ### A section that is declared twice -/

/-- The heading that a literal alone makes. -/
def Heading.quoted (l : Literal) : Heading none where
  args := l.shown
  name := l.value
  reads := by
    unfold label?
    rw [l.arguments_shown]
    simp only [l.literal?_shown]
    rfl

/-- A page that declares one section, called `x`. -/
def heir (layout : Literal) (body : Text) : Page :=
  ⟨[], [], .quoted layout, [.block [] (.quoted (.single "x" (by decide) (by decide))) body]⟩

theorem sound_heir {layout : Literal} {body : Text} (hl : '@' ∉ layout.shown) (hb : '@' ∉ body) :
    (heir layout body).Sound := by
  have section_ : Legible (parts (heir layout body).body) :=
    ⟨rfl, by decide, rfl, Literal.balanced _, by decide, hb, rfl, rfl, Or.inl (by decide), trivial⟩
  have legible : Legible (parts (heir layout body).items) :=
    ⟨rfl, by decide, rfl, layout.balanced, hl, section_⟩
  have reference : (heir layout body).reference.Harmless sectionNames := by
    refine ⟨legible.sound List.mem_cons_self, fun d hd => ?_⟩
    cases hd
    show ∀ m ∈ sectionNames, ¬ "extends".toList <+: m
    decide
  refine ⟨⟨?_, legible⟩, ⟨?_, section_⟩, trivial, rfl⟩
  · intro i hi
    obtain rfl | hi := List.mem_cons.mp hi
    · exact reference
    · obtain rfl := List.mem_singleton.mp hi
      exact hb
  · intro i hi
    obtain rfl := List.mem_singleton.mp hi
    exact hb

/-- Two pages that declare the section which the last template yields. -/
def contested : Lineage where
  page := heir (.single "mid" (by decide) (by decide)) "A"
  layouts := [("mid", heir (.single "base" (by decide) (by decide)) "B")]
  path := "base"
  base := [.yield none [] (.quoted (.single "x" (by decide) (by decide)))]

/-- The library of the two layouts. -/
def contestedSite : Site where
  library := .shelf ⟨[("mid", "@extends('base')@section('x')B@endsection"), ("base", "@yield('x')")]⟩

theorem flatten_contested :
    (flatten contestedSite "@extends('mid')@section('x')A@endsection" "index.html").outcome {} =
        (.ok "B", {}) ∧
      contested.bodies "x" = ["A".toList, "B".toList] ∧
      contested.mostDerived "x" = some "A".toList := by
  have yield : Legible (parts contested.base) := by
    refine ⟨rfl, by decide, rfl, Literal.balanced _, by decide, trivial⟩
  have sound : contested.Sound contestedSite := by
    refine ⟨?_, ⟨⟨?_, yield⟩, yield, rfl⟩, ⟨⟨rfl, _, rfl, by decide +kernel⟩, rfl, _, rfl,
      by decide +kernel⟩, by decide⟩
    · intro p hp
      have all : p = contested.page ∨ p = heir (.single "base" (by decide) (by decide)) "B" := by
        simpa [Lineage.pages, contested] using hp
      obtain rfl | rfl := all
      · exact sound_heir (by decide) (by decide)
      · exact sound_heir (by decide) (by decide)
    · intro i hi
      obtain rfl := List.mem_singleton.mp hi
      exact nofun
  have flat : (flatten contestedSite "@extends('mid')@section('x')A@endsection" "index.html").outcome
      {} = (.ok (contested.front {} ++ shownAll (filled contested.chosen contested.base)), {}) :=
    (flatten_lineage sound (by decide +kernel) (fun _ _ => List.not_mem_nil) (by decide)).1
  have text : contested.front {} ++ shownAll (filled contested.chosen contested.base) =
      "B".toList := by decide +kernel
  exact ⟨text ▸ flat, by decide +kernel, by decide +kernel⟩

end Pagewright.Assembly

/-! ## Blocks in the constructs of a page

A page that extends a layout carries its stack and once blocks over.  The search for them does not
know of conditionals, switches and loops, so a block that stands in one is carried over without it:
it counts where its construct would have dropped it (`flatten_enclosed`). -/

namespace Pagewright.Assembly

open Text Directive

variable {site : Site}

/-- A page that is flattened: its carried blocks, and its layout with the yields filled. -/
theorem flatten_entered {p : Page} (h : p.Sound) {source page path t resolved : Text} {d d' : Desk}
    (written : Lowering.stripComments source = p.shown) (leads : LeadsTo site p.layout.name path t)
    (fresh : path ∉ d.session.layoutStack)
    (room : (d.session.layoutStack.length : Int) + 1 ≤ d.session.maxDepth)
    (resolves : (flattenWithin site (d.session.maxDepth - d.session.layoutStack.length - 1).toNat t
      path (Named.putAll [] p.declared)).outcome
        { d with session := d.session.withStack (d.session.layoutStack ++ [path]) .layout } =
      (.ok resolved, d')) :
    (flatten site source page).outcome d =
      (.ok (p.carried ++ fillYields site.delimiters [p.declared, [], (extractSections t).1]
        (extractSections resolved).2), { d' with session := d'.session.leave .layout }) := by
  obtain ⟨located, text, read, rfl⟩ := leads
  obtain ⟨n, hn⟩ : ∃ n : Nat, (d.session.maxDepth - d.session.layoutStack.length).toNat = n + 1 :=
    Nat.exists_eq_succ_of_ne_zero (by omega)
  have less : (d.session.maxDepth - d.session.layoutStack.length - 1).toNat = n := by omega
  rw [less] at resolves
  have taken := h.extractSections_body
  have extended := extend_entered (flattenWithin site n) p.shown page []
    (p.layoutReference_mark page) located read (enter_layout fresh room)
    (by rw [p.cut_mark, taken]; exact resolves)
  rw [p.cut_mark, taken] at extended
  unfold flatten
  rw [Work.outcome_bind_ok (Work.outcome_session d), written, hn, flattenWithin]
  unfold hop
  rw [h.named_extends]
  simp only
  rw [Work.outcome_orElse, extended]
  rfl

/-- **Blocks are carried over without their constructs.**  A page that extends a layout comes to the
outermost blocks of what it holds outside of its sections, each by itself whether or not a
conditional, a switch or a loop encloses it, and behind them the layout with its yields filled.
These are the blocks that nothing encloses if and only if no block stands in a construct. -/
theorem flatten_enclosed {p : Page} (h : p.Sound) {o : Outline} (ho : o.Sound)
    (outline : parts (bare p.body) = o.parts) {source page path t resolved : Text} {d d' : Desk}
    (written : Lowering.stripComments source = p.shown) (leads : LeadsTo site p.layout.name path t)
    (fresh : path ∉ d.session.layoutStack)
    (room : (d.session.layoutStack.length : Int) + 1 ≤ d.session.maxDepth)
    (resolves : (flattenWithin site (d.session.maxDepth - d.session.layoutStack.length - 1).toNat t
      path (Named.putAll [] p.declared)).outcome
        { d with session := d.session.withStack (d.session.layoutStack ++ [path]) .layout } =
      (.ok resolved, d')) :
    let layout := fillYields site.delimiters [p.declared, [], (extractSections t).1]
      (extractSections resolved).2
    (flatten site source page).outcome d =
        (.ok ((o.outermost.map shownAll).flatten ++ layout),
          { d' with session := d'.session.leave .layout }) ∧
      ((o.outermost.map shownAll).flatten ++ layout = (o.unenclosed.map shownAll).flatten ++ layout ↔
        o.enclosed = []) := by
  intro layout
  have carried : p.carried = (o.outermost.map shownAll).flatten := by
    have legible := h.bare
    rw [outline] at legible
    rw [Page.carried, outline, carriedBlocks_outline ho legible]
  refine ⟨?_, ?_⟩
  · rw [← carried]
    exact flatten_entered h written leads fresh room resolves
  · rw [List.append_cancel_right_eq]
    exact Outline.shown_outermost_iff

/-! ### A push that is never reached -/

theorem parts_others (ps : List Part) : parts (ps.map .other) = ps := by
  rw [parts, List.flatMap_map]
  exact List.flatMap_singleton' ps

theorem written_others {ps : List Part} (h : ∀ p ∈ ps, p.Harmless sectionNames)
    (apart : Separated ps) : Written (ps.map .other) where
  sound i hi := by
    obtain ⟨p, hp, rfl⟩ := List.mem_map.mp hi
    exact h p hp
  legible := by
    rw [parts_others, legible_iff]
    exact ⟨fun p hp => (h p hp).1, apart⟩

/-- A push in a conditional that is never taken. -/
def unreached : Outline :=
  .construct ("if", "endif") [] "false"
    (.carried ("push", "endpush") (.call "push" [] "'s'") (.part (.text "X") .nil) .nil) .nil

/-- The page of it, with a layout that has a place for the stack. -/
def unreachedPage : Page :=
  ⟨[], [], .quoted (.single "shell" (by decide) (by decide)), unreached.parts.map .other⟩

theorem sound_unreached : unreached.Sound := by
  refine ⟨by decide, ⟨by decide, rfl, ⟨?_, rfl, trivial⟩, trivial⟩, trivial⟩
  exact nofun

theorem harmless_unreached : ∀ p ∈ unreached.parts, p.Harmless sectionNames := by
  have call (n a : Text) (hn : name? n = some n ∧ n ∉ bareNames ∧ '@' ∉ a) (ha : Balanced a)
      (other : ∀ m ∈ sectionNames, ¬ n <+: m) : (Part.call n [] a).Harmless sectionNames :=
    ⟨⟨hn.1, hn.2.1, rfl, ha, hn.2.2⟩, fun d hd => by cases hd; exact other⟩
  have word (n : Text) (hn : name? n = some n) (other : ∀ m ∈ sectionNames, ¬ n <+: m) :
      (Part.word n).Harmless sectionNames := ⟨hn, fun d hd => by cases hd; exact other⟩
  have all : unreached.parts = [.call "if" [] "false", .call "push" [] "'s'", .text "X",
    .word "endpush", .word "endif"] := rfl
  have quoted : Balanced "'s'" := (Literal.single "s" (by decide) (by decide)).balanced
  have text : '@' ∉ "X".toList := by decide
  rw [all]
  simp only [List.forall_mem_cons, List.not_mem_nil, false_imp_iff, implies_true, and_true]
  exact ⟨call _ _ (by decide) (.of_inert (by decide)) (by decide),
    call _ _ (by decide) quoted (by decide), ⟨text, nofun⟩, word _ (by decide) (by decide),
    word _ (by decide) (by decide)⟩

theorem sound_unreachedPage : unreachedPage.Sound := by
  have quoted : Balanced "'shell'" := (Literal.single "shell" (by decide) (by decide)).balanced
  have reference : unreachedPage.reference.Harmless sectionNames :=
    ⟨⟨rfl, by decide, rfl, quoted, by decide⟩, fun d hd => by cases hd; decide⟩
  have body := written_others harmless_unreached (by decide)
  exact ⟨written_others (List.forall_mem_cons.mpr ⟨reference, harmless_unreached⟩) (by decide), body,
    body.legible, rfl⟩

/-- The library of its layout. -/
def unreachedSite : Site where
  library := .shelf ⟨[("shell", "@stack('s')")]⟩

/-- The push is never reached without the layout, and is printed with it. -/
theorem flatten_unreached :
    (flatten unreachedSite "@extends('shell')@if(false)@push('s')X@endpush@endif"
        "index.html").outcome {} = (.ok "@push('s')X@endpush@stack('s')", {}) ∧
      unreached.unenclosed = [] ∧
      ((Kit.make {} unreachedSite.library {}).render 0 "5eed"
        "@extends('shell')@if(false)@push('s')X@endpush@endif" "index.html" []).1.toOption.map
          PageResult.text = some "X".toList ∧
      ((Kit.make {} unreachedSite.library {}).render 0 "5eed"
        "@if(false)@push('s')X@endpush@endif@stack('s')" "index.html" []).1.toOption.map
          PageResult.text = some [] := by
  have resolves : ∀ d, (flattenWithin unreachedSite 49 "@stack('s')" "shell"
      (Named.putAll [] unreachedPage.declared)).outcome d = (.ok "@stack('s')", d) := fun d =>
    hop_last _ (by decide +kernel)
  have written : Lowering.stripComments unreachedPage.shown = unreachedPage.shown := by
    decide +kernel
  have leads : LeadsTo unreachedSite unreachedPage.layout.name "shell" "@stack('s')" :=
    ⟨rfl, _, rfl, by decide +kernel⟩
  have flat : (flatten unreachedSite unreachedPage.shown "index.html").outcome {} =
      (.ok ((unreached.outermost.map shownAll).flatten ++ fillYields {} [unreachedPage.declared, [],
        (extractSections "@stack('s')").1] (extractSections "@stack('s')").2), {}) :=
    (flatten_enclosed sound_unreachedPage sound_unreached rfl (d := {}) written leads
      (by decide) (by decide) (resolves _)).1
  have text : (unreached.outermost.map shownAll).flatten ++ fillYields {} [unreachedPage.declared, [],
      (extractSections "@stack('s')").1] (extractSections "@stack('s')").2 =
        "@push('s')X@endpush@stack('s')".toList := by decide +kernel
  rw [text] at flat
  exact ⟨flat, rfl, by decide +kernel, by decide +kernel⟩

end Pagewright.Assembly
