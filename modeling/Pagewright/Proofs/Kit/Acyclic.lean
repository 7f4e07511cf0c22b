import Pagewright.Proofs.Assembly.Acyclic
import Pagewright.Proofs.Kit.Independence
import Pagewright.Proofs.Kit.Single

/-! # Pages whose includes lead in no circle

A page whose text and templates refer to each other in no circle is printed without a report of one
(`Kit.Kept.render_acyclic`), whatever its tags carry for the slots of templates, whatever layouts it
has, and whatever the kit has printed before.  What a tag carries counts for the template that has
the slot: a template that is given a tag for itself includes itself, though no file that is written
down refers to itself (`Kit.render_selfish`).

Main definition: `Flattens`. -/

namespace Pagewright

open Text Directive Lowering Assembly

/-- A page that is printed lists the problems that its work has reported. -/
theorem PageResult.kind_of_reportsAt {P : Problem → Prop} {I : Memo → Prop} {w : Work Text}
    {d : Desk} (h : Work.ReportsAt P I w d) (fresh : d.session.problems = []) {page : Text}
    {r : PageResult} (hr : PageResult.of page (w.outcome d).2.session (w.outcome d).1 = .ok r) :
    ∀ p ∈ r.problems, P p := by
  obtain ⟨passed, stops⟩ := h
  have reported : ∀ p ∈ (w.outcome d).2.session.problems, P p := by
    intro p hp
    obtain earlier | new := passed.problems p hp
    · rw [fresh] at earlier
      cases earlier
    · exact new
  cases ho : (w.outcome d).1 with
  | ok text =>
      rw [ho] at hr
      cases hr
      exact reported
  | error halt =>
      rw [ho] at hr
      cases halt with
      | failure f => cases hr
      | problem q =>
          cases hr
          intro p hp
          unfold PageResult.problems at hp
          rw [List.filterMap_append] at hp
          obtain earlier | last := List.mem_append.mp hp
          · exact reported p earlier
          · rw [List.mem_singleton.mp last]
            exact stops q ho

/-- The text that its layouts make of a page, at a desk. -/
def Flattens (site : Site) (t page : Text) (d : Desk) (f : Text) : Prop :=
  ((flatten site t page).outcome d).1 = .ok f

/-- **Making a page** reports no circle of includes, if the text that its layouts make of it and the
templates refer to each other in none. -/
theorem reportsAt_makePage (site : Site) {t page : Text} {ts : List Text} {d : Desk}
    (apart : Apart site.delimiters ts)
    (acyclic : ∀ f, Flattens site t page d f → Acyclic site page f)
    (known : ∀ f, Flattens site t page d f →
      ∀ path text, Expanded site page f path text → text ∈ ts)
    (data : List (Value × Value)) (first : d.session.includeStack = [])
    (memo : Recalls site.delimiters ts d.memo) :
    Work.ReportsAt Straight (Recalls site.delimiters ts) (makePage site t page data) d := by
  have flat : Work.ReportsAt Straight (Recalls site.delimiters ts) (flatten site t page) d :=
    stages_flatten stages_straight mishaps_straight
      (fun _ => straight_iff.mpr fun _ _ same => (Problem.cycle.inj same).2.symm)
      (fun _ _ _ => straight_iff.mpr nofun) t page d
  unfold makePage
  refine flat.bind fun f e he => ?_
  have passed := flat.passed he
  have made : Flattens site t page d f := congrArg Prod.fst he
  have expand : Work.ReportsAt Straight (Recalls site.delimiters ts)
      (expandPage site f page (layered [site.data, data])) e := by
    refine (reportsAt_resolve (acyclic f made) apart (known f made) _
      (passed.stack.trans first) (passed.memo memo)).orElse fun p hp => ?_
    exact stages_straight.bind (stages_straight.noted (mishaps_straight.metAt hp page)) fun _ =>
      Work.Reports.pure _
  refine expand.bind fun expanded e' _ => ?_
  have finish : Work.Reports Straight (Recalls site.delimiters ts) (do
      let printed ← Work.splice
        (← printPage f expanded page (layered [site.data, data]))
      let collected := collect printed (← Work.session).onceSeen
      Work.update fun s => { s with onceSeen := collected.2 }
      return collected.1 : Work Text) := by
    refine (stages_printPage stages_straight f expanded page _).bind fun output => ?_
    refine (Work.Reports.splice output).bind fun printed => Work.Reports.session.bind fun s => ?_
    exact (Work.Reports.update
      (f := fun s' => { s' with onceSeen := (collect printed s.onceSeen).2 }) (fun _ => rfl)
      fun _ => rfl).bind fun _ => Work.Reports.pure _
  exact finish e'

namespace Kit

variable {s : Settings} {l : Library} {ts : List Text} {k : Kit}

/-- **No false circle**: a page whose includes lead in no circle is printed without a report of
one. -/
theorem Kept.render_acyclic (h : k.Kept s l ts) (ha : Apart s.delimiters ts) {now : Rat}
    {nonce t page : Text} {data : List (Value × Value)}
    (acyclic : ∀ f, Flattens ⟨l, s.delimiters, s.data⟩ t page (k.desk now nonce) f →
      Acyclic ⟨l, s.delimiters, s.data⟩ page f)
    (known : ∀ f, Flattens ⟨l, s.delimiters, s.data⟩ t page (k.desk now nonce) f →
      ∀ path text, Expanded ⟨l, s.delimiters, s.data⟩ page f path text → text ∈ ts)
    {r : PageResult} (hr : (k.render now nonce t page data).1 = .ok r) :
    ∀ p ∈ r.problems, p.code ≠ "E1002" := by
  have reports := reportsAt_makePage ⟨l, s.delimiters, s.data⟩ ha acyclic known data rfl
    h.trusted.memo
  rw [render_eq, h.site] at hr
  exact PageResult.kind_of_reportsAt reports rfl hr

theorem eq_ok_of_toOption {ε α : Type} {x : Except ε α} {a : α} (h : x.toOption = some a) :
    x = .ok a := by
  cases x with
  | error e => cases h
  | ok b =>
      cases h
      rfl

/-- A template with a slot, and one without. -/
def slotted : Library := .shelf ⟨[("card", "[@slot('t', 'none')]"), ("badge", "new")]⟩

/-- A page that fills the slot of the one template with the other one. -/
def filling : Text := "<include src=\"card\">@slot('t')<include src=\"badge\" />@endslot</include>"

theorem render_acyclic_filling : ∃ r,
    ((Kit.fresh {} slotted).render 0 "5eed" filling "index.html" []).1 = .ok r ∧
      ∀ p ∈ r.problems, p.code ≠ "E1002" := by
  let site : Site := ⟨slotted, {}, []⟩
  let files : List (Text × Text) :=
    [("index.html", filling), ("card", "[<include src=\"badge\" />]"), ("badge", "new")]
  have surveyed : Surveyed site "index.html" filling files := by decide +kernel
  have acyclic : Acyclic site "index.html" filling :=
    surveyed.acyclic ((["badge", "card", "index.html"] : List Text).idxOf ·) (by decide +kernel)
  have apart : Apart {} (files.map Prod.snd) := by
    unfold Apart
    decide +kernel
  have flat (d : Desk) : (flatten site filling "index.html").outcome d = (.ok filling, d) :=
    flatten_bare (by decide) (by decide) "index.html" d
  have only {f : Text} {d : Desk} (hf : Flattens site filling "index.html" d f) : f = filling := by
    rw [Flattens, flat] at hf
    exact (Except.ok.inj hf).symm
  have printed :
      ((Kit.fresh {} slotted).render 0 "5eed" filling "index.html" []).1.toOption.isSome := by
    decide +kernel
  obtain ⟨r, hr⟩ := Option.isSome_iff_exists.mp printed
  refine ⟨r, eq_ok_of_toOption hr, ?_⟩
  have fresh := kept_fresh {} slotted (files.map Prod.snd)
  refine fresh.render_acyclic apart (fun f hf => ?_) (fun f hf path text expanded => ?_)
    (eq_ok_of_toOption hr)
  · rw [only hf]
    exact acyclic
  · rw [only hf] at expanded
    exact List.mem_map_of_mem (surveyed.mem expanded)

/-- A template with a slot. -/
def lone : Library := .shelf ⟨[("card", "[@slot('t', 'none')]")]⟩

/-- A page that fills the slot of a template with the template itself. -/
def selfish : Text := "<include src=\"card\">@slot('t')<include src=\"card\" />@endslot</include>"

/-- The page and the template as they are written. -/
def Authored (p q : Text) : Prop := Mentions ⟨lone, {}, []⟩ "index.html" selfish p q

theorem eq_card_of_authored {p q : Text} (edge : Authored p q) : q = "card" := by
  obtain ⟨text, -, lowered, tag, -, -, c, -, -, held⟩ := edge
  by_contra hq
  have missed : lone.holds q = false := by
    have other : (q == "card".toList) = false := beq_false_of_ne hq
    simp only [lone, Library.holds, Library.text?, Shelf.text?, List.lookup_cons, other,
      List.lookup_nil, Option.isSome_none]
  rw [missed] at held
  cases held

/-- The template refers to nothing, as no tag is written in it. -/
theorem not_authored_card {q : Text} : ¬ Authored "card" q := by
  rintro ⟨text, ⟨same, -⟩ | held, lowered, tag, rewritten, has, -⟩
  · exact absurd same (by decide)
  · obtain rfl : "[@slot('t', 'none')]".toList = text := Option.some.inj held
    have kept : transform {} "[@slot('t', 'none')]" = .ok "[@slot('t', 'none')]" := by decide
    obtain rfl := Except.ok.inj (kept.symm.trans rewritten)
    have untagged : includeTags "[@slot('t', 'none')]" = [] := by decide
    cases has with
    | here hm =>
        rw [untagged] at hm
        cases hm
    | inside hm _ _ =>
        rw [untagged] at hm
        cases hm

/-- No file leads back to itself as it is written, and a circle is reported. -/
theorem render_selfish :
    (∀ p, ¬ Relation.TransGen (Mentions ⟨lone, {}, []⟩ "index.html" selfish) p p) ∧
      lone.holds "index.html" = false ∧
      ∃ r, ((Kit.fresh {} lone).render 0 "5eed" selfish "index.html" []).1 = .ok r ∧
        ∃ p ∈ r.problems, p.code = "E1002" := by
  refine ⟨?_, by decide, ?_⟩
  · intro p back
    have last : p = "card" := by
      cases back with
      | single edge => exact eq_card_of_authored edge
      | tail _ edge => exact eq_card_of_authored edge
    obtain ⟨q, edge, -⟩ := Relation.TransGen.head'_iff.mp back
    rw [last] at edge
    exact not_authored_card edge
  · have circle : ((Kit.fresh {} lone).render 0 "5eed" selfish "index.html" []).1.toOption.map
        (fun r => r.problems.map Problem.code) = some ["E1002".toList] := by decide +kernel
    obtain ⟨r, hr, codes⟩ := Option.map_eq_some_iff.mp circle
    have code : "E1002".toList ∈ r.problems.map Problem.code := by
      rw [codes]
      exact List.mem_singleton_self _
    obtain ⟨p, hp, same⟩ := List.mem_map.mp code
    exact ⟨r, eq_ok_of_toOption hr, p, hp, same⟩

end Kit

end Pagewright
