import Pagewright.Proofs.Assembly.Layered
import Pagewright.Proofs.Assembly.Marker
import Pagewright.Proofs.Kit.Independence
import Pagewright.Proofs.Template.Opening

/-! # Pages that include nothing

A page whose rewriting holds no include tag goes through the stages one after the other: what it is
flattened to is rewritten, printed and collected, and nothing is set aside or noticed on the way.  A
kit that can be trusted with the flattened text prints such a page (`Kit.Kept.render_single`).

Main definition: `Settings.Plain`. -/

namespace Pagewright

open Text Directive Lowering Assembly

/-- Settings that leave text between tags as it is: the usual delimiters, no white space dropped, a
limit that lets pages in, and data under names. -/
structure Settings.Plain (s : Settings) : Prop where
  delimiters : s.delimiters = {}
  trim : s.trimBlocks = false
  lstrip : s.lstripBlocks = false
  depth : 0 ≤ s.maxDepth
  data : Template.Named s.data

theorem plain_default : Settings.Plain {} where
  delimiters := rfl
  trim := rfl
  lstrip := rfl
  depth := by decide
  data := nofun

theorem Settings.Plain.exact {s : Settings} (h : s.Plain) (l : Library) :
    Template.Exact (Kit.fresh s l).press.dialect where
  usual := ⟨h.delimiters, rfl⟩
  trim := h.trim
  lstrip := h.lstrip

theorem Settings.Plain.named {s : Settings} (h : s.Plain) {data : List (Value × Value)}
    (hd : Template.Named data) : Template.Named (layered [s.data, data]) := by
  refine named_layered _ fun layer hm => ?_
  simp only [List.mem_cons, List.not_mem_nil, or_false] at hm
  obtain rfl | rfl := hm
  · exact h.data
  · exact hd

namespace Assembly

/-- A page that extends no layout is flattened to itself without its comments. -/
theorem flatten_unextended {site : Site} {t : Text}
    (h : named ["extends"] (directives (stripComments t)) = []) (page : Text) (d : Desk) :
    (flatten site t page).outcome d = (.ok (stripComments t), d) := by
  have within (room : Nat) :
      flattenWithin site room (stripComments t) page [] = pure (stripComments t) := by
    cases room <;> rw [flattenWithin, hop, h] <;> rfl
  rw [flatten, Work.outcome_bind_ok (Work.outcome_session d), within]
  rfl

/-- A page without comments that extends no layout is flattened to itself. -/
theorem flatten_bare {site : Site} {t : Text} (bare : stripComments t = t)
    (h : named ["extends"] (directives t) = []) (page : Text) (d : Desk) :
    (flatten site t page).outcome d = (.ok t, d) := by
  rw [← bare] at h
  have flat : (flatten site t page).outcome d = (.ok (stripComments t), d) :=
    flatten_unextended h page d
  rwa [bare] at flat

/-- A text whose rewriting holds no include tag is expanded to the rewriting. -/
theorem resolve_single {site : Site} {t e page : Text} {data : List (Value × Value)} {d : Desk}
    {m : Memo} (depth : 0 ≤ d.session.maxDepth) (first : d.session.includeStack = [])
    (lowered : transformKept site.delimiters d.now t d.memo = (.ok e, m))
    (untagged : includeTags e = []) :
    (resolve site t data page).outcome d =
      (.ok e, { d with memo := m, session := { d.session with entryOutputs := [] } }) := by
  have room : (d.session.maxDepth + 1 - d.session.includeStack.length).toNat =
      d.session.maxDepth.toNat + 1 := by
    rw [first, List.length_nil]
    omega
  have entered : d.session.enter? .inclusion page =
      .ok (0, d.session.withStack [page] .inclusion) := by
    have fresh : page ∉ d.session.includeStack := by simp [first]
    have shallow : (d.session.includeStack.length : Int) ≤ d.session.maxDepth := by
      simpa [first] using depth
    have entry := Session.enter?_fresh fresh shallow
    rw [first] at entry
    exact entry
  have work : (Work.lower site.delimiters t).outcome
      { d with session := d.session.withStack [page] .inclusion } =
        (.ok e, { d with memo := m, session := d.session.withStack [page] .inclusion }) := by
    rw [Work.outcome_lower, lowered]
    rfl
  have kept : replaceTags e [] = e := by
    unfold replaceTags
    rw [untagged]
    rfl
  have left : ({ d.session.withStack [page] .inclusion with entryOutputs := [] }).leave .inclusion =
      { d.session with entryOutputs := [] } := by
    have same : d.session = { d.session with includeStack := [] } := by rw [← first]
    rw [same]
    rfl
  unfold resolve
  rw [Work.outcome_bind_ok (Work.outcome_session _), room, resolveWithin, resolveTags,
    Work.outcome_within_ok entered, Work.outcome_bind_ok work, untagged]
  simp only [List.mapM_nil, pure_bind, if_true, kept, ← left]
  rfl

end Assembly

namespace Kit

variable {s : Settings} {l : Library} {ts : List Text} {k : Kit}

/-- **A kit prints a page that includes nothing** as its rewriting is printed and collected: without
a notice, whatever the kit has printed before. -/
theorem Kept.render_single (h : k.Kept s l ts) (ha : Apart s.delimiters ts) (depth : 0 ≤ s.maxDepth)
    {t f e page v : Text} {data : List (Value × Value)} {c : Template.Compiled} (hf : f ∈ ts)
    (flat : ∀ d : Desk, (flatten ⟨l, s.delimiters, s.data⟩ t page).outcome d = (.ok f, d))
    (lowered : transform s.delimiters f = .ok e) (untagged : includeTags e = [])
    (compiled : Template.compile (Kit.fresh s l).press.dialect e = .ok c)
    (shown : c.render (layered [s.data, data]) = .ok v) (now : Rat) (nonce : Text) :
    ∃ k' : Kit, k.render now nonce t page data =
        (.ok ⟨(collect v []).1, page, [], (collect v []).2.length⟩, k') ∧ k'.Kept s l ts := by
  obtain ⟨m, hm, trusted⟩ := h.trusted.lower ha now hf
  rw [lowered] at hm
  obtain ⟨q, hq, trusted'⟩ := trusted.print e (layered [s.data, data]) (some page)
  have printed : k.press.print e (layered [s.data, data]) (some page) = (.ok v, q) := by
    obtain ⟨r, hr, -⟩ := Press.Genuine.print (p := Press.mk (Kit.fresh s l).press.dialect 0 [])
      nofun e (layered [s.data, data]) (some page)
    rw [hq, hr, compiled]
    simp only [Except.mapError, Except.bind, Press.printed, shown]
  let d := k.desk now nonce
  let d₁ : Desk := { d with memo := m, session := { d.session with entryOutputs := [] } }
  let d₂ : Desk := { d₁ with press := q }
  have expanded : (expandPage k.site f page (layered [k.site.data, data])).outcome d =
      (.ok e, d₁) := by
    have most : d.session.maxDepth = s.maxDepth := congrArg Settings.maxDepth h.settings
    have resolved : (resolve k.site f (layered [k.site.data, data]) page).outcome d = (.ok e, d₁) :=
      resolve_single (most ▸ depth) rfl (by rw [h.site]; exact hm) untagged
    rw [expandPage, Work.outcome_orElse, resolved]
  have print : (printPage f e page (layered [k.site.data, data])).outcome d₁ = (.ok v, d₂) := by
    rw [printPage, Work.outcome_orElse, Work.outcome_print, h.site]
    rw [show d₁.press.print e (layered [s.data, data]) (some page) = (.ok v, q) from printed]
    rfl
  have made : (makePage k.site t page data).outcome d = (.ok (collect v []).1,
      { d₂ with session := { d₁.session with onceSeen := (collect v []).2 } }) := by
    have splice : (Work.splice v).outcome d₂ = (.ok v, d₂) := by
      rw [Work.outcome_splice]
      rfl
    have flat' := flat d
    rw [← h.site] at flat'
    unfold makePage
    simp only
    rw [Work.outcome_bind_ok flat', Work.outcome_bind_ok expanded, Work.outcome_bind_ok print,
      Work.outcome_bind_ok splice, Work.outcome_bind_ok (Work.outcome_session _)]
    rfl
  refine ⟨{ k with press := q, memo := m }, ?_, h.settings, h.library, trusted'⟩
  have run := render_eq k now nonce t page data
  rw [show (makePage k.site t page data).outcome (k.desk now nonce) = _ from made] at run
  exact run

end Kit

end Pagewright
