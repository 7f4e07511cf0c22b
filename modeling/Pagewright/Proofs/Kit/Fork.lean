import Pagewright.Proofs.Assembly.Untagged
import Pagewright.Proofs.Kit.Single
import Pagewright.Proofs.Lowering.RawBlock
import Pagewright.Proofs.Lowering.Translation
import Pagewright.Proofs.Template.Fork
import Pagewright.Proofs.Text.Parted

/-! # A condition with two branches

Plain text, a condition on the value named `c` with plain text in both branches, and plain text
behind it: the rewriting leaves the four texts where they are and puts a tag in the place of each
directive (`transform_fork`), whatever characters the texts end and begin with, as long as none
continues the name of a directive.

Main definitions: `forkParts`, `forkSource`. -/

namespace Pagewright.Lowering

open Text Directive

/-- A condition on the value named `c`, with text around it and in both branches. -/
def forkParts (p a b q : Text) : List Part :=
  [.text p, .call "if" [] "c", .text a, .word "else", .text b, .word "endif", .text q]

/-- Such a condition as it is written. -/
def forkSource (p a b q : Text) : Text :=
  p ++ ("@if(c)" ++ (a ++ ("@else" ++ (b ++ ("@endif" ++ q)))))

theorem shownAll_forkParts (p a b q : Text) :
    shownAll (forkParts p a b q) = forkSource p a b q := by
  simp [forkParts, forkSource, Part.shown]

/-- A text that leaves the name of a directive in front of it as it is. -/
def Detached (t : Text) : Prop := (t.head?.map isWord).getD false = false ∧ t.head? ≠ some '.'

instance (t : Text) : Decidable (Detached t) := inferInstanceAs (Decidable (_ ∧ _))

theorem Detached.endsName {t r : Text} (h : Detached t) (hr : ∀ c ∈ r.head?, c = '@') :
    endsName (t ++ r) = true := by
  refine endsName_append (endsName_iff.mpr ⟨h.1, ?_⟩) hr
  cases t with
  | nil => rfl
  | cons c t => exact continuesAddress_of_ne t fun e => h.2 (congrArg some e)

/-- No part of such a condition runs into the next one. -/
theorem legible_fork {p a b q : Text} (single : ∀ t ∈ [p, a, b, q], '@' ∉ t) (hb : Detached b)
    (hq : Detached q) : Legible (forkParts p a b q) := by
  simp only [List.forall_mem_cons, List.not_mem_nil, false_implies, implies_true, and_true] at single
  obtain ⟨hp, ha, hb', hq'⟩ := single
  have inert : Balanced "c" := .of_inert (by decide)
  have behind : Detached q → endsName (shownAll [.text q]) = true := by
    intro h
    exact h.endsName nofun
  have between : endsName (shownAll [.text b, .word "endif", .text q]) = true :=
    hb.endsName fun _ e => (Option.some.inj e).symm
  refine ⟨hp, ⟨by decide, by decide, by decide, inert, by decide, ha, ?_⟩⟩
  exact ⟨by decide, between, Or.inl (by decide), hb', by decide, behind hq, Or.inl (by decide), hq',
    trivial⟩

/-- Such a condition in engine syntax. -/
def forkTags (p a b q : Text) : Text :=
  p ++ (tag "if c" ++ (a ++ (tag "else" ++ (b ++ (tag "endif" ++ q)))))

theorem runs_fork (ds : Delimiters) (p a b q : Text) :
    Runs ds ({}, {}) (forkParts p a b q) (forkTags p a b q) ({}, {}) := by
  have condition := lowered_choice ds {} {} .whether (e := "c") (by decide)
  have last : Runs ds ({}, {}) [.text q] (q ++ []) ({}, {}) := .cons (lowered_text ..) .nil
  rw [List.append_nil] at last
  have otherwise : Runs ds ({}, {}) [.text b, .word "endif", .text q] (b ++ (tag "endif" ++ q))
      ({}, {}) := .cons (lowered_text ..) (.cons (lowered_closer ds {} {} .whether) last)
  have branches : Runs ds ({}, {}) [.text a, .word "else", .text b, .word "endif", .text q]
      (a ++ (tag "else" ++ (b ++ (tag "endif" ++ q)))) ({}, {}) :=
    .cons (lowered_text ..) (.cons (lowered_else ds {} {}) otherwise)
  exact .cons (lowered_text ..) (.cons condition branches)

/-! ### What the texts do not hold -/

theorem not_mem_forkTags {x : Char} {p a b q : Text} (h : ∀ t ∈ [p, a, b, q], x ∉ t)
    (hx : ∀ t ∈ [tag "if c", tag "else", tag "endif"], x ∉ t) : x ∉ forkTags p a b q := by
  simp only [List.forall_mem_cons, List.not_mem_nil, false_implies, implies_true, and_true] at h hx
  obtain ⟨hp, ha, hb, hq⟩ := h
  obtain ⟨condition, otherwise, last⟩ := hx
  exact not_mem_append hp (not_mem_append condition (not_mem_append ha (not_mem_append otherwise
    (not_mem_append hb (not_mem_append last hq)))))

theorem not_infix_forkSource {stretch p a b q : Text} (h : ∀ t ∈ [p, a, b, q], ¬ stretch <:+: t)
    (hs : ∀ x ∈ "@if(c)@else@endif".toList, x ∉ stretch) :
    ¬ stretch <:+: forkSource p a b q := by
  simp only [List.forall_mem_cons, List.not_mem_nil, false_implies, implies_true, and_true] at h
  obtain ⟨hp, ha, hb, hq⟩ := h
  have foreign : ∀ w : Text, w ⊆ "@if(c)@else@endif".toList → ∀ x ∈ w, x ∉ stretch :=
    fun w hw x hx => hs x (hw hx)
  intro hm
  obtain hm | hm := infix_around (by decide) (foreign "@if(c)" (by decide)) hm
  · exact hp hm
  obtain hm | hm := infix_around (by decide) (foreign "@else" (by decide)) hm
  · exact ha hm
  obtain hm | hm := infix_around (by decide) (foreign "@endif" (by decide)) hm
  · exact hb hm
  · exact hq hm

/-! ### The rewriting -/

/-- Texts that can stand around and in a condition: they hold no directive and nothing that the
rewriting reads, and none continues the name in front of it. -/
structure Forkable (p a b q : Text) : Prop where
  single : ∀ t ∈ [p, a, b, q], '@' ∉ t
  visible : ∀ t ∈ [p, a, b, q], '\x00' ∉ t
  uncommented : ∀ t ∈ [p, a, b, q], ¬ "\x7b\x7b".toList <:+: t
  untagged : ∀ t ∈ [p, a, b, q], ¬ "\x7b%".toList <:+: t
  branch : Detached b
  behind : Detached q

variable {p a b q : Text}

theorem Forkable.stripComments_eq (h : Forkable p a b q) :
    stripComments (forkSource p a b q) = forkSource p a b q := by
  have uncommented : ¬ "\x7b\x7b".toList <:+: forkSource p a b q :=
    not_infix_forkSource h.uncommented (by simp)
  exact stripComments_eq_self fun hm => uncommented ((List.prefix_append _ "--").isInfix.trans hm)

/-- The directives of a condition are its own. -/
theorem Forkable.unextended (h : Forkable p a b q) :
    named ["extends"] (directives (forkSource p a b q)) = [] := by
  rw [← shownAll_forkParts, directives_shownAll (legible_fork h.single h.branch h.behind)]
  rfl

/-- **A condition with two branches is rewritten** to tags in the place of its directives. -/
theorem transform_fork (ds : Delimiters) (h : Forkable p a b q) :
    transform ds (forkSource p a b q) = .ok (forkTags p a b q) := by
  have legible := legible_fork h.single h.branch h.behind
  have untagged : ¬ "\x7b%".toList <:+: forkSource p a b q :=
    not_infix_forkSource h.untagged (by simp)
  have uncommented := h.stripComments_eq
  have raw : Untagged "raw" (forkSource p a b q) := untagged_of_unopened lettered_raw untagged
  have given : '@' ∈ forkSource p a b q := by simp [forkSource]
  have single : '@' ∉ forkTags p a b q := not_mem_forkTags h.single (by decide)
  have visible : '\x00' ∉ forkTags p a b q := not_mem_forkTags h.visible (by decide)
  rw [← shownAll_forkParts] at *
  have unguarded : .word "verbatim" ∉ forkParts p a b q := by simp [forkParts]
  exact transform_shownAll ds legible uncommented (guardRegions_shownAll legible raw unguarded) given
    (runs_fork ds p a b q).1 single
    visible

end Pagewright.Lowering

/-! ## Text around directives

A page with a condition between plain texts prints the text in front of it, the branch that the
value picks, and the text behind it, as they are written (`Kit.Kept.render_fork`): no text changes
the meaning of the directive beside it.  The tags of the engine stand right beside the texts, so a
text that ends in a curly bracket is excluded in front of a directive.

Main definition: `Prose`. -/

namespace Pagewright

open Text Directive Lowering Assembly Template

/-- Plain text: it holds no directive, no delimiter of the engine, no boundary of an include tag,
nothing that cannot be written, and no line break that the engine changes. -/
structure Prose (t : Text) : Prop where
  single : '@' ∉ t
  unopened : Unopened t
  visible : '\x00' ∉ t
  breaks : '\r' ∉ t
  untagged : Nowhere boundary? t

instance (t : Text) : Decidable (Prose t) :=
  decidable_of_iff ('@' ∉ t ∧ Unopened t ∧ '\x00' ∉ t ∧ '\r' ∉ t ∧ Nowhere boundary? t)
    ⟨fun ⟨single, unopened, visible, breaks, untagged⟩ =>
        ⟨single, unopened, visible, breaks, untagged⟩,
      fun h => ⟨h.single, h.unopened, h.visible, h.breaks, h.untagged⟩⟩

section Texts

variable {p a b q : Text}

theorem forkable_prose (h : ∀ t ∈ [p, a, b, q], Prose t) (hb : Detached b) (hq : Detached q) :
    Forkable p a b q where
  single t ht := (h t ht).single
  visible t ht := (h t ht).visible
  uncommented t ht := (h t ht).unopened _ (by decide)
  untagged t ht := (h t ht).unopened _ (by decide)
  branch := hb
  behind := hq

/-- What the rewriting makes of the source is the template that the engine reads. -/
theorem forkTags_eq (p a b q : Text) : forkTags p a b q = fork p a b q := rfl

/-- **No include tag is made** by tags of the engine between plain texts. -/
theorem nowhere_boundary?_forkTags (h : ∀ t ∈ [p, a, b, q], Prose t) :
    Nowhere boundary? (forkTags p a b q) := by
  simp only [List.forall_mem_cons, List.not_mem_nil, false_implies, implies_true, and_true] at h
  obtain ⟨hp, ha, hb, hq⟩ := h
  have seam : Seam '\x7b' := by decide
  have last := nowhere_boundary?_glue (w := "% endif %\x7d") seam hb.untagged (by decide)
    hq.untagged
  have branches := nowhere_boundary?_glue (w := "% else %\x7d") seam ha.untagged (by decide) last
  exact nowhere_boundary?_glue (w := "% if c %\x7d") seam hp.untagged (by decide) branches

end Texts

namespace Kit

variable {s : Settings} {l : Library} {ts : List Text} {k : Kit}

/-- **A condition between plain texts prints one branch** and leaves everything around it as it is,
without a notice. -/
theorem Kept.render_fork (h : k.Kept s l ts) (ha : Apart s.delimiters ts) (hs : s.Plain)
    {p a b q : Text} (prose : ∀ t ∈ [p, a, b, q], Prose t) (hb : Detached b) (hq : Detached q)
    (closed : ∀ t ∈ [p, a, b], t.getLast? ≠ some '\x7b') {x : Bool} {data : List (Value × Value)}
    (hd : Binds "c" (.bool x) data)
    (unmarked : ¬ markLead <:+: p ++ ((if x then a else b) ++ q)) (ht : forkSource p a b q ∈ ts)
    (now : Rat) (nonce page : Text) :
    ∃ k' : Kit, k.render now nonce (forkSource p a b q) page data =
        (.ok ⟨p ++ ((if x then a else b) ++ q), page, [], 0⟩, k') ∧ k'.Kept s l ts := by
  have forkable := forkable_prose prose hb hq
  have flat (d : Desk) : (flatten ⟨l, s.delimiters, s.data⟩ (forkSource p a b q) page).outcome d =
      (.ok (forkSource p a b q), d) :=
    flatten_bare forkable.stripComments_eq forkable.unextended page d
  have lowered := transform_fork s.delimiters forkable
  have untagged := includeTags_of_nowhere (nowhere_boundary?_forkTags prose)
  rw [forkTags_eq] at lowered untagged
  have breaks : '\r' ∉ fork p a b q :=
    not_mem_forkTags (fun t ht => (prose t ht).breaks) (by decide)
  have stated := stated_fork (fun t ht => (prose t ht).unopened) closed
  obtain ⟨line, compiled⟩ := compile_fork (hs.exact l) stated breaks
  obtain ⟨named, hn, hv, -⟩ := hd.layered hs.data
  have shown := render_forkNodes line p a b q (Kit.fresh s l).press.dialect.sandbox hn
    ((named?_eq_lookup _ named).trans hv)
  obtain ⟨k', printed, kept⟩ := h.render_single ha hs.depth ht flat lowered untagged compiled shown
    now nonce
  rw [collect_eq_self unmarked] at printed
  exact ⟨k', printed, kept⟩

/-- Texts that begin and end with parts of delimiters. -/
def brackets : List Text := ["me\x7b\x7d%", "%\x7d -\n", "(c) \x7b:", " #\x7d <includes \x7b"]

theorem render_fork_brackets : (∀ t ∈ brackets, Prose t) ∧
    ∃ k' : Kit, (Kit.fresh {} (.shelf {})).render 0 "5eed"
        "me\x7b\x7d%@if(c)%\x7d -\n@else(c) \x7b:@endif #\x7d <includes \x7b" "page"
        [(.str "c", .bool false)] =
      (.ok ⟨"me\x7b\x7d%(c) \x7b: #\x7d <includes \x7b", "page", [], 0⟩, k') := by
  have prose : ∀ t ∈ brackets, Prose t := by decide
  have fresh := kept_fresh {} (.shelf {}) [forkSource "me\x7b\x7d%" "%\x7d -\n" "(c) \x7b:"
    " #\x7d <includes \x7b"]
  obtain ⟨k', printed, -⟩ := fresh.render_fork (apart_single _ _) plain_default prose (by decide)
    (by decide) (by decide) (binds_single "c" (.bool false)) (by decide)
    (List.mem_singleton_self _) 0 "5eed" "page"
  exact ⟨prose, k', printed⟩

end Kit

end Pagewright
