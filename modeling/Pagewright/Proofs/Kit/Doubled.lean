import Pagewright.Proofs.Assembly.Untagged
import Pagewright.Proofs.Kit.Chain
import Pagewright.Proofs.Kit.Single
import Pagewright.Proofs.Lowering.Doubled
import Pagewright.Proofs.Template.Pieces

/-! # Escaped pages

A page in which every at sign is doubled prints the text with single at signs
(`Kit.Kept.render_doubled`).  An at sign is printed by a raw block of its own, and such a block is
told apart from the text around it unless that text ends in a curly bracket.

Main definition: `Escaped`. -/

namespace Pagewright

open Text Directive Lowering Assembly Template

/-! ### At signs in raw blocks -/

namespace Template

/-- The text in front of the first at sign, and each at sign with the text behind it. -/
def atStretches : Text → Text × List (Text × Text)
  | [] => ([], [])
  | c :: r =>
    if c = '@' then ([], (['@'], (atStretches r).1) :: (atStretches r).2)
    else (c :: (atStretches r).1, (atStretches r).2)

theorem protect_at : protect "@" = rawOpen ++ ("@".toList ++ rawClose) := rfl

theorem shielded_eq : ∀ t : Text, shielded t = interleaved (atStretches t).1 (atStretches t).2
  | [] => rfl
  | c :: r => by
      have ih := shielded_eq r
      unfold shielded at *
      by_cases hc : c = '@'
      · subst hc
        rw [replaceAll_at, ih, protect_at, atStretches, if_pos rfl, interleaved]
        simp only [List.append_assoc, List.nil_append]
        rfl
      · rw [replaceAll_other _ hc, ih, atStretches, if_neg hc]
        cases (atStretches r).2 <;> rfl

theorem spelt_cons (c : Char) (u : Text) (rest : List (Text × Text)) :
    (spelt (c :: u) rest).flatten = c :: (spelt u rest).flatten := by
  cases rest with
  | nil =>
      rw [spelt, spelt, flatten_onePiece, flatten_onePiece]
  | cons p rest =>
      obtain ⟨x, v⟩ := p
      simp only [spelt, List.flatten_append, flatten_onePiece, List.cons_append]

theorem spelt_atStretches : ∀ t : Text,
    (spelt (atStretches t).1 (atStretches t).2).flatten = t
  | [] => rfl
  | c :: r => by
      have ih := spelt_atStretches r
      by_cases hc : c = '@'
      · subst hc
        rw [atStretches, if_pos rfl, spelt, List.flatten_append, List.flatten_append, ih]
        rfl
      · rw [atStretches, if_neg hc, spelt_cons, ih]

theorem atStretches_prefix : ∀ t : Text, (atStretches t).1 <+: t
  | [] => List.prefix_rfl
  | c :: r => by
      rw [atStretches]
      split
      · exact List.nil_prefix
      · exact List.cons_prefix_cons.mpr ⟨rfl, atStretches_prefix r⟩

/-- Behind no text stands the first character of all, which is an at sign then. -/
theorem exists_of_atStretches : ∀ {t : Text}, (atStretches t).1 = [] → (atStretches t).2 ≠ [] →
    ∃ r, t = '@' :: r
  | [], _, h => absurd rfl h
  | c :: r, h, _ => by
      rw [atStretches] at h
      split at h
      · next hc => exact ⟨r, by rw [hc]⟩
      · cases h

/-- Text with at signs is told apart from raw blocks in their place, where none stands behind a
curly bracket. -/
theorem parted_atStretches {d : Dialect} (hd : Exact d) : ∀ {t : Text}, Unopened t →
    ¬ "\x7b@".toList <:+: t → Parted d (atStretches t).1 (atStretches t).2
  | [], hu, _ => hu
  | c :: r, hu, ha => by
      have ih := parted_atStretches hd (hu.of_infix (List.suffix_cons c r).isInfix)
        fun hm => ha (hm.trans (List.suffix_cons c r).isInfix)
      rw [atStretches]
      split
      · have unclosed : Nowhere (rawEnd? d) ['@'] := hd.rawEnd? ▸ by decide
        exact ⟨(by decide : Unopened []), Option.some_ne_none '\x7b' ∘ Eq.symm, unclosed, ih⟩
      · have own : Unopened (c :: (atStretches r).1) := hu.of_infix
          (List.cons_prefix_cons.mpr ⟨rfl, atStretches_prefix r⟩).isInfix
        cases e : (atStretches r).2 with
        | nil => exact own
        | cons p rest =>
            rw [e] at ih
            obtain ⟨-, last, raw, behind⟩ := ih
            refine ⟨own, ?_, raw, behind⟩
            cases eu : (atStretches r).1 with
            | nil =>
                obtain ⟨v, rfl⟩ := exists_of_atStretches eu (e ▸ List.cons_ne_nil p rest)
                intro h
                obtain rfl : c = '\x7b' := Option.some.inj h
                exact ha ⟨[], v, rfl⟩
            | cons x u =>
                rw [eu] at last
                exact last

end Template

/-! ### Include tags -/

namespace Assembly

/-- **No include tag is made** by raw blocks in the place of at signs. -/
theorem nowhere_boundary?_shielded {t : Text} (h : Nowhere boundary? t) :
    Nowhere boundary? (shielded t) := by
  by_cases ha : '@' ∈ t
  · obtain ⟨u, r, rfl, hu⟩ := List.eq_append_cons_of_mem ha
    have front : Nowhere boundary? u := by
      intro w hw
      rw [← boundary?_parted (by decide : Seam '@') w r]
      obtain ⟨v, rfl⟩ := hw
      exact h _ ⟨v, by simp⟩
    have back : Nowhere boundary? (shielded r) :=
      nowhere_boundary?_shielded (h.of_suffix ⟨u ++ ['@'], by simp⟩)
    have raw : '<' ∉ "% raw %\x7d@\x7b% endraw %\x7d".toList := by decide
    rw [shielded, replaceAll_before _ _ hu, replaceAll_at]
    exact nowhere_boundary?_glue (by decide : Seam '\x7b') front raw back
  · have absent : ¬ "@".toList <:+: t := not_infix_of_not_mem ha
    rw [shielded, replaceAll_eq_self _ at_ne_nil absent]
    exact h
termination_by t.length
decreasing_by
  subst_vars
  simp only [List.length_append, List.length_cons]
  omega

end Assembly

/-! ### The page -/

/-- A text that is printed as it is where its at signs are doubled: no delimiter opens in it, it can
be written, it holds no line break that the engine changes, no boundary of an include tag, no marker
and no curly bracket in front of an at sign, and nothing in it would be taken for a placeholder. -/
structure Escaped (t : Text) : Prop where
  unopened : Unopened t
  visible : '\x00' ∉ t
  breaks : '\r' ∉ t
  untagged : Nowhere boundary? t
  unmarked : ¬ markLead <:+: t
  apart : ¬ "\x7b@".toList <:+: t
  unguarded : Unguarded t

theorem Escaped.escapable {t : Text} (h : Escaped t) : Escapable t where
  uncommented := fun hm => h.unopened _ (by decide : "\x7b\x7b".toList ∈ openingLeads)
    ((List.prefix_append _ _).isInfix.trans hm)
  untagged := untagged_of_unopened lettered_raw (h.unopened _ (by decide))
  visible := h.visible
  unguarded := h.unguarded

namespace Kit

variable {s : Settings} {l : Library} {ts : List Text} {k : Kit}

/-- **Doubled at signs are printed as single ones**, and nothing else comes of them: the page is the
text, and nothing is noticed. -/
theorem Kept.render_doubled (h : k.Kept s l ts) (ha : Apart s.delimiters ts) (hs : s.Plain)
    {t : Text} {data : List (Value × Value)} (hd : Named data) (escaped : Escaped t)
    (ht : doubled t ∈ ts) (now : Rat) (nonce page : Text) :
    ∃ k' : Kit, k.render now nonce (doubled t) page data = (.ok ⟨t, page, [], 0⟩, k') ∧
      k'.Kept s l ts := by
  have unextended : named ["extends"] (directives (doubled t)) = [] := by
    rw [directives_doubled]
    rfl
  have flat (d : Desk) : (flatten ⟨l, s.delimiters, s.data⟩ (doubled t) page).outcome d =
      (.ok (doubled t), d) :=
    flatten_bare (stripComments_doubled escaped.escapable) unextended page d
  have lowered := transform_doubled s.delimiters escaped.escapable
  have untagged := includeTags_of_nowhere (nowhere_boundary?_shielded escaped.untagged)
  have breaks : '\r' ∉ interleaved (atStretches t).1 (atStretches t).2 := by
    rw [← shielded_eq]
    exact fun hm => (mem_replaceAll hm).elim (by decide) escaped.breaks
  have compiled := compile_interleaved (hs.exact l)
    (parted_atStretches (hs.exact l) escaped.unopened escaped.apart) breaks
  rw [← shielded_eq] at compiled
  have shown := render_pieces (spelt (atStretches t).1 (atStretches t).2)
    (Kit.fresh s l).press.dialect.sandbox (hs.named hd)
  rw [spelt_atStretches] at shown
  obtain ⟨k', printed, kept⟩ := h.render_single ha hs.depth ht flat lowered untagged compiled shown
    now nonce
  rw [collect_eq_self escaped.unmarked] at printed
  exact ⟨k', printed, kept⟩

/-- A text with runs of at signs, directives, addresses and single brackets. -/
def handles : Text :=
  "@@@if(x) me@home.org @endif @verbatim @ \x7b @@@@ #\x7d <includes @extends('a') @"

set_option maxRecDepth 8000 in
theorem escaped_handles : Escaped handles := by
  refine ⟨?_, ?_, ?_, ?_, ?_, ?_, unguarded_of_absent ?_⟩ <;> decide

theorem render_doubled_handles : Escaped handles ∧
    ∃ k' : Kit, (Kit.fresh {} (.shelf {})).render 0 "5eed" (doubled handles) "page" [] =
      (.ok ⟨handles, "page", [], 0⟩, k') := by
  have fresh := kept_fresh {} (.shelf {}) [doubled handles]
  obtain ⟨k', printed, -⟩ := fresh.render_doubled (apart_single _ _) plain_default
    (nofun : Named []) escaped_handles (List.mem_singleton_self _) 0 "5eed" "page"
  exact ⟨escaped_handles, k', printed⟩

end Kit

end Pagewright
