import Pagewright.Lowering.Guard
import Pagewright.Proofs.Directive.Balance
import Pagewright.Proofs.Lowering.Passes
import Pagewright.Proofs.Lowering.Plain
import Pagewright.Proofs.Text.Replace

/-! # Raw blocks

The recogniser of keyword tags accepts exactly the ways to write such a tag (`keywordTag?_shown`,
`exists_of_keywordTag?`), and a raw block is an opening tag, text without a closing tag, and a
closing tag.  Whatever follows it, a raw block is recognised whole (`region?_shown`), and every
region that is recognised is a raw block or a verbatim block (`region?_cases`).  Swapping doubled at
signs for sentinels, or back, leaves a raw block a raw block (`RawBlock.shown_replaced`), since its
tags hold neither.

Main definitions: `KeywordTag`, `Untagged`, `Mark`, `RawBlock`. -/

namespace Pagewright.Lowering

open Text

/-! ### Hyphens and blanks -/

/-- A hyphen, or nothing. -/
def hyphen (b : Bool) : Text := if b then "-" else []

theorem dropHyphen_append (b : Bool) {t : Text} (h : t.head? ≠ some '-') :
    (dropLead? "-" (hyphen b ++ t)).getD (hyphen b ++ t) = t := by
  cases b with
  | true =>
      rw [hyphen, if_pos rfl, dropLead?_append]
      rfl
  | false =>
      have e : dropLead? "-" t = none := dropLead?_eq_none_of_head? h
      rw [hyphen, if_neg Bool.false_ne_true, List.nil_append, e]
      rfl

theorem exists_hyphen (t : Text) : ∃ b, t = hyphen b ++ (dropLead? "-" t).getD t := by
  cases h : dropLead? "-" t with
  | none => exact ⟨false, rfl⟩
  | some r => exact ⟨true, eq_append_of_dropLead? h⟩

theorem exists_blank (t : Text) : ∃ u, isBlank u = true ∧ t = u ++ stripLeft t :=
  ⟨t.takeWhile isSpace, List.all_takeWhile, List.takeWhile_append_dropWhile.symm⟩

/-! ### Tags of one keyword -/

theorem isSpace_of_isAsciiLetter {c : Char} (h : isAsciiLetter c = true) :
    c ≠ '-' ∧ isSpace c = false := by
  rw [isAsciiLetter, Bool.or_eq_true, Bool.and_eq_true, Bool.and_eq_true, decide_eq_true_eq,
    decide_eq_true_eq, decide_eq_true_eq, decide_eq_true_eq] at h
  have range : (97 ≤ c.toNat ∧ c.toNat ≤ 122) ∨ (65 ≤ c.toNat ∧ c.toNat ≤ 90) := h
  constructor
  · rintro rfl
    exact absurd range (by decide)
  · simp only [isSpace, Bool.or_eq_false_iff, Bool.and_eq_false_iff, beq_eq_false_iff_ne,
      decide_eq_false_iff_not]
    omega

/-- A word of plain letters. -/
structure Lettered (keyword : Text) : Prop where
  given : keyword ≠ []
  letters : keyword.all isAsciiLetter = true

instance (keyword : Text) : Decidable (Lettered keyword) :=
  decidable_of_iff (keyword ≠ [] ∧ keyword.all isAsciiLetter = true)
    ⟨fun ⟨given, letters⟩ => ⟨given, letters⟩, fun h => ⟨h.given, h.letters⟩⟩

theorem lettered_raw : Lettered "raw" := ⟨by decide, by decide⟩

theorem lettered_endraw : Lettered "endraw" := ⟨by decide, by decide⟩

theorem Lettered.isAsciiLetter {keyword : Text} (hk : Lettered keyword) {c : Char}
    (hc : c ∈ keyword) : isAsciiLetter c = true := List.all_eq_true.mp hk.letters c hc

theorem Lettered.head {keyword : Text} (hk : Lettered keyword) :
    ∃ c, c ≠ '-' ∧ isSpace c = false ∧ ∀ r, (keyword ++ r).head? = some c := by
  cases keyword with
  | nil => exact absurd rfl hk.given
  | cons c k =>
      obtain ⟨hdash, hspace⟩ := isSpace_of_isAsciiLetter (hk.isAsciiLetter List.mem_cons_self)
      exact ⟨c, hdash, hspace, fun r => rfl⟩

/-- A way to write the tag of a keyword. -/
structure KeywordTag (keyword : Text) where
  before : Bool
  lead : Text
  trail : Text
  behind : Bool
  lead_blank : isBlank lead = true
  trail_blank : isBlank trail = true

namespace KeywordTag

variable {keyword : Text} (g : KeywordTag keyword)

/-- A tag behind its first curly bracket. -/
def inside : Text :=
  '%' :: (hyphen g.before ++ (g.lead ++ (keyword ++ (g.trail ++ (hyphen g.behind ++ "%\x7d")))))

/-- A tag as it is written. -/
def shown : Text := '\x7b' :: g.inside

theorem getLast?_shown : g.shown.getLast? = some '\x7d' := by
  have e : g.shown = ('\x7b' :: '%' :: (hyphen g.before ++ (g.lead ++ (keyword ++ (g.trail ++
      (hyphen g.behind ++ "%")))))) ++ ['\x7d'] := by simp [shown, inside]
  rw [e, List.getLast?_concat]

/-- A tag holds signs of its own, blanks and letters. -/
theorem not_mem_inside (hk : Lettered keyword) {c : Char} (hc : c ∉ "%-\x7d".toList)
    (hs : isSpace c = false) (hl : isAsciiLetter c = false) : c ∉ g.inside := by
  have dash : ∀ b, c ∉ hyphen b := by
    intro b hb
    cases b with
    | true => exact hc (List.mem_cons_of_mem '%' (List.mem_append_left ['\x7d'] hb))
    | false => cases hb
  have blank : ∀ u, isBlank u = true → c ∉ u := fun u hu hm =>
    Bool.false_ne_true (hs.symm.trans (List.all_eq_true.mp hu c hm))
  have letter : c ∉ keyword := fun hm => Bool.false_ne_true (hl.symm.trans (hk.isAsciiLetter hm))
  have stop : c ∉ "%\x7d".toList := fun hm => hc (by revert hm; simp; tauto)
  simp only [inside, List.mem_cons, List.mem_append, not_or]
  exact ⟨fun e => hc (e ▸ List.mem_cons_self), dash _, blank _ g.lead_blank, letter,
    blank _ g.trail_blank, dash _, stop⟩

end KeywordTag

variable {keyword : Text}

/-- A tag is recognised, whatever follows it. -/
theorem keywordTag?_shown (hk : Lettered keyword) (g : KeywordTag keyword) (r : Text) :
    keywordTag? keyword (g.shown ++ r) = some ((), g.shown.length) := by
  obtain ⟨c, hdash, hspace, hhead⟩ := hk.head
  -- What is still to be read behind the keyword, and from the first hyphen on.
  obtain ⟨close, hclose⟩ : ∃ close : Text, close = "%\x7d".toList ++ r := ⟨_, rfl⟩
  obtain ⟨rest, hrest⟩ : ∃ rest, rest = keyword ++ (g.trail ++ (hyphen g.behind ++ close)) :=
    ⟨_, rfl⟩
  have opened : g.shown ++ r = "\x7b%".toList ++ (hyphen g.before ++ (g.lead ++ rest)) := by
    rw [hrest, hclose]
    simp [KeywordTag.shown, KeywordTag.inside]
  have hbefore : (dropLead? "-" (hyphen g.before ++ (g.lead ++ rest))).getD
      (hyphen g.before ++ (g.lead ++ rest)) = g.lead ++ rest := by
    refine dropHyphen_append g.before ?_
    rw [List.head?_append, hrest, hhead]
    cases hl : g.lead with
    | nil => simpa using hdash
    | cons d u =>
        have hd := List.all_eq_true.mp g.lead_blank d (hl ▸ List.mem_cons_self)
        rintro e
        obtain rfl : d = '-' := Option.some.inj e
        cases hd
  have hlead : stripLeft (g.lead ++ rest) = rest :=
    Directive.stripLeft_append g.lead_blank (by rw [hrest, hhead]; exact hspace)
  have htrail : stripLeft (g.trail ++ (hyphen g.behind ++ close)) = hyphen g.behind ++ close := by
    refine Directive.stripLeft_append g.trail_blank ?_
    rw [hclose]
    cases g.behind <;> rfl
  have hbehind : (dropLead? "-" (hyphen g.behind ++ close)).getD (hyphen g.behind ++ close) =
      close := dropHyphen_append g.behind (by rw [hclose]; simp)
  unfold keywordTag?
  rw [opened, dropLead?_append]
  simp only [Option.bind_eq_bind, Option.bind_some, hbefore, hlead]
  rw [hrest, dropLead?_append]
  simp only [Option.bind_some, htrail, hbehind]
  rw [hclose, dropLead?_append]
  simp only [Option.bind_some, Option.pure_def, Option.some.injEq, Prod.mk.injEq, true_and]
  rw [← hclose, ← hrest, ← opened, List.length_append, Nat.add_sub_cancel]

/-- **A tag is recognised exactly where one is written.** -/
theorem exists_of_keywordTag? {t : Text} {n : Nat} (h : keywordTag? keyword t = some ((), n)) :
    ∃ (g : KeywordTag keyword) (r : Text), t = g.shown ++ r ∧ n = g.shown.length := by
  unfold keywordTag? at h
  obtain ⟨t₁, h₁, h⟩ := Option.bind_eq_some_iff.mp h
  obtain ⟨before, e₁⟩ := exists_hyphen t₁
  obtain ⟨lead, hlead, e₂⟩ := exists_blank ((dropLead? "-" t₁).getD t₁)
  obtain ⟨t₂, h₂, h⟩ := Option.bind_eq_some_iff.mp h
  obtain ⟨trail, htrail, e₃⟩ := exists_blank t₂
  obtain ⟨behind, e₄⟩ := exists_hyphen (stripLeft t₂)
  obtain ⟨r, h₃, h⟩ := Option.bind_eq_some_iff.mp h
  let g : KeywordTag keyword := ⟨before, lead, trail, behind, hlead, htrail⟩
  have shown : t = g.shown ++ r := by
    rw [eq_append_of_dropLead? h₁, e₁, e₂, eq_append_of_dropLead? h₂, e₃, e₄,
      eq_append_of_dropLead? h₃]
    simp [g, KeywordTag.shown, KeywordTag.inside]
  refine ⟨g, r, shown, ?_⟩
  obtain rfl : t.length - r.length = n := by simpa using h
  rw [shown, List.length_append, Nat.add_sub_cancel]

theorem keywordTag?_eq_none_iff (hk : Lettered keyword) {t : Text} :
    keywordTag? keyword t = none ↔ ∀ g : KeywordTag keyword, ¬ g.shown <+: t := by
  constructor
  · rintro h g ⟨r, rfl⟩
    rw [keywordTag?_shown hk] at h
    cases h
  · intro h
    cases hf : keywordTag? keyword t with
    | none => rfl
    | some found =>
        obtain ⟨g, r, rfl, -⟩ := exists_of_keywordTag? hf
        exact absurd (List.prefix_append g.shown r) (h g)

/-! ### Texts without a tag -/

/-- The characters that end an open stretch: a tag cannot go past a curly bracket or a null
character. -/
def Ends (r : Text) : Prop := ∀ c, r.head? = some c → c = '\x7b' ∨ c = '\x00'

/-- A tag that begins in an open stretch ends there. -/
theorem keywordTag?_ahead (hk : Lettered keyword) {c : Char} {v r : Text} (hr : Ends r)
    (h : keywordTag? keyword (c :: v) = none) : keywordTag? keyword (c :: (v ++ r)) = none := by
  rw [keywordTag?_eq_none_iff hk] at h ⊢
  intro g hg
  obtain ⟨rfl, hin⟩ := List.cons_prefix_cons.mp hg
  refine h g (List.cons_prefix_cons.mpr ⟨rfl, ?_⟩)
  cases r with
  | nil => rwa [List.append_nil] at hin
  | cons d r =>
      refine prefix_of_not_mem ?_ hin
      obtain rfl | rfl := hr d rfl <;> exact g.not_mem_inside hk (by decide) (by decide) (by decide)

/-- A text in which no tag of a keyword stands. -/
abbrev Untagged (keyword t : Text) : Prop := Nowhere (keywordTag? keyword) t

theorem untagged_iff (hk : Lettered keyword) {t : Text} :
    Untagged keyword t ↔ ∀ g : KeywordTag keyword, ¬ g.shown <:+: t := by
  constructor
  · intro h g hg
    obtain ⟨v, hp, hv⟩ := List.infix_iff_prefix_suffix.mp hg
    exact (keywordTag?_eq_none_iff hk).mp (h v hv) g hp
  · intro h v hv
    exact (keywordTag?_eq_none_iff hk).mpr fun g hg => h g (hg.isInfix.trans hv.isInfix)

/-- What stands for something in a text: it starts with a character that no tag holds, and holds no
curly brackets. -/
structure Mark (t : Text) : Prop where
  lead : ∃ x more, t = x :: more ∧ Foreign x
  unopened : '\x7b' ∉ t
  unclosed : '\x7d' ∉ t

theorem mark_at : Mark "@" := ⟨⟨_, _, rfl, Or.inl rfl⟩, by decide, by decide⟩

theorem mark_doubled : Mark "@@" := ⟨⟨_, _, rfl, Or.inl rfl⟩, by decide, by decide⟩

theorem mark_sentinel : Mark atSentinel := ⟨⟨_, _, rfl, Or.inr rfl⟩, by decide, by decide⟩

variable {old new : Text}

theorem Mark.ne_nil (h : Mark old) : old ≠ [] := by
  obtain ⟨x, more, rfl, -⟩ := h.lead
  exact List.cons_ne_nil x more

theorem KeywordTag.foreign_not_mem (hk : Lettered keyword) (g : KeywordTag keyword) {x : Char}
    (hx : Foreign x) : x ∉ g.inside := by
  obtain rfl | rfl := hx <;> exact g.not_mem_inside hk (by decide) (by decide) (by decide)

theorem KeywordTag.foreign_not_mem_shown (hk : Lettered keyword) (g : KeywordTag keyword) {x : Char}
    (hx : Foreign x) : x ∉ g.shown := by
  intro hm
  obtain rfl | hm := List.mem_cons.mp hm
  · obtain h | h := hx <;> cases h
  · exact g.foreign_not_mem hk hx hm

theorem untagged_of_unopened (hk : Lettered keyword) {t : Text} (h : ¬ "\x7b%".toList <:+: t) :
    Untagged keyword t :=
  (untagged_iff hk).mpr fun g hg =>
    h (((List.prefix_append _ _).isInfix : "\x7b%".toList <:+: g.shown).trans hg)

theorem Untagged.replaceAll (hk : Lettered keyword) (ho : Mark old) (hn : Mark new) {t : Text}
    (h : Untagged keyword t) : Untagged keyword (Text.replaceAll old new t) := by
  rw [untagged_iff hk] at h ⊢
  intro g hg
  obtain ⟨x, more, rfl, hx⟩ := hn.lead
  exact h g (infix_of_replaceAll ho.ne_nil hn.unopened (g.foreign_not_mem hk hx) hg)

/-! ### Raw blocks -/

/-- A raw block: an opening tag, text without a closing tag, and a closing tag. -/
structure RawBlock where
  opener : KeywordTag "raw"
  inner : Text
  closer : KeywordTag "endraw"
  unclosed : Untagged "endraw" inner

namespace RawBlock

variable (b : RawBlock)

/-- A raw block as it is written. -/
def shown : Text := b.opener.shown ++ (b.inner ++ b.closer.shown)

theorem getLast?_shown : b.shown.getLast? = some '\x7d' := by
  rw [shown, List.getLast?_append, List.getLast?_append, b.closer.getLast?_shown]
  rfl

theorem shown_ne_nil : b.shown ≠ [] := List.cons_ne_nil _ _

/-- The tags of a raw block hold no null character. -/
theorem visible (h : '\x00' ∉ b.inner) : '\x00' ∉ b.shown :=
  not_mem_append (b.opener.foreign_not_mem_shown lettered_raw (Or.inr rfl))
    (not_mem_append h (b.closer.foreign_not_mem_shown lettered_endraw (Or.inr rfl)))

/-- A raw block with one mark replaced by another. -/
def replaced (ho : Mark old) (hn : Mark new) : RawBlock :=
  ⟨b.opener, replaceAll old new b.inner, b.closer, b.unclosed.replaceAll lettered_endraw ho hn⟩

theorem shown_replaced (ho : Mark old) (hn : Mark new) :
    (b.replaced ho hn).shown = replaceAll old new b.shown := by
  obtain ⟨x, more, rfl, hx⟩ := ho.lead
  have hopen : x ∉ b.opener.shown := b.opener.foreign_not_mem_shown lettered_raw hx
  have hclose : x ∉ b.closer.inside := b.closer.foreign_not_mem lettered_endraw hx
  have ne := ho.ne_nil
  calc (b.replaced ho hn).shown
      = b.opener.shown ++ (replaceAll (x :: more) new b.inner ++ '\x7b' :: b.closer.inside) := rfl
    _ = replaceAll (x :: more) new b.opener.shown ++
          (replaceAll (x :: more) new b.inner ++
            '\x7b' :: replaceAll (x :: more) new b.closer.inside) := by
        rw [replaceAll_eq_self new ne (not_infix_of_not_mem hopen),
          replaceAll_eq_self new ne (not_infix_of_not_mem hclose)]
    _ = replaceAll (x :: more) new b.shown := by
        rw [← replaceAll_parted ne new ho.unopened,
          ← replaceAll_behind ne new ho.unclosed b.opener.getLast?_shown]
        rfl

end RawBlock

/-! ### Regions -/

/-- **A raw block is recognised whole, whatever follows it.** -/
theorem region?_shown (b : RawBlock) (r : Text) :
    region? (b.shown ++ r) = some (.raw b.shown, b.shown.length) := by
  have opened := keywordTag?_shown lettered_raw b.opener (b.inner ++ b.closer.shown ++ r)
  have closed := keywordTag?_shown lettered_endraw b.closer r
  have ends : Ends (b.closer.shown ++ r) := fun c hc => Or.inl (Option.some.inj hc).symm
  have first := firstHit?_append closed (u := b.inner) fun c v hv =>
    keywordTag?_ahead lettered_endraw ends (b.unclosed _ hv)
  have e : b.shown ++ r = b.opener.shown ++ (b.inner ++ b.closer.shown ++ r) :=
    List.append_assoc ..
  have hlen : b.opener.shown.length + b.inner.length + b.closer.shown.length = b.shown.length := by
    rw [RawBlock.shown, List.length_append, List.length_append, Nat.add_assoc]
  unfold region?
  rw [e, opened]
  simp only [List.drop_left, List.append_assoc, first, Option.bind_eq_bind, Option.bind_some,
    Option.pure_def, hlen]
  rw [← List.append_assoc b.inner, ← List.append_assoc b.opener.shown, ← RawBlock.shown,
    List.take_left]

theorem exists_of_wholeWord? {word t : Text} {n : Nat} (h : wholeWord? word t = some ((), n)) :
    ∃ r, t = word ++ r ∧ n = word.length ∧ (r.head?.map isWord).getD false = false := by
  unfold wholeWord? at h
  obtain ⟨r, hr, h⟩ := Option.bind_eq_some_iff.mp h
  refine ⟨r, eq_append_of_dropLead? hr, ?_⟩
  split at h
  · cases h
  · next hw =>
    exact ⟨(congrArg Prod.snd (Option.some.inj h)).symm, Bool.eq_false_iff.mpr hw⟩

theorem untagged_of_append (hk : Lettered keyword) {t r : Text}
    (h : ∀ c v, c :: v <:+ t → keywordTag? keyword (c :: v ++ r) = none) : Untagged keyword t := by
  rintro (_ | ⟨c, v⟩) hv
  · rfl
  · rw [keywordTag?_eq_none_iff hk]
    intro g hg
    exact (keywordTag?_eq_none_iff hk).mp (h c v hv) g (hg.trans (List.prefix_append _ r))

/-- **A region is a raw block, or the inside of a verbatim block.** -/
theorem region?_cases {t : Text} {x : Region} {n : Nat} (h : region? t = some (x, n)) :
    (∃ (b : RawBlock) (r : Text), t = b.shown ++ r ∧ x = .raw b.shown ∧ n = b.shown.length) ∨
      ∃ inner r, t = "@verbatim".toList ++ (inner ++ ("@endverbatim".toList ++ r)) ∧
        x = .verbatim inner ∧ n = 9 + inner.length + 12 := by
  unfold region? at h
  split at h
  · next opened ho =>
    obtain ⟨g, v, rfl, rfl⟩ := exists_of_keywordTag? ho
    rw [List.drop_left] at h
    obtain ⟨⟨i, ⟨⟩, closed⟩, hi, h⟩ := Option.bind_eq_some_iff.mp h
    obtain ⟨inner, w, rfl, rfl, hc, quiet⟩ := exists_of_firstHit? hi
    obtain ⟨g', r, rfl, rfl⟩ := exists_of_keywordTag? hc
    let b : RawBlock := ⟨g, inner, g', untagged_of_append lettered_endraw quiet⟩
    have whole : g.shown ++ (inner ++ (g'.shown ++ r)) = b.shown ++ r := by
      simp only [b, RawBlock.shown, List.append_assoc]
    have len : g.shown.length + inner.length + g'.shown.length = b.shown.length := by
      simp only [b, RawBlock.shown, List.length_append, Nat.add_assoc]
    refine Or.inl ⟨b, r, whole, ?_⟩
    simp only [whole, len, List.take_left] at h
    obtain ⟨e, length⟩ := Prod.mk.inj (Option.some.inj h)
    exact ⟨e.symm, length.symm⟩
  · obtain ⟨⟨⟨⟩, opened⟩, ho, h⟩ := Option.bind_eq_some_iff.mp h
    obtain ⟨v, rfl, rfl, -⟩ := exists_of_wholeWord? ho
    simp only [List.drop_left] at h
    obtain ⟨⟨i, ⟨⟩, closed⟩, hi, h⟩ := Option.bind_eq_some_iff.mp h
    obtain ⟨inner, w, rfl, rfl, hc, -⟩ := exists_of_firstHit? hi
    obtain ⟨r, rfl, rfl, -⟩ := exists_of_wholeWord? hc
    refine Or.inr ⟨inner, r, rfl, ?_⟩
    simp only [slice, List.drop_left, Nat.add_sub_cancel_left, List.take_left] at h
    obtain ⟨e, length⟩ := Prod.mk.inj (Option.some.inj h)
    exact ⟨e.symm, length.symm⟩

/-! ### Doubled at signs, there and back -/

/-- What was swapped for sentinels is swapped back. -/
theorem unescape_escape {t : Text} : '\x00' ∉ t → unescapeMarkers (escapeMarkers t) = t := by
  unfold unescapeMarkers escapeMarkers
  induction t using occurrence_induction mark_doubled.ne_nil with
  | nil => intro _; rfl
  | hit r ih =>
      intro h
      have hr : '\x00' ∉ r := fun hm => h (List.mem_append_right _ hm)
      rw [replaceAll_hit mark_doubled.ne_nil, replaceAll_hit mark_sentinel.ne_nil, ih hr]
  | char c r hc ih =>
      intro h
      obtain ⟨hc0, hr⟩ : '\x00' ≠ c ∧ '\x00' ∉ r := by simpa using h
      have hs : ¬ atSentinel <+: c :: replaceAll "@@" atSentinel r := fun hp =>
        hc0 (List.cons_prefix_cons.mp hp).1
      rw [replaceAll_char mark_doubled.ne_nil _ hc, replaceAll_char mark_sentinel.ne_nil _ hs, ih hr]

/-- A stretch between characters that no sentinel holds is swapped back to what it was. -/
theorem not_mem_unescape {t u v w : Text} {x y : Char} (ht : '\x00' ∉ t) (hx : x ∉ atSentinel)
    (hy : y ∉ atSentinel) (h : escapeMarkers t = u ++ x :: (v ++ y :: w)) :
    '\x00' ∉ unescapeMarkers v := by
  obtain ⟨_, t', rfl, -, h'⟩ := replaceAll_cut mark_doubled.ne_nil _ hx t h
  obtain ⟨v', _, rfl, rfl, -⟩ := replaceAll_cut mark_doubled.ne_nil _ hy t' h'
  have hv : '\x00' ∉ v' := by
    intro hm
    exact ht (by simp [hm])
  exact (unescape_escape hv).symm ▸ hv

/-- Text that is protected, as a raw block. -/
def RawBlock.protecting (t : Text) (h : Untagged "endraw" t) : RawBlock :=
  ⟨⟨false, " ", " ", false, by decide, by decide⟩, t,
    ⟨false, " ", " ", false, by decide, by decide⟩, h⟩

theorem RawBlock.shown_protecting {t : Text} (h : Untagged "endraw" t) (ht : t ≠ []) :
    (protecting t h).shown = protect t := by
  have he : ¬ t.isEmpty = true := fun e => ht (List.isEmpty_iff.mp e)
  rw [protect, if_neg he, List.append_assoc]
  rfl

end Pagewright.Lowering
