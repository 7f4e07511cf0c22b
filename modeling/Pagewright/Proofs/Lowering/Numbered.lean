import Pagewright.Proofs.Lowering.Settled
import Pagewright.Proofs.Lowering.Translation

/-! # Drafts with regions

A region is out of reach of the passes: a placeholder with its number stands for it.  So a template
with regions is a draft with gaps, and its source as the passes find it is the draft with the gaps
numbered from some number on (`Draft.numbered`).  The passes number switches and loops, too, and what
they make of a draft tells all these numbers: the translations of one draft in two places are one
text if and only if the places agree in all numbers that the draft uses
(`Draft.translate_numbered_iff`).

Main definitions: `gap`, `numberedParts`, `Draft.numbered`, `Draft.Agree`. -/

namespace Pagewright.Lowering

open Text Directive

/-! ### Gaps -/

/-- What stands for a region in a text without its regions. -/
def gapText : Text := ['\x00']

/-- The part that stands for a region. -/
def gap : Part := .text gapText

theorem call_ne_gap (n g a : Text) : Part.call n g a ≠ gap := by
  unfold gap
  exact nofun

theorem word_ne_gap (n : Text) : Part.word n ≠ gap := by
  unfold gap
  exact nofun

theorem text_eq_gap {t : Text} : Part.text t = gap ↔ t = gapText := by
  rw [gap, Part.text.injEq]

/-- Parts with placeholders in the gaps, numbered from `n` on. -/
def numberedParts : Nat → List Part → List Part
  | _, [] => []
  | n, p :: ps =>
    if p = gap then .text (guardToken n) :: numberedParts (n + 1) ps else p :: numberedParts n ps

theorem numberedParts_append : ∀ (n : Nat) (ps qs : List Part),
    numberedParts n (ps ++ qs) = numberedParts n ps ++ numberedParts (n + ps.count gap) qs
  | n, [], qs => rfl
  | n, p :: ps, qs => by
      rw [List.cons_append, numberedParts, numberedParts]
      split
      · next h =>
        rw [numberedParts_append, h, List.count_cons_self, Nat.add_comm (ps.count gap),
          Nat.add_assoc]
        rfl
      · next h =>
        rw [numberedParts_append, List.count_cons_of_ne h]
        rfl

theorem numberedParts_of_not_mem : ∀ {n : Nat} {ps : List Part}, gap ∉ ps →
    numberedParts n ps = ps
  | _, [], _ => rfl
  | n, p :: ps, h => by
      rw [List.mem_cons, not_or] at h
      rw [numberedParts, if_neg (Ne.symm h.1), numberedParts_of_not_mem h.2]

theorem length_numberedParts : ∀ (n : Nat) (ps : List Part),
    (numberedParts n ps).length = ps.length
  | _, [] => rfl
  | n, p :: ps => by
      rw [numberedParts]
      split
      · exact congrArg (· + 1) (length_numberedParts _ ps)
      · exact congrArg (· + 1) (length_numberedParts _ ps)

theorem named?_numberedParts {x : Text} : ∀ {n : Nat} {ps : List Part},
    (∀ p ∈ ps, p.named? ≠ some x) → ∀ p ∈ numberedParts n ps, p.named? ≠ some x
  | _, [], _ => nofun
  | n, p :: ps, h => by
      obtain ⟨hp, hps⟩ := List.forall_mem_cons.mp h
      rw [numberedParts]
      split
      · exact List.forall_mem_cons.mpr ⟨nofun, named?_numberedParts hps⟩
      · exact List.forall_mem_cons.mpr ⟨hp, named?_numberedParts hps⟩

theorem at_not_mem_guardToken (n : Nat) : '@' ∉ guardToken n := by
  rw [guardToken_eq]
  exact not_mem_append (not_mem_append (by decide) (Foreign.not_mem_ofNat (Or.inl rfl) n))
    (by decide)

namespace Draft

/-! ### Numbering -/

/-- The number of gaps in a draft. -/
def gaps : {b : Bool} → {k : Stretch} → Draft b k → Nat
  | _, _, .done => 0
  | _, _, .text t rest => (if t.text = gapText then 1 else 0) + rest.gaps
  | _, _, .json _ rest => rest.gaps
  | _, _, .leave rest => rest.gaps
  | _, _, .choice _ _ body more rest => body.gaps + more.gaps + rest.gaps
  | _, _, .switch _ lead cases rest => lead.gaps + cases.gaps + rest.gaps
  | _, _, .foreach _ body rest => body.gaps + rest.gaps
  | _, _, .forelse _ body empty rest => body.gaps + empty.gaps + rest.gaps
  | _, _, .close => 0
  | _, _, .elseif _ body more => body.gaps + more.gaps
  | _, _, .otherwise body => body.gaps
  | _, _, .last => 0
  | _, _, .case _ body more => body.gaps + more.gaps
  | _, _, .default body more => body.gaps + more.gaps

/-- The text of a node with a placeholder for a region. -/
def placeholder (n : Nat) : PlainText := ⟨guardToken n, at_not_mem_guardToken n⟩

/-- A draft with placeholders in its gaps, numbered from `n` on. -/
def numbered : Nat → {b : Bool} → {k : Stretch} → Draft b k → Draft b k
  | _, _, _, .done => .done
  | n, _, _, .text t rest =>
    if t.text = gapText then .text (placeholder n) (rest.numbered (n + 1))
    else .text t (rest.numbered n)
  | n, _, _, .json e rest => .json e (rest.numbered n)
  | n, _, _, .leave rest => .leave (rest.numbered n)
  | n, _, _, .choice test e body more rest =>
    .choice test e (body.numbered n) (more.numbered (n + body.gaps))
      (rest.numbered (n + body.gaps + more.gaps))
  | n, _, _, .switch e lead cases rest =>
    .switch e (lead.numbered n) (cases.numbered (n + lead.gaps))
      (rest.numbered (n + lead.gaps + cases.gaps))
  | n, _, _, .foreach h body rest => .foreach h (body.numbered n) (rest.numbered (n + body.gaps))
  | n, _, _, .forelse h body empty rest =>
    .forelse h (body.numbered n) (empty.numbered (n + body.gaps))
      (rest.numbered (n + body.gaps + empty.gaps))
  | _, _, _, .close => .close
  | n, _, _, .elseif e body more => .elseif e (body.numbered n) (more.numbered (n + body.gaps))
  | n, _, _, .otherwise body => .otherwise (body.numbered n)
  | _, _, _, .last => .last
  | n, _, _, .case e body more => .case e (body.numbered n) (more.numbered (n + body.gaps))
  | n, _, _, .default body more => .default (body.numbered n) (more.numbered (n + body.gaps))

theorem count_gap_call (n g a : Text) (ps : List Part) :
    (Part.call n g a :: ps).count gap = ps.count gap :=
  List.count_cons_of_ne (call_ne_gap n g a)

theorem count_gap_word (n : Text) (ps : List Part) : (Part.word n :: ps).count gap = ps.count gap :=
  List.count_cons_of_ne (word_ne_gap n)

theorem count_gap_text (t : Text) (ps : List Part) :
    (Part.text t :: ps).count gap = (if t = gapText then 1 else 0) + ps.count gap := by
  split
  · next h =>
    rw [h, gap, List.count_cons_self, Nat.add_comm]
  · next h =>
    rw [List.count_cons_of_ne (mt text_eq_gap.mp h), Nat.zero_add]

theorem count_gap : ∀ {b : Bool} {k : Stretch} (f : Draft b k), f.parts.count gap = f.gaps
  | _, _, .done => rfl
  | _, _, .text t rest => by rw [parts, count_gap_text, rest.count_gap, gaps]
  | _, _, .json _ rest => (count_gap_call ..).trans rest.count_gap
  | _, _, .leave rest => (count_gap_word ..).trans rest.count_gap
  | _, _, .choice _ _ body more rest => by
      rw [parts, count_gap_call, List.count_append, List.count_append, count_gap_word, body.count_gap,
        more.count_gap, rest.count_gap, gaps, Nat.add_assoc]
  | _, _, .switch _ lead cases rest => by
      rw [parts, count_gap_call, List.count_append, List.count_append, count_gap_word, lead.count_gap,
        cases.count_gap, rest.count_gap, gaps, Nat.add_assoc]
  | _, _, .foreach _ body rest => by
      rw [parts, count_gap_call, List.count_append, count_gap_word, body.count_gap, rest.count_gap,
        gaps]
  | _, _, .forelse _ body empty rest => by
      rw [parts, count_gap_call, List.count_append, count_gap_word, List.count_append, count_gap_word,
        body.count_gap, empty.count_gap, rest.count_gap, gaps, Nat.add_assoc]
  | _, _, .close => rfl
  | _, _, .elseif _ body more => by
      rw [parts, count_gap_call, List.count_append, body.count_gap, more.count_gap, gaps]
  | _, _, .otherwise body => (count_gap_word ..).trans body.count_gap
  | _, _, .last => rfl
  | _, _, .case _ body more => by
      rw [parts, count_gap_call, List.count_append, body.count_gap, more.count_gap, gaps]
  | _, _, .default body more => by
      rw [parts, count_gap_word, List.count_append, body.count_gap, more.count_gap, gaps]

theorem numberedParts_call (m : Nat) (n g a : Text) (ps : List Part) :
    numberedParts m (.call n g a :: ps) = .call n g a :: numberedParts m ps :=
  if_neg (call_ne_gap n g a)

theorem numberedParts_word (m : Nat) (n : Text) (ps : List Part) :
    numberedParts m (.word n :: ps) = .word n :: numberedParts m ps :=
  if_neg (word_ne_gap n)

/-- A numbered draft is written as its parts with placeholders in the gaps. -/
theorem parts_numbered : ∀ {b : Bool} {k : Stretch} (n : Nat) (f : Draft b k),
    (f.numbered n).parts = numberedParts n f.parts
  | _, _, _, .done => rfl
  | _, _, n, .text t rest => by
      rw [numbered, parts, numberedParts]
      simp only [text_eq_gap]
      split
      · rw [parts, rest.parts_numbered]
        rfl
      · rw [parts, rest.parts_numbered]
  | _, _, n, .json e rest => by
      rw [numbered, parts, parts, numberedParts_call, rest.parts_numbered]
  | _, _, n, .leave rest => by
      rw [numbered, parts, parts, numberedParts_word, rest.parts_numbered]
  | _, _, n, .choice test e body more rest => by
      rw [numbered, parts, parts, numberedParts_call, numberedParts_append, numberedParts_append,
        numberedParts_word, body.count_gap, more.count_gap, body.parts_numbered, more.parts_numbered,
        rest.parts_numbered]
  | _, _, n, .switch e lead cases rest => by
      rw [numbered, parts, parts, numberedParts_call, numberedParts_append, numberedParts_append,
        numberedParts_word, lead.count_gap, cases.count_gap, lead.parts_numbered,
        cases.parts_numbered, rest.parts_numbered]
  | _, _, n, .foreach h body rest => by
      rw [numbered, parts, parts, numberedParts_call, numberedParts_append, numberedParts_word,
        body.count_gap, body.parts_numbered, rest.parts_numbered]
  | _, _, n, .forelse h body empty rest => by
      rw [numbered, parts, parts, numberedParts_call, numberedParts_append, numberedParts_word,
        numberedParts_append, numberedParts_word, body.count_gap, empty.count_gap,
        body.parts_numbered, empty.parts_numbered, rest.parts_numbered]
  | _, _, _, .close => rfl
  | _, _, n, .elseif e body more => by
      rw [numbered, parts, parts, numberedParts_call, numberedParts_append, body.count_gap,
        body.parts_numbered, more.parts_numbered]
  | _, _, n, .otherwise body => by
      rw [numbered, parts, parts, numberedParts_word, body.parts_numbered]
  | _, _, _, .last => rfl
  | _, _, n, .case e body more => by
      rw [numbered, parts, parts, numberedParts_call, numberedParts_append, body.count_gap,
        body.parts_numbered, more.parts_numbered]
  | _, _, n, .default body more => by
      rw [numbered, parts, parts, numberedParts_word, numberedParts_append, body.count_gap,
        body.parts_numbered, more.parts_numbered]

/-- Numbering changes neither the switches nor the loops. -/
theorem counts_numbered : ∀ {b : Bool} {k : Stretch} (n : Nat) (f : Draft b k),
    (f.numbered n).switches = f.switches ∧ (f.numbered n).loops = f.loops
  | _, _, _, .done => ⟨rfl, rfl⟩
  | _, _, n, .text t rest => by
      rw [numbered]
      split
      · exact rest.counts_numbered _
      · exact rest.counts_numbered _
  | _, _, n, .json e rest => rest.counts_numbered n
  | _, _, n, .leave rest => rest.counts_numbered n
  | _, _, n, .choice test e body more rest => by
      simp only [numbered, switches, loops, body.counts_numbered, more.counts_numbered,
        rest.counts_numbered, and_self]
  | _, _, n, .switch e lead cases rest => by
      simp only [numbered, switches, loops, lead.counts_numbered, cases.counts_numbered,
        rest.counts_numbered, and_self]
  | _, _, n, .foreach h body rest => by
      simp only [numbered, switches, loops, body.counts_numbered, rest.counts_numbered, and_self]
  | _, _, n, .forelse h body empty rest => by
      simp only [numbered, switches, loops, body.counts_numbered, empty.counts_numbered,
        rest.counts_numbered, and_self]
  | _, _, _, .close => ⟨rfl, rfl⟩
  | _, _, n, .elseif e body more => by
      simp only [numbered, switches, loops, body.counts_numbered, more.counts_numbered, and_self]
  | _, _, n, .otherwise body => body.counts_numbered n
  | _, _, _, .last => ⟨rfl, rfl⟩
  | _, _, n, .case e body more => by
      simp only [numbered, switches, loops, body.counts_numbered, more.counts_numbered, and_self]
  | _, _, n, .default body more => by
      simp only [numbered, switches, loops, body.counts_numbered, more.counts_numbered, and_self]

@[simp] theorem past_numbered {b : Bool} {k : Stretch} (c : Context) (n : Nat) (f : Draft b k) :
    c.past (f.numbered n) = c.past f := by
  rw [Context.past, Context.past, (f.counts_numbered n).1, (f.counts_numbered n).2]

end Draft

/-! ### Numbers in tags -/

theorem guardToken_append_iff {n n' : Nat} {r r' : Text} :
    guardToken n ++ r = guardToken n' ++ r' ↔ n = n' ∧ r = r' := by
  constructor
  · intro h
    rw [guardToken_eq, guardToken_eq] at h
    simp only [List.append_assoc, List.append_cancel_left_eq, List.singleton_append] at h
    exact ofNat_append_inj (by decide) h
  · rintro ⟨rfl, rfl⟩
    rfl

/-- The number of a switch can be told from a tag that names its subject. -/
theorem subject_append_iff (lead : Text) {middle : Text} (hm : ∃ more, middle = ' ' :: more)
    (e trail : Text) {n n' : Nat} {r r' : Text} :
    tag (lead ++ (switchSubject n ++ (middle ++ (e ++ trail)))) ++ r =
      tag (lead ++ (switchSubject n' ++ (middle ++ (e ++ trail)))) ++ r' ↔ n = n' ∧ r = r' := by
  obtain ⟨more, rfl⟩ := hm
  constructor
  · intro h
    unfold tag switchSubject at h
    generalize ("\x7b% ".toList : Text) = opening at h
    generalize (" %\x7d".toList : Text) = closing at h
    generalize ("_hk_switch_".toList : Text) = name at h
    simp only [List.append_assoc, List.cons_append] at h
    have numbers := List.append_cancel_left (List.append_cancel_left (List.append_cancel_left h))
    obtain ⟨rfl, rest⟩ := ofNat_append_inj (by decide) numbers
    simp only [List.append_cancel_left_eq] at rest
    exact ⟨rfl, rest⟩
  · rintro ⟨rfl, rfl⟩
    rfl

/-- Whether a loop stands in another one, and in how many, as its tags say it. -/
theorem around_append_inj {comma r r' : Text} (hc : ∃ more, comma = ',' :: more) {o o' : Nat}
    (h : (if o = 0 then ("none" : Text) else "loop") ++ (comma ++ (ofNat (o + 1) ++ (comma ++ r))) =
      (if o' = 0 then ("none" : Text) else "loop") ++ (comma ++ (ofNat (o' + 1) ++ (comma ++ r')))) :
    o = o' ∧ r = r' := by
  obtain ⟨more, rfl⟩ := hc
  have words : ∀ u v : Text, "none".toList ++ u ≠ "loop".toList ++ v := fun u v e =>
    absurd (List.cons.inj e).1 (by decide)
  have numbers : ∀ {w : Text}, w ++ (',' :: more ++ (ofNat (o + 1) ++ (',' :: more ++ r))) =
      w ++ (',' :: more ++ (ofNat (o' + 1) ++ (',' :: more ++ r'))) → o = o' ∧ r = r' := by
    intro w e
    have behind := List.append_cancel_left (List.append_cancel_left e)
    obtain ⟨same, rest⟩ := ofNat_append_inj (by decide) behind
    exact ⟨Nat.succ.inj same, List.append_cancel_left rest⟩
  by_cases first : o = 0
  · by_cases second : o' = 0
    · rw [if_pos first, if_pos second] at h
      exact numbers h
    · rw [if_pos first, if_neg second] at h
      exact absurd h (words _ _)
  · by_cases second : o' = 0
    · rw [if_neg first, if_pos second] at h
      exact absurd h.symm (words _ _)
    · rw [if_neg first, if_neg second] at h
      exact numbers h

/-- The number of a loop and that of the loops around it can be told from its tags. -/
theorem loopOpening_append_iff (h : LoopHeader) {n n' o o' : Nat} {r r' : Text} :
    loopOpening n o h ++ r = loopOpening n' o' h ++ r' ↔ (n = n' ∧ o = o') ∧ r = r' := by
  constructor
  · intro e
    unfold loopOpening tag at e
    obtain ⟨header, hh⟩ : ∃ header, " in _hk_iterate((".toList = ' ' :: header := ⟨_, rfl⟩
    have hc : ∃ more, ", ".toList = ',' :: more := ⟨_, rfl⟩
    generalize (" in _hk_iterate((".toList : Text) = within at e hh
    generalize (", ".toList : Text) = comma at e hc
    generalize ("\x7b% ".toList : Text) = opening at e
    generalize (" %\x7d".toList : Text) = closing at e
    generalize ("_hk_row_".toList : Text) = row at e
    subst hh
    simp only [List.append_assoc, List.cons_append] at e
    have first := List.append_cancel_left (List.append_cancel_left (List.append_cancel_left e))
    obtain ⟨rfl, rest⟩ := ofNat_append_inj (by decide) first
    have depths := List.append_cancel_left (List.append_cancel_left (List.append_cancel_left rest))
    obtain ⟨rfl, rest⟩ := around_append_inj hc depths
    -- What follows repeats the number of the loop, which is the same by now.
    simp only [List.append_cancel_left_eq] at rest
    exact ⟨⟨rfl, rfl⟩, rest⟩
  · rintro ⟨⟨rfl, rfl⟩, rfl⟩
    rfl

namespace Draft

/-! ### Numbers in translations -/

/-- Two places agree in all numbers that a draft uses: those of its regions, of its switches, and of
its loops and the loops around them. -/
structure Agree {b : Bool} {k : Stretch} (f : Draft b k) (n n' : Nat) (c c' : Context) : Prop where
  regions : f.gaps = 0 ∨ n = n'
  switches : f.switches = 0 ∨ c.switches = c'.switches
  loops : f.loops = 0 ∨ c.loops = c'.loops ∧ c.depth = c'.depth

theorem agree_iff {b : Bool} {k : Stretch} {f : Draft b k} {n n' : Nat} {c c' : Context} :
    f.Agree n n' c c' ↔ (f.gaps = 0 ∨ n = n') ∧ (f.switches = 0 ∨ c.switches = c'.switches) ∧
      (f.loops = 0 ∨ c.loops = c'.loops ∧ c.depth = c'.depth) :=
  ⟨fun ⟨hr, hs, hl⟩ => ⟨hr, hs, hl⟩, fun ⟨hr, hs, hl⟩ => ⟨hr, hs, hl⟩⟩

/-- What is no case names no subject. -/
theorem uncased {p : Prop} (h : Stretch.body = .cases) : p := by cases h

theorem uncased' {p : Prop} (h : Stretch.branches = .cases) : p := by cases h

/-- **The translation of a draft tells the numbers that it uses**, and no others: in two places and in
front of two texts it reads the same if and only if the places agree and the texts are the same.  By
induction over the tree: what comes first is the same, and so tells its numbers, and then the rest is
the same. -/
theorem translate_append_iff (ds : Delimiters) : ∀ {b : Bool} {k : Stretch} (f : Draft b k)
    {n n' : Nat} {c c' : Context} {r r' : Text}, (k = .cases → c.subject = c'.subject) →
      ((f.numbered n).translate ds c ++ r = (f.numbered n').translate ds c' ++ r' ↔
        f.Agree n n' c c' ∧ r = r')
  | _, _, .done, n, n', c, c', r, r', _ =>
      ⟨fun h => ⟨⟨Or.inl rfl, Or.inl rfl, Or.inl rfl⟩, h⟩, fun h => h.2⟩
  | _, _, .text t rest, n, n', c, c', r, r', _ => by
      rw [numbered, numbered]
      by_cases h : t.text = gapText
      · rw [if_pos h, if_pos h, translate, translate, List.append_assoc, List.append_assoc]
        refine guardToken_append_iff.trans ?_
        rw [rest.translate_append_iff ds uncased, ← and_assoc]
        refine and_congr_left' ?_
        simp only [agree_iff, gaps, switches, loops, if_pos h]
        omega
      · rw [if_neg h, if_neg h, translate, translate, List.append_assoc, List.append_assoc,
          List.append_cancel_left_eq, rest.translate_append_iff ds uncased]
        refine and_congr_left' ?_
        simp only [agree_iff, gaps, switches, loops, if_neg h, Nat.zero_add]
  | _, _, .json e rest, n, n', c, c', r, r', _ => by
      rw [numbered, numbered, translate, translate, List.append_assoc, List.append_assoc,
        List.append_cancel_left_eq, rest.translate_append_iff ds uncased]
      exact and_congr_left' (by simp only [agree_iff, gaps, switches, loops])
  | _, _, .leave rest, n, n', c, c', r, r', _ => by
      rw [numbered, numbered, translate, translate, rest.translate_append_iff ds uncased]
      exact and_congr_left' (by simp only [agree_iff, gaps, switches, loops])
  | _, _, .choice test e body more rest, n, n', c, c', r, r', _ => by
      simp only [numbered, translate, List.append_assoc, List.append_cancel_left_eq, past_numbered]
      rw [body.translate_append_iff ds uncased, more.translate_append_iff ds uncased',
        List.append_cancel_left_eq, rest.translate_append_iff ds uncased, ← and_assoc, ← and_assoc]
      refine and_congr_left' ?_
      simp only [agree_iff, gaps, switches, loops, Context.past]
      omega
  | _, _, .switch e lead cases rest, n, n', c, c', r, r', _ => by
      simp only [numbered, translate, List.append_assoc, past_numbered]
      have spaced : ∃ more, " = (".toList = ' ' :: more := ⟨_, rfl⟩
      rw [subject_append_iff _ spaced, List.append_cancel_left_eq,
        lead.translate_append_iff ds uncased]
      -- The cases name the subject of the switch, which is the same if the number of the switch is.
      have inside : c.switches + 1 = c'.switches + 1 → Stretch.cases = Stretch.cases →
          (c.inSwitch.past lead).subject = (c'.inSwitch.past lead).subject := fun h _ => h
      rw [and_congr_right fun h => and_congr_right' (cases.translate_append_iff ds (inside h)),
        List.append_cancel_left_eq, rest.translate_append_iff ds uncased, ← and_assoc, ← and_assoc,
        ← and_assoc]
      refine and_congr_left' ?_
      simp only [agree_iff, gaps, switches, loops, Context.past, Context.inSwitch,
        Context.pastSwitch]
      omega
  | _, _, .foreach h body rest, n, n', c, c', r, r', _ => by
      simp only [numbered, translate, List.append_assoc, past_numbered]
      rw [loopOpening_append_iff, body.translate_append_iff ds uncased, List.append_cancel_left_eq,
        List.append_cancel_left_eq, rest.translate_append_iff ds uncased, ← and_assoc, ← and_assoc]
      refine and_congr_left' ?_
      simp only [agree_iff, gaps, switches, loops, Context.past, Context.inLoop, Context.pastLoop]
      omega
  | _, _, .forelse h body empty rest, n, n', c, c', r, r', _ => by
      simp only [numbered, translate, List.append_assoc, past_numbered]
      rw [loopOpening_append_iff, body.translate_append_iff ds uncased, List.append_cancel_left_eq,
        List.append_cancel_left_eq, empty.translate_append_iff ds uncased, List.append_cancel_left_eq,
        rest.translate_append_iff ds uncased, ← and_assoc, ← and_assoc, ← and_assoc]
      refine and_congr_left' ?_
      simp only [agree_iff, gaps, switches, loops, Context.past, Context.inLoop, Context.pastLoop]
      omega
  | _, _, .close, n, n', c, c', r, r', _ =>
      ⟨fun h => ⟨⟨Or.inl rfl, Or.inl rfl, Or.inl rfl⟩, h⟩, fun h => h.2⟩
  | _, _, .elseif e body more, n, n', c, c', r, r', _ => by
      simp only [numbered, translate, List.append_assoc, List.append_cancel_left_eq, past_numbered]
      rw [body.translate_append_iff ds uncased, more.translate_append_iff ds uncased', ← and_assoc]
      refine and_congr_left' ?_
      simp only [agree_iff, gaps, switches, loops, Context.past]
      omega
  | _, _, .otherwise body, n, n', c, c', r, r', _ => by
      rw [numbered, numbered, translate, translate, List.append_assoc, List.append_assoc,
        List.append_cancel_left_eq, body.translate_append_iff ds uncased]
      exact and_congr_left' (by simp only [agree_iff, gaps, switches, loops])
  | _, _, .last, n, n', c, c', r, r', _ =>
      ⟨fun h => ⟨⟨Or.inl rfl, Or.inl rfl, Or.inl rfl⟩, h⟩, fun h => h.2⟩
  | _, _, .case e body more, n, n', c, c', r, r', hc => by
      have behind : Stretch.cases = Stretch.cases →
          (c.past body).subject = (c'.past body).subject := hc
      simp only [numbered, translate, List.append_assoc, hc rfl, List.append_cancel_left_eq,
        past_numbered]
      rw [body.translate_append_iff ds uncased, more.translate_append_iff ds behind, ← and_assoc]
      refine and_congr_left' ?_
      simp only [agree_iff, gaps, switches, loops, Context.past]
      omega
  | _, _, .default body more, n, n', c, c', r, r', hc => by
      have behind : Stretch.cases = Stretch.cases →
          (c.past body).subject = (c'.past body).subject := hc
      simp only [numbered, translate, List.append_assoc, List.append_cancel_left_eq, past_numbered]
      rw [body.translate_append_iff ds uncased, more.translate_append_iff ds behind, ← and_assoc]
      refine and_congr_left' ?_
      simp only [agree_iff, gaps, switches, loops, Context.past]
      omega

/-- **The translations of a draft in two places** are one text if and only if the places agree. -/
theorem translate_numbered_iff (ds : Delimiters) {b : Bool} (f : Draft b .body) {n n' : Nat}
    {c c' : Context} :
    (f.numbered n).translate ds c = (f.numbered n').translate ds c' ↔ f.Agree n n' c c' := by
  constructor
  · intro h
    exact ((f.translate_append_iff ds uncased).mp (congrArg (· ++ ([] : Text)) h)).1
  · intro h
    have same : (f.numbered n).translate ds c ++ ([] : Text) =
        (f.numbered n').translate ds c' ++ [] := (f.translate_append_iff ds uncased).mpr ⟨h, rfl⟩
    exact List.append_cancel_right same

end Draft

end Pagewright.Lowering
