import Pagewright.Proofs.Lowering.Translation

/-! # The empty branch of a loop

Between `@empty` and `@endforelse` stands what a loop shows when there is nothing to iterate.  Any text
may stand there and comes out as it is (`transform_forelse`), unless it begins with a round bracket:
then the bracket opens an argument list, and `@empty` is a condition inside of the loop
(`transform_forelse_condition`).  What is looked for before all directives is looked for in the whole
source, so no comment and no region may begin in the header or in one of the texts and end in another.

Main definitions: `forelseSource`, `forelseTags`, `Uncovered`. -/

namespace Pagewright.Lowering

open Text Directive

/-- A loop over the header `h` with the body `a` and the empty branch `b`. -/
def forelseSource (h a b : Text) : Text :=
  "@forelse(" ++ (h ++ (")" ++ (a ++ ("@empty" ++ (b ++ "@endforelse")))))

/-- Such a loop in engine syntax. -/
def forelseTags (h : LoopHeader) (a b : Text) : Text :=
  loopOpening 1 0 h ++ (a ++ (tag "endwith" ++ tag "else" ++ (b ++ tag "endfor")))

/-- No comment and no region stands in a text. -/
structure Uncovered (t : Text) : Prop where
  uncommented : ∀ u, u <:+ t → comment? u = none
  unguarded : ∀ u, u <:+ t → region? u = none

instance (t : Text) : Decidable (Uncovered t) :=
  decidable_of_iff (∀ u ∈ t.tails, comment? u = none ∧ region? u = none) <| by
    constructor
    · intro h
      exact ⟨fun u hu => (h u ((List.mem_tails u t).mpr hu)).1,
        fun u hu => (h u ((List.mem_tails u t).mpr hu)).2⟩
    · intro h u hu
      have hu' := (List.mem_tails u t).mp hu
      exact ⟨h.uncommented u hu', h.unguarded u hu'⟩

theorem Uncovered.stripComments_eq {t : Text} (h : Uncovered t) : stripComments t = t :=
  replaceHits_quiet _ fun _ _ hv => h.uncommented _ hv

theorem Uncovered.guardRegions_eq {t : Text} (h : Uncovered t) : guardRegions t = (t, []) := by
  have quiet : ∀ c v, c :: v <:+ t → region? (c :: v) = none := fun _ _ hv => h.unguarded _ hv
  rw [guardRegions, pieces_quiet quiet, hits_quiet quiet]
  exact congrArg (·, []) (guardPieces_char 0 _)

section Loop

variable {h a b : Text} {header : LoopHeader}

/-! ### What stands in the place of `@empty` -/

/-- A loop with some directive between two texts. -/
def forelseParts (h a : Text) (middle : Part) (b : Text) : List Part :=
  [.call "forelse" [] h, .text a, middle, .text b, .word "endforelse"]

/-- The end of a loop that has begun its empty branch or not. -/
def forelseEnd (emptied : Bool) : Text :=
  if emptied then tag "endfor" else tag "endwith" ++ tag "endfor"

theorem lowered_forelseEnd (ds : Delimiters) (emptied : Bool) :
    lowered ds ({}, ⟨1, [frame true emptied]⟩) (.word "endforelse") =
      (.text (forelseEnd emptied), ({}, ⟨1, []⟩)) := by
  cases emptied <;> rfl

/-- A loop with a directive between two texts, of which the passes make a tag: the texts stay as they
are. -/
theorem transform_forelseParts (ds : Delimiters) (emptied : Bool) {middle : Part} {t : Text}
    (read : loopHeader? h = some header) (balanced : Balanced h)
    (plain : ∀ x, Foreign x → ∀ u ∈ [h, a, b, t], x ∉ u) (sound : middle.Sound)
    (separated : Separated [middle, .text b, .word "endforelse"])
    (lower : lowered ds ({}, ⟨1, [frame true false]⟩) middle =
      (.text t, ({}, ⟨1, [frame true emptied]⟩)))
    (uncovered : Uncovered (shownAll (forelseParts h a middle b))) :
    transform ds (shownAll (forelseParts h a middle b)) =
      .ok (loopOpening 1 0 header ++ (a ++ (t ++ (b ++ forelseEnd emptied)))) := by
  have foreign : ∀ x, Foreign x →
      x ∉ loopOpening 1 0 header ++ (a ++ (t ++ (b ++ forelseEnd emptied))) := by
    intro x hx
    obtain ⟨hh, ha, hb, ht, -⟩ : x ∉ h ∧ x ∉ a ∧ x ∉ b ∧ x ∉ t ∧ True := by
      simpa using plain x hx
    obtain ⟨collection, target⟩ := hx.not_mem_header read hh
    have ends : x ∉ forelseEnd emptied := by cases emptied <;> exact hx.not_mem rfl
    exact not_mem_append (hx.not_mem_loopOpening 1 0 collection target)
      (not_mem_append ha (not_mem_append ht (not_mem_append hb ends)))
  have single : ∀ u ∈ [h, a, b], '@' ∉ u := by
    intro u hu
    exact plain '@' (Or.inl rfl) u (List.mem_append_left [t] hu)
  have legible : Legible (forelseParts h a middle b) := by
    refine legible_iff.mpr ⟨?_, separated⟩
    simp only [forelseParts, List.forall_mem_cons]
    refine ⟨⟨by decide, by decide, rfl, balanced, single h (by simp)⟩, single a (by simp), sound,
      single b (by simp), ?_, nofun⟩
    exact (by decide : name? "endforelse" = some "endforelse".toList)
  have run : Runs ds ({}, {}) (forelseParts h a middle b)
      (loopOpening 1 0 header ++ (a ++ (t ++ (b ++ (forelseEnd emptied ++ []))))) ({}, ⟨1, []⟩) :=
    Runs.cons (lowered_forelse ds {} {} read) (Runs.cons (lowered_text ds _ _ a)
      (Runs.cons lower (Runs.cons (lowered_text ds _ _ b)
        (Runs.cons (lowered_forelseEnd ds emptied) Runs.nil))))
  rw [List.append_nil] at run
  have given : '@' ∈ shownAll (forelseParts h a middle b) := List.mem_cons_self
  exact transform_shownAll ds legible uncovered.stripComments_eq uncovered.guardRegions_eq given
    run.1 (foreign '@' (Or.inl rfl)) (foreign '\x00' (Or.inr rfl))

/-! ### The empty branch and the condition -/

theorem not_mem_of_plain {us : List Text} (plain : ∀ u ∈ us, '@' ∉ u ∧ '\x00' ∉ u) {x : Char}
    (hx : Foreign x) : ∀ u ∈ us, x ∉ u := by
  intro u hu
  obtain rfl | rfl := hx
  · exact (plain u hu).1
  · exact (plain u hu).2

theorem shownAll_forelse (h a b : Text) :
    shownAll (forelseParts h a (.word "empty") b) = forelseSource h a b := by
  have opening : "@forelse(".toList = '@' :: ("forelse".toList ++ ['(']) := by decide
  have bracket : ")".toList = [')'] := rfl
  have middle : "@empty".toList = '@' :: "empty".toList := by decide
  have closing : "@endforelse".toList = '@' :: "endforelse".toList := by decide
  unfold forelseSource
  simp only [opening, bracket, middle, closing, forelseParts, shownAll_cons, shownAll_nil, Part.shown,
    List.cons_append, List.append_assoc, List.nil_append, List.append_nil]

theorem shownAll_condition (h a gap e b : Text) :
    shownAll (forelseParts h a (.call "empty" gap e) b) =
      forelseSource h a (gap ++ '(' :: (e ++ ')' :: b)) := by
  rw [← shownAll_forelse]
  simp only [forelseParts, shownAll_cons, shownAll_nil, Part.shown, List.cons_append, List.append_assoc,
    List.nil_append, List.append_nil]

/-- **The empty branch of a loop holds any text**, but for one that begins with a round bracket. -/
theorem transform_forelse (ds : Delimiters) (read : loopHeader? h = some header)
    (balanced : Balanced h) (plain : ∀ u ∈ [h, a, b], '@' ∉ u ∧ '\x00' ∉ u)
    (ends : endsName b = true) (bare : (b.dropWhile isGap).head? ≠ some '(')
    (uncovered : Uncovered (forelseSource h a b)) :
    transform ds (forelseSource h a b) = .ok (forelseTags header a b) := by
  have tagged : ∀ x, Foreign x → ∀ u ∈ [h, a, b, tag "endwith" ++ tag "else"], x ∉ u := by
    intro x hx
    have texts := not_mem_of_plain plain hx
    simp only [List.forall_mem_cons] at texts ⊢
    obtain ⟨hh, ha, hb, -⟩ := texts
    exact ⟨hh, ha, hb, hx.not_mem rfl, nofun⟩
  have separated : Separated [.word "empty", .text b, .word "endforelse"] := by
    refine ⟨endsName_append ends (by simp [Part.shown]), Or.inr ?_, ?_⟩
    · rw [opensArguments]
      split
      · decide
      · next c r e =>
        rw [e] at bare
        exact beq_false_of_ne fun hc => bare (congrArg some hc)
    · exact ⟨by decide, by decide, trivial⟩
  have name : Part.Sound (.word "empty") := (by decide : name? "empty" = some "empty".toList)
  rw [← shownAll_forelse] at uncovered ⊢
  exact transform_forelseParts ds true read balanced tagged name separated
    (lowered_empty ds _ _ _) uncovered

/-- A text that speaks of brackets further on is an empty branch. -/
theorem transform_forelse_later :
    transform {} (forelseSource "f(xs) as x" "a" " none (b)") =
      .ok (forelseTags ⟨"f(xs)", "x", false⟩ "a" " none (b)") := by
  have balanced : Balanced ('f' :: '(' :: ("xs" ++ ')' :: " as x")) :=
    .char rfl rfl rfl (.bracket rfl (.of_inert (by decide)) (.of_inert (by decide)))
  have spelled : "f(xs) as x".toList = 'f' :: '(' :: ("xs" ++ ')' :: " as x") := by decide
  rw [← spelled] at balanced
  exact transform_forelse {} (by decide +kernel) balanced (by decide) (by decide) (by decide)
    (by decide +kernel)

/-- **A bracket behind `@empty` makes a condition of it**, and the loop has no empty branch. -/
theorem transform_forelse_condition (ds : Delimiters) {gap e : Text}
    (read : loopHeader? h = some header) (balanced : Balanced h)
    (plain : ∀ u ∈ [h, a, b, e], '@' ∉ u ∧ '\x00' ∉ u) (blanks : gap.all isGap = true)
    (expression : Balanced e) (given : isBlank e = false)
    (uncovered : Uncovered (forelseSource h a (gap ++ '(' :: (e ++ ')' :: b)))) :
    transform ds (forelseSource h a (gap ++ '(' :: (e ++ ')' :: b))) =
      .ok (loopOpening 1 0 header ++ (a ++ (tag ("if not (" ++ strip e ++ ")") ++
        (b ++ (tag "endwith" ++ tag "endfor"))))) := by
  have tagged : ∀ x, Foreign x → ∀ u ∈ [h, a, b, tag ("if not (" ++ strip e ++ ")")], x ∉ u := by
    intro x hx
    have texts := not_mem_of_plain plain hx
    simp only [List.forall_mem_cons] at texts ⊢
    obtain ⟨hh, ha, hb, he, -⟩ := texts
    refine ⟨hh, ha, hb, hx.not_mem_tag ?_, nofun⟩
    exact not_mem_append (not_mem_append (hx.not_mem rfl) (not_mem_strip he)) (hx.not_mem rfl)
  have call : Part.Sound (.call "empty" gap e) :=
    ⟨by decide, by decide, blanks, expression, (plain e (by simp)).1⟩
  have lower : lowered ds ({}, ⟨1, [frame true false]⟩) (.call "empty" gap e) =
      (.text (tag ("if not (" ++ strip e ++ ")")), ({}, ⟨1, [frame true false]⟩)) :=
    lowered_of_conditional ds rfl rfl (conditionalTag?_condition given (by decide) _ _)
  rw [← shownAll_condition] at uncovered ⊢
  exact transform_forelseParts ds false read balanced tagged call
    ⟨by decide, by decide, trivial⟩ lower uncovered

/-- A loop of which nothing forbidden stands in its parts, and that is rewritten to something else. -/
def Astray (h a b : Text) : Prop :=
  ∃ header, loopHeader? h = some header ∧ Balanced h ∧ (∀ u ∈ [h, a, b], '@' ∉ u ∧ '\x00' ∉ u) ∧
    Uncovered a ∧ Uncovered b ∧ endsName b = true ∧
      transform {} (forelseSource h a b) ≠ .ok (forelseTags header a b)

/-- A bracket in front of the branch, a comment in the header and a raw block in the header each lead
to something else. -/
theorem forelse_astray :
    Astray "xs as x" "a" "(b)" ∧ Astray "['\x7b\x7b--c--\x7d\x7d'] as x" "a" " b" ∧
      Astray "['\x7b% raw %\x7da  b\x7b% endraw %\x7d'] as x" "a" " b" := by
  have listed : ∀ q inner : Text, '\'' ∉ inner → '\\' ∉ inner → q.all isInert = true →
      Balanced ('[' :: ('\'' :: (inner ++ ['\'']) ++ ']' :: q)) := by
    intro q inner single plain inert
    exact .bracket rfl (.literal rfl (quoted_plain single plain).1 .nil) (.of_inert inert)
  refine ⟨⟨⟨"xs", "x", false⟩, by decide +kernel, .of_inert (by decide), by decide, by decide +kernel,
    by decide +kernel, by decide, by decide +kernel⟩, ?_, ?_⟩
  · refine ⟨⟨"['\x7b\x7b--c--\x7d\x7d']", "x", false⟩, by decide +kernel, ?_, by decide, by decide +kernel,
      by decide +kernel, by decide, by decide +kernel⟩
    exact listed " as x" "\x7b\x7b--c--\x7d\x7d" (by decide) (by decide) (by decide)
  · refine ⟨⟨"['\x7b% raw %\x7da b\x7b% endraw %\x7d']", "x", false⟩, by decide +kernel, ?_, by decide,
      by decide +kernel, by decide +kernel, by decide, by decide +kernel⟩
    exact listed " as x" "\x7b% raw %\x7da  b\x7b% endraw %\x7d" (by decide) (by decide) (by decide)

end Loop

end Pagewright.Lowering
