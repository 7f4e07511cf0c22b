import Pagewright.Assembly.Collection
import Pagewright.Proofs.Text.Parted
import Pagewright.Proofs.Text.Scan

/-! # Reading markers

A marker is read back from how it is written, whatever follows it (`markerRest?_name`,
`fragmentMarker?_shown`, `stackPlace?_marker`).  A bracket stands at the beginning of a marker only, so
what is recognised in front of a bracket does not depend on what follows the bracket
(`fragmentMarker?_parted`, `stackPlace?_parted`, `onceMark?_parted`).  And what is read as a marker is one
as it is written (`eq_of_fragmentMarker?`, `eq_of_stackPlace?`).

Main definitions: `MarkerName`, `onceMark?`, `AtBracket`. -/

/-! ## Pages without markers

A page in which no marker is recognised is collected as it is (`Markless.collect`).  Every marker
starts with one lead, so a page that does not hold the lead is such a page (`collect_eq_self`). -/

namespace Pagewright.Assembly

open Text Lowering

/-- Keys are compared as texts. -/
theorem lawfulBEq_text : LawfulBEq Text := inferInstance

/-- What every marker starts with. -/
def markLead : Text := "<!--hk:"

theorem dropLead?_marker {t lead : Text} (kind : Text) (h : ¬ markLead <+: t)
    (hl : lead = markLead ++ kind) : dropLead? lead t = none := by
  rw [dropLead?_eq_none, hl]
  exact fun hp => h ((List.prefix_append _ _).trans hp)

theorem once?_eq_none {t : Text} (h : ¬ markLead <+: t) : once? t = none := by
  have hd : dropLead? "<!--hk:once:" t = none := dropLead?_marker "once:" h rfl
  unfold once?
  rw [hd]
  rfl

theorem fragmentMarker?_eq_none {t : Text} (h : ¬ markLead <+: t) : fragmentMarker? t = none := by
  have hd : dropLead? "<!--hk:" t = none := dropLead?_marker [] h rfl
  unfold fragmentMarker?
  rw [hd]
  rfl

theorem stackPlace?_eq_none {t : Text} (h : ¬ markLead <+: t) : stackPlace? t = none := by
  have hd : dropLead? "<!--hk:stack:" t = none := dropLead?_marker "stack:" h rfl
  unfold stackPlace?
  rw [hd]
  rfl

variable {t : Text}

/-- Nowhere in a text is a once block, a marker of a fragment or the place of a stack recognised. -/
structure Markless (t : Text) : Prop where
  once : Nowhere once? t
  fragments : Nowhere fragmentMarker? t
  places : Nowhere stackPlace? t

instance (t : Text) : Decidable (Markless t) :=
  decidable_of_iff (Nowhere once? t ∧ Nowhere fragmentMarker? t ∧ Nowhere stackPlace? t)
    ⟨fun ⟨a, b, c⟩ => ⟨a, b, c⟩, fun ⟨a, b, c⟩ => ⟨a, b, c⟩⟩

/-- Nowhere in a text without the lead does a marker start. -/
theorem markless_of_absent (h : ¬ markLead <:+: t) : Markless t := by
  have lead : ∀ v, v <:+ t → ¬ markLead <+: v := fun v hv hp => h (hp.isInfix.trans hv.isInfix)
  exact ⟨fun v hv => once?_eq_none (lead v hv), fun v hv => fragmentMarker?_eq_none (lead v hv),
    fun v hv => stackPlace?_eq_none (lead v hv)⟩

theorem Capture.run_chars : ∀ (u : Text) (c : Capture), c.opened = [] →
    c.run (u.map .char) = { c with outside := c.outside ++ u }
  | [], c, _ => by simp [Capture.run]
  | x :: u, c, h => by
      have hw : c.write [x] = { c with outside := c.outside ++ [x] } := by
        unfold Capture.write
        rw [h]
      have ih := run_chars u { c with outside := c.outside ++ [x] } h
      rw [List.map_cons, Capture.run, hw, ih, List.append_assoc]
      rfl

namespace Markless

variable (h : Markless t)

include h

theorem applyOnce (seen : List Text) : applyOnce t seen = (t, seen) := by
  have none : hits once? t = [] := hits_quiet h.once.quiet
  unfold Assembly.applyOnce
  cases t.length with
  | zero => rfl
  | succ n => rw [applyOnceFor, none]; rfl

theorem flushStacks : flushStacks t = t := by
  have chars : pieces fragmentMarker? t = t.map .char := pieces_quiet h.fragments.quiet
  have captured : capture t = (t, []) := by
    unfold capture
    rw [chars, Capture.run_chars t {} rfl]
    simp [Capture.remainder]
  unfold Assembly.flushStacks
  rw [captured]
  exact replaceHits_quiet _ h.places.quiet

/-- **A page without markers is collected as it is**, and no key is seen. -/
theorem collect (seen : List Text) : collect t seen = (t, seen) := by
  unfold Assembly.collect
  rw [h.applyOnce seen]
  simp only [h.flushStacks]

end Markless

theorem collect_eq_self (h : ¬ markLead <:+: t) (seen : List Text) : collect t seen = (t, seen) :=
  (markless_of_absent h).collect seen

end Pagewright.Assembly

namespace Pagewright.Assembly

open Text Lowering

/-- The names that may stand in markers. -/
structure MarkerName (n : Text) : Prop where
  given : n ≠ []
  chars : ∀ c ∈ n, isMarkerChar c = true

instance (n : Text) : Decidable (MarkerName n) :=
  -- Over the characters of the name, as above all characters could be tried.
  haveI : Decidable (∀ c ∈ n, isMarkerChar c = true) := List.decidableBAll _ _
  decidable_of_iff (n ≠ [] ∧ ∀ c ∈ n, isMarkerChar c = true)
    ⟨fun ⟨a, b⟩ => ⟨a, b⟩, fun ⟨a, b⟩ => ⟨a, b⟩⟩

/-- A text that begins with a bracket, if it is not empty. -/
def AtBracket (r : Text) : Prop := ∀ c ∈ r.head?, c = '<'

theorem atBracket_nil : AtBracket [] := by
  intro c hc
  cases hc

theorem atBracket_cons (r : Text) : AtBracket ('<' :: r) := by
  intro c hc
  exact (Option.some.inj hc).symm

theorem marker_append (kind n r : Text) :
    marker kind n ++ r = '<' :: ("!--hk:" ++ (kind ++ ':' :: (n ++ ("-->" ++ r)))) := by
  unfold marker
  simp only [List.append_assoc]
  rfl

theorem marker_ne_nil (kind n : Text) : marker kind n ≠ [] := by
  intro h
  have front := marker_append kind n []
  rw [h] at front
  cases front

theorem atBracket_marker (kind n r : Text) : AtBracket (marker kind n ++ r) := by
  rw [marker_append]
  exact atBracket_cons _

/-! ### Names -/

theorem takeWhile_name {n : Text} (h : ∀ c ∈ n, isMarkerChar c = true) (r : Text) :
    (n ++ ("-->" ++ r : Text)).takeWhile isMarkerChar = n ++ "--" := by
  have stop : ("-->" ++ r : Text).takeWhile isMarkerChar = "--".toList := by
    have hyphen : isMarkerChar '-' = true := by decide
    have bracket : isMarkerChar '>' = false := by decide
    show ('-' :: '-' :: '>' :: r).takeWhile isMarkerChar = ['-', '-']
    simp [hyphen, bracket]
  rw [List.takeWhile_append_of_pos h, stop]

theorem dropTail?_append (t tail : Text) : dropTail? tail (t ++ tail) = some t := by
  unfold dropTail?
  rw [List.reverse_append, dropLead?_append]
  simp

/-- The name of a marker is read up to the end of the marker. -/
theorem markerRest?_name {n : Text} (h : MarkerName n) (r : Text) :
    markerRest? (n ++ ("-->" ++ r)) = some (n, r) := by
  have run := takeWhile_name h.chars r
  have behind : (n ++ ("-->" ++ r : Text)).drop (n ++ "--".toList).length = ">" ++ r := by
    show (n ++ ("--" ++ (">" ++ r)) : Text).drop _ = _
    rw [← List.append_assoc, List.drop_left]
  have given : n.isEmpty = false := by
    rw [Bool.eq_false_iff, Ne, List.isEmpty_iff]
    exact h.given
  unfold markerRest?
  simp only [run, behind, dropTail?_append, dropLead?_append, Option.bind_eq_bind,
    Option.bind_some, given]
  rfl

/-- What is read of a marker in front of a bracket. -/
theorem markerRest?_parted (t r : Text) :
    markerRest? (t ++ '<' :: r) = (markerRest? t).map fun (n, rest) => (n, rest ++ '<' :: r) := by
  have run : (t ++ '<' :: r).takeWhile isMarkerChar = t.takeWhile isMarkerChar := by
    have bracket : isMarkerChar '<' = false := by decide
    rw [List.takeWhile_append, List.takeWhile_cons_of_neg (by simp [bracket]), List.append_nil]
    split
    · next e => exact ((List.takeWhile_prefix isMarkerChar).eq_of_length e).symm
    · rfl
  have behind : (t ++ '<' :: r).drop (t.takeWhile isMarkerChar).length =
      t.drop (t.takeWhile isMarkerChar).length ++ '<' :: r :=
    List.drop_append_of_le_length (List.takeWhile_prefix isMarkerChar).length_le
  have close := dropLead?_parted (x := '<') (by decide : '<' ∉ ">".toList)
    (t.drop (t.takeWhile isMarkerChar).length) r
  unfold markerRest?
  simp only [run, behind, close, Option.bind_eq_bind]
  cases dropTail? "--" (t.takeWhile isMarkerChar) with
  | none => rfl
  | some name =>
    cases dropLead? ">" (t.drop (t.takeWhile isMarkerChar).length) with
    | none => rfl
    | some rest => by_cases h : name = [] <;> simp [h]

/-! ### Markers -/

/-- A marker that opens or closes a once block, with its name. -/
def onceMark? : Recogniser Text := fun t => do
  let rest ← (dropLead? "<!--hk:once:" t).orElse fun _ => dropLead? "<!--hk:endonce:" t
  let (name, rest) ← markerRest? rest
  return (name, t.length - rest.length)

theorem dropLead?_marker_parted (lead : Text) (h : '<' ∉ lead) (c : Char) (v r : Text) :
    dropLead? ('<' :: lead) (c :: v ++ '<' :: r) =
      (dropLead? ('<' :: lead) (c :: v)).map (· ++ '<' :: r) := by
  rw [List.cons_append, dropLead?, dropLead?]
  split
  · exact dropLead?_parted h v r
  · rfl

/-- What a reader of markers answers in front of a bracket, once it has come to the name. -/
theorem named_parted {α : Type} (make : Text → α) (t rest r : Text) :
    ((markerRest? (rest ++ '<' :: r)).bind fun (n, rest) =>
        some (make n, (t ++ '<' :: r).length - rest.length)) =
      (markerRest? rest).bind fun (n, rest) => some (make n, t.length - rest.length) := by
  rw [markerRest?_parted]
  cases markerRest? rest with
  | none => rfl
  | some found =>
    obtain ⟨n, rest⟩ := found
    simp only [Option.map_some, Option.bind_some, List.length_append, List.length_cons]
    congr 2
    omega

theorem stackPlace?_parted (c : Char) (v r : Text) :
    stackPlace? (c :: v ++ '<' :: r) = stackPlace? (c :: v) := by
  have lead : dropLead? "<!--hk:stack:" (c :: v ++ '<' :: r) =
      (dropLead? "<!--hk:stack:" (c :: v)).map (· ++ '<' :: r) :=
    dropLead?_marker_parted "!--hk:stack:" (by decide) c v r
  unfold stackPlace?
  rw [lead]
  cases dropLead? "<!--hk:stack:" (c :: v) with
  | none => rfl
  | some rest => exact named_parted id (c :: v) rest r

theorem onceMark?_parted (c : Char) (v r : Text) :
    onceMark? (c :: v ++ '<' :: r) = onceMark? (c :: v) := by
  have opening : dropLead? "<!--hk:once:" (c :: v ++ '<' :: r) =
      (dropLead? "<!--hk:once:" (c :: v)).map (· ++ '<' :: r) :=
    dropLead?_marker_parted "!--hk:once:" (by decide) c v r
  have closing : dropLead? "<!--hk:endonce:" (c :: v ++ '<' :: r) =
      (dropLead? "<!--hk:endonce:" (c :: v)).map (· ++ '<' :: r) :=
    dropLead?_marker_parted "!--hk:endonce:" (by decide) c v r
  unfold onceMark?
  rw [opening, closing]
  cases dropLead? "<!--hk:once:" (c :: v) with
  | some rest => exact named_parted id (c :: v) rest r
  | none =>
    cases dropLead? "<!--hk:endonce:" (c :: v) with
    | none => rfl
    | some rest => exact named_parted id (c :: v) rest r

/-- What follows the lead of a fragment marker, with what was read of it already. -/
def fragmentName? (closing : Bool) (t rest : Text) : Option (FragmentMarker × Nat) :=
  match dropLead? "prepend:" rest with
  | some behind =>
      (markerRest? behind).bind fun (n, r) => some (⟨closing, true, n⟩, t.length - r.length)
  | none =>
      (dropLead? "push:" rest).bind fun behind =>
        (markerRest? behind).bind fun (n, r) => some (⟨closing, false, n⟩, t.length - r.length)

theorem fragmentMarker?_eq (t : Text) :
    fragmentMarker? t = (dropLead? "<!--hk:" t).bind fun rest =>
      match dropLead? "end" rest with
      | some rest => fragmentName? true t rest
      | none => fragmentName? false t rest := by
  unfold fragmentMarker? fragmentName?
  cases dropLead? "<!--hk:" t with
  | none => rfl
  | some rest =>
    simp only [Option.bind_eq_bind, Option.bind_some]
    cases dropLead? "end" rest with
    | none =>
      simp only
      cases dropLead? "prepend:" rest with
      | some behind => rfl
      | none => cases dropLead? "push:" rest <;> rfl
    | some rest =>
      simp only
      cases dropLead? "prepend:" rest with
      | some behind => rfl
      | none => cases dropLead? "push:" rest <;> rfl

theorem fragmentName?_parted (closing : Bool) (t rest r : Text) :
    fragmentName? closing (t ++ '<' :: r) (rest ++ '<' :: r) = fragmentName? closing t rest := by
  unfold fragmentName?
  rw [dropLead?_parted (by decide : '<' ∉ "prepend:".toList),
    dropLead?_parted (by decide : '<' ∉ "push:".toList)]
  cases dropLead? "prepend:" rest with
  | some behind => exact named_parted (FragmentMarker.mk closing true) t behind r
  | none =>
    cases dropLead? "push:" rest with
    | none => rfl
    | some behind => exact named_parted (FragmentMarker.mk closing false) t behind r

theorem fragmentMarker?_parted (c : Char) (v r : Text) :
    fragmentMarker? (c :: v ++ '<' :: r) = fragmentMarker? (c :: v) := by
  have lead : dropLead? "<!--hk:" (c :: v ++ '<' :: r) =
      (dropLead? "<!--hk:" (c :: v)).map (· ++ '<' :: r) :=
    dropLead?_marker_parted "!--hk:" (by decide) c v r
  rw [fragmentMarker?_eq, fragmentMarker?_eq, lead]
  cases dropLead? "<!--hk:" (c :: v) with
  | none => rfl
  | some rest =>
    simp only [Option.map_some, Option.bind_some,
      dropLead?_parted (by decide : '<' ∉ "end".toList)]
    cases dropLead? "end" rest with
    | none => exact fragmentName?_parted false (c :: v) rest r
    | some rest => exact fragmentName?_parted true (c :: v) rest r

theorem stackPlace?_marker {n : Text} (h : MarkerName n) (r : Text) :
    stackPlace? (marker "stack" n ++ r) = some (n, (marker "stack" n).length) := by
  have lead : dropLead? "<!--hk:stack:" (marker "stack" n ++ r) = some (n ++ ("-->" ++ r)) := by
    rw [marker_append]
    exact dropLead?_append "<!--hk:stack:" _
  unfold stackPlace?
  rw [lead]
  simp only [Option.bind_eq_bind, Option.bind_some, markerRest?_name h, List.length_append,
    Nat.add_sub_cancel]
  rfl

theorem onceMark?_opener {n : Text} (h : MarkerName n) (r : Text) :
    onceMark? (marker "once" n ++ r) = some (n, (marker "once" n).length) := by
  have lead : dropLead? "<!--hk:once:" (marker "once" n ++ r) = some (n ++ ("-->" ++ r)) := by
    rw [marker_append]
    exact dropLead?_append "<!--hk:once:" _
  unfold onceMark?
  rw [lead]
  simp only [Option.orElse_some, Option.bind_eq_bind, Option.bind_some, markerRest?_name h,
    List.length_append, Nat.add_sub_cancel]
  rfl

theorem onceMark?_closer {n : Text} (h : MarkerName n) (r : Text) :
    onceMark? (marker "endonce" n ++ r) = some (n, (marker "endonce" n).length) := by
  have other : dropLead? "<!--hk:once:" (marker "endonce" n ++ r) = none := by
    rw [marker_append]
    rfl
  have lead : dropLead? "<!--hk:endonce:" (marker "endonce" n ++ r) = some (n ++ ("-->" ++ r)) := by
    rw [marker_append]
    exact dropLead?_append "<!--hk:endonce:" _
  unfold onceMark?
  rw [other, lead]
  simp only [Option.orElse_none, Option.bind_eq_bind, Option.bind_some, markerRest?_name h,
    List.length_append, Nat.add_sub_cancel]
  rfl

/-- A once block begins with a marker. -/
theorem once?_eq_none_of_onceMark? {t : Text} (h : onceMark? t = none) : once? t = none := by
  unfold onceMark? at h
  unfold once?
  cases lead : dropLead? "<!--hk:once:" t with
  | none => rfl
  | some rest =>
    simp only [lead, Option.orElse_some, Option.bind_eq_bind, Option.bind_some] at h ⊢
    cases named : markerRest? rest with
    | none => rfl
    | some found =>
      rw [named] at h
      cases h

theorem FragmentMarker.shown_ne_nil (m : FragmentMarker) : m.shown ≠ [] := marker_ne_nil _ _

theorem atBracket_shown (m : FragmentMarker) (r : Text) : AtBracket (m.shown ++ r) :=
  atBracket_marker _ _ _

/-- The kind of fragment and the stack are read back, in front of anything. -/
theorem fragmentName?_name (closing prepended : Bool) {n : Text} (h : MarkerName n) (u r : Text) :
    fragmentName? closing (u ++ r)
        ((if prepended then "prepend:" else "push:") ++ (n ++ ("-->" ++ r))) =
      some (⟨closing, prepended, n⟩, u.length) := by
  have covered : (u ++ r).length - r.length = u.length := by
    rw [List.length_append, Nat.add_sub_cancel]
  unfold fragmentName?
  cases prepended with
  | true =>
    simp only [if_true, dropLead?_append, markerRest?_name h, Option.bind_some, covered]
  | false =>
    have other : dropLead? "prepend:" ("push:" ++ (n ++ ("-->" ++ r)) : Text) = none := rfl
    simp only [Bool.false_eq_true, if_false, other, dropLead?_append, markerRest?_name h,
      Option.bind_some, covered]

/-- A marker of a fragment as it is spelled, in front of anything. -/
theorem FragmentMarker.shown_append (m : FragmentMarker) (r : Text) :
    m.shown ++ r = "<!--hk:" ++ ((if m.closing then "end" else "") ++
      ((if m.prepended then "prepend:" else "push:") ++ (m.name ++ ("-->" ++ r)))) := by
  obtain ⟨closing, prepended, name⟩ := m
  unfold FragmentMarker.shown
  rw [marker_append]
  show ("<!--hk:" ++ ((if closing then "end" else "") ++
      (if prepended then "prepend" else "push") ++ ':' :: (name ++ ("-->" ++ r))) : Text) =
    "<!--hk:" ++ ((if closing then "end" else "") ++
      ((if prepended then "prepend:" else "push:") ++ (name ++ ("-->" ++ r))))
  cases closing <;> cases prepended <;> rfl

theorem fragmentMarker?_shown {m : FragmentMarker} (h : MarkerName m.name) (r : Text) :
    fragmentMarker? (m.shown ++ r) = some (m, m.shown.length) := by
  obtain ⟨closing, prepended, name⟩ := m
  have named := fragmentName?_name closing prepended h
    (FragmentMarker.shown ⟨closing, prepended, name⟩) r
  have lead : dropLead? "<!--hk:" (FragmentMarker.shown ⟨closing, prepended, name⟩ ++ r) =
      some ((if closing then "end" else "") ++
        ((if prepended then "prepend:" else "push:") ++ (name ++ ("-->" ++ r)))) := by
    rw [FragmentMarker.shown_append]
    exact dropLead?_append "<!--hk:" _
  rw [fragmentMarker?_eq, lead]
  cases closing with
  | true => exact named
  | false => cases prepended <;> exact named

/-- The place of a stack is no marker of a fragment. -/
theorem fragmentMarker?_place (n r : Text) : fragmentMarker? (marker "stack" n ++ r) = none := by
  rw [marker_append]
  rfl

theorem fragmentMarker?_leads : Leads '<' fragmentMarker? := by
  intro c r hc
  refine fragmentMarker?_eq_none fun hp => hc ?_
  exact (List.cons_prefix_cons.mp hp).1.symm

theorem onceMark?_leads : Leads '<' onceMark? := by
  intro c r hc
  have opening : dropLead? "<!--hk:once:" (c :: r) = none := dropLead?_cons_of_ne _ r hc.symm
  have closing : dropLead? "<!--hk:endonce:" (c :: r) = none := dropLead?_cons_of_ne _ r hc.symm
  unfold onceMark?
  rw [opening, closing]
  rfl

/-! ### Stretches without markers -/

section Quiet

variable {α : Type} {find : Recogniser α}

/-- A text without markers stays so in front of a bracket. -/
theorem quiet_atBracket (parted : ∀ c v r, find (c :: v ++ '<' :: r) = find (c :: v)) {t r : Text}
    (h : Nowhere find t) (hr : AtBracket r) : ∀ c v, c :: v <:+ t → find (c :: v ++ r) = none := by
  intro c v hv
  cases r with
  | nil =>
    rw [List.append_nil]
    exact h _ hv
  | cons x r =>
    obtain rfl := hr x rfl
    rw [parted]
    exact h _ hv

theorem bracket_not_mem_name {n : Text} (h : MarkerName n) : '<' ∉ n := by
  intro hm
  exact absurd (h.chars '<' hm) (by decide)

/-- A marker holds one bracket, in front. -/
theorem marker_suffix {kind n v : Text} {c : Char} (hk : '<' ∉ kind) (hn : MarkerName n)
    (hv : c :: v <:+ marker kind n) : c :: v = marker kind n ∨ c ≠ '<' := by
  have inside : '<' ∉ ("!--hk:" ++ (kind ++ ':' :: (n ++ "-->")) : Text) := by
    have own := bracket_not_mem_name hn
    have lead : '<' ∉ "!--hk:".toList := by decide
    have close : '<' ∉ "-->".toList := by decide
    simp only [List.mem_append, List.mem_cons, not_or]
    exact ⟨lead, hk, by decide, own, close⟩
  have front := marker_append kind n []
  simp only [List.append_nil] at front
  rw [front] at hv ⊢
  obtain whole | behind := List.suffix_cons_iff.mp hv
  · exact Or.inl whole
  · right
    rintro rfl
    exact inside (behind.subset List.mem_cons_self)

/-- What is no marker of a kind where it begins is none inside it. -/
theorem quiet_marker (leads : Leads '<' find) (kind : Text) {n r : Text} (hk : '<' ∉ kind)
    (hn : MarkerName n) (h : find (marker kind n ++ r) = none) :
    ∀ c v, c :: v <:+ marker kind n → find (c :: v ++ r) = none := by
  intro c v hv
  obtain whole | inside := marker_suffix hk hn hv
  · rw [whole]
    exact h
  · exact leads c (v ++ r) inside

end Quiet

/-! ### What was read -/

theorem mem_isMarkerChar_of_takeWhile {t n : Text} (h : t.takeWhile isMarkerChar = n ++ "--") :
    ∀ c ∈ n, isMarkerChar c = true := by
  have all := List.all_takeWhile (p := isMarkerChar) (l := t)
  rw [h] at all
  exact fun c hc => List.all_eq_true.mp all c (List.mem_append_left _ hc)

/-- What is read of a marker stands there. -/
theorem eq_of_markerRest? {t n rest : Text} (h : markerRest? t = some (n, rest)) :
    t = n ++ ("-->" ++ rest) ∧ MarkerName n := by
  unfold markerRest? at h
  simp only [Option.bind_eq_bind, Option.bind_eq_some_iff] at h
  obtain ⟨name, tail, rest', close, h⟩ := h
  split at h
  · cases h
  · next given =>
    obtain ⟨rfl, rfl⟩ := Prod.mk.inj (Option.some.inj h)
    obtain ⟨back, lead, rfl⟩ := Option.map_eq_some_iff.mp tail
    have run : t.takeWhile isMarkerChar = back.reverse ++ "--" := by
      have front := congrArg List.reverse (eq_append_of_dropLead? lead)
      simpa using front
    refine ⟨?_, by simpa using given, mem_isMarkerChar_of_takeWhile run⟩
    have whole : t = t.takeWhile isMarkerChar ++ t.drop (t.takeWhile isMarkerChar).length := by
      have parts := List.prefix_iff_eq_append.mp (List.takeWhile_prefix (l := t) isMarkerChar)
      exact parts.symm
    rw [whole, eq_append_of_dropLead? close, run]
    simp

/-- What is read of the place of a stack stands there. -/
theorem eq_of_stackPlace? {t n : Text} {k : Nat} (h : stackPlace? t = some (n, k)) :
    ∃ r, t = marker "stack" n ++ r ∧ k = (marker "stack" n).length := by
  unfold stackPlace? at h
  simp only [Option.bind_eq_bind, Option.bind_eq_some_iff, Prod.exists] at h
  obtain ⟨behind, lead, name, rest, read, e⟩ := h
  obtain ⟨rfl, rfl⟩ := Prod.mk.inj (Option.some.inj e)
  have whole : t = marker "stack" name ++ rest := by
    rw [marker_append, eq_append_of_dropLead? lead, (eq_of_markerRest? read).1]
    rfl
  refine ⟨rest, whole, ?_⟩
  rw [whole, List.length_append, Nat.add_sub_cancel]

theorem eq_of_fragmentName? {closing : Bool} {t rest : Text} {m : FragmentMarker} {n : Nat}
    (h : fragmentName? closing t rest = some (m, n)) :
    ∃ r, m.closing = closing ∧ n = t.length - r.length ∧
      rest = (if m.prepended then "prepend:" else "push:") ++ (m.name ++ ("-->" ++ r)) := by
  unfold fragmentName? at h
  split at h
  · next behind lead =>
    obtain ⟨⟨name, r⟩, read, e⟩ := Option.bind_eq_some_iff.mp h
    obtain ⟨rfl, rfl⟩ := Prod.mk.inj (Option.some.inj e)
    refine ⟨r, rfl, rfl, ?_⟩
    rw [eq_append_of_dropLead? lead, (eq_of_markerRest? read).1, if_pos rfl]
  · obtain ⟨behind, lead, h⟩ := Option.bind_eq_some_iff.mp h
    obtain ⟨⟨name, r⟩, read, e⟩ := Option.bind_eq_some_iff.mp h
    obtain ⟨rfl, rfl⟩ := Prod.mk.inj (Option.some.inj e)
    refine ⟨r, rfl, rfl, ?_⟩
    rw [eq_append_of_dropLead? lead, (eq_of_markerRest? read).1, if_neg Bool.false_ne_true]

/-- What is read of a fragment marker stands there. -/
theorem eq_of_fragmentMarker? {t : Text} {m : FragmentMarker} {n : Nat}
    (h : fragmentMarker? t = some (m, n)) : ∃ r, t = m.shown ++ r ∧ n = m.shown.length := by
  have whole : ∃ r, t = m.shown ++ r ∧ n = t.length - r.length := by
    rw [fragmentMarker?_eq] at h
    obtain ⟨rest, lead, h⟩ := Option.bind_eq_some_iff.mp h
    split at h
    · next behind ending =>
      obtain ⟨r, closing, length, read⟩ := eq_of_fragmentName? h
      refine ⟨r, ?_, length⟩
      rw [m.shown_append, eq_append_of_dropLead? lead, eq_append_of_dropLead? ending, read, closing,
        if_pos rfl]
    · obtain ⟨r, closing, length, read⟩ := eq_of_fragmentName? h
      refine ⟨r, ?_, length⟩
      rw [m.shown_append, eq_append_of_dropLead? lead, read, closing, if_neg Bool.false_ne_true]
      rfl
  obtain ⟨r, whole, rfl⟩ := whole
  refine ⟨r, whole, ?_⟩
  rw [whole, List.length_append, Nat.add_sub_cancel]

end Pagewright.Assembly
