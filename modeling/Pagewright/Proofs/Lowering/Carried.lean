import Pagewright.Proofs.Lowering.Unmistakable

/-! # Every unmistakable text is rewritten

In a genuine draft whatever reads like a placeholder is one (`Genuine.placeholder`): it has the number
of a region, and no author wrote a character of it.  What is restored for a region holds no null
character and begins with none of the letters behind one, so a sentinel that is read then was there
before (`Genuine.sentinel`).  Hence the rewriting of an unmistakable text gives a text, into which
everything but comments, doubled at signs, regions and directives is carried over
(`transform_carried`).

Main definitions: `Issued`. -/

namespace Pagewright.Lowering

open Text Directive

variable {loose : Bool} {regions : List Text} {tok : Text} {shut : Bool}

/-! ### Placeholders -/


/-- What reads like a token where a token follows is that token. -/
theorem Follows.solid {m : Marked} {v w r : Text} (follows : Follows loose shut (w ++ ['\x00']) m)
    (hm : textOf m = v ++ '\x00' :: r) (hv : '\x00' ∉ v) (hw : '\x00' ∉ w)
    (blank : ∀ c ∈ v, isSpace c = false) :
    w = v ∧ Generated (m.take (v.length + 1)) ∧ (shut = true → Clear (m.drop (v.length + 1))) := by
  induction v generalizing m w with
  | nil =>
    obtain ⟨own, k, rfl⟩ := exists_of_textOf_cons hm
    cases w with
    | nil =>
      obtain ⟨rfl, ⟨-, rest⟩ | ⟨-, space, -⟩⟩ := follows
      · exact ⟨rfl, List.forall_mem_singleton.mpr rfl, follows_nil.mp rest⟩
      · exact absurd space (by decide : ¬ isSpace '\x00' = true)
    | cons x w =>
      obtain ⟨-, ⟨rfl, -⟩ | ⟨-, space, -⟩⟩ := follows
      · exact absurd List.mem_cons_self hw
      · exact absurd space (by decide : ¬ isSpace '\x00' = true)
  | cons c v ih =>
    obtain ⟨own, k, rfl⟩ := exists_of_textOf_cons hm
    obtain ⟨solid, others⟩ := List.forall_mem_cons.mp blank
    have behind := (List.cons.inj hm).2
    obtain ⟨first, hv⟩ := not_or.mp (mt List.mem_cons.mpr hv)
    cases w with
    | nil =>
      obtain ⟨-, ⟨rfl, -⟩ | ⟨-, space, -⟩⟩ := follows
      · exact absurd rfl first
      · rw [solid] at space
        cases space
    | cons x w =>
      obtain ⟨rfl, ⟨rfl, rest⟩ | ⟨-, space, -⟩⟩ := follows
      · obtain ⟨rfl, own, clear⟩ := ih rest behind hv (fun hm => hw (List.mem_cons_of_mem _ hm)) others
        exact ⟨rfl, List.forall_mem_cons.mpr ⟨rfl, own⟩, clear⟩
      · rw [solid] at space
        cases space

/-- What is read as a placeholder: digits between fixed texts. -/
theorem exists_digits {t : Text} {n k : Nat} (h : guardToken? t = some (n, k)) :
    ∃ digits r, t = '\x00' :: (("hk:guard:".toList ++ digits) ++ '\x00' :: r) ∧
      natOfDigits? digits = some n ∧ (∀ c ∈ digits, isDecimal c = true) ∧
      k = ("hk:guard:".toList ++ digits).length + 2 := by
  have lead : "\x00hk:guard:".toList = '\x00' :: "hk:guard:".toList := by decide
  have close : "\x00".toList = ['\x00'] := by decide
  unfold guardToken? at h
  obtain ⟨r₁, h₁, h⟩ := Option.bind_eq_some_iff.mp h
  obtain ⟨m, hm, h⟩ := Option.bind_eq_some_iff.mp h
  obtain ⟨r, h₂, hend⟩ := Option.bind_eq_some_iff.mp h
  obtain ⟨s, hs⟩ := List.takeWhile_prefix isDecimal (l := r₁)
  have decimal : ∀ c ∈ r₁.takeWhile isDecimal, isDecimal c = true :=
    List.all_eq_true.mp List.all_takeWhile
  generalize r₁.takeWhile isDecimal = digits at hs h₂ hm decimal
  obtain rfl := hs
  rw [List.drop_left] at h₂
  obtain ⟨rfl, length⟩ := Prod.mk.inj (Option.some.inj hend)
  have whole := eq_append_of_dropLead? h₁
  rw [eq_append_of_dropLead? h₂, lead, close, List.cons_append, ← List.append_assoc,
    List.singleton_append] at whole
  refine ⟨digits, r, whole, hm, decimal, ?_⟩
  rw [← length, whole, List.length_cons, List.length_append, List.length_cons]
  omega

/-- A placeholder with some digits has the number of a region. -/
theorem Token.number (h : Token regions tok shut) {digits : Text} {n : Nat}
    (e : tok = '\x00' :: (("hk:guard:".toList ++ digits) ++ ['\x00']))
    (value : natOfDigits? digits = some n) : ∃ r, regions[n]? = some r ∧ shut = r.isEmpty := by
  induction h with
  | sentinel =>
    have lead : "hk:guard:".toList = "hk:g".toList ++ "uard:".toList := by decide
    have other : ¬ '\x00' :: "hk:g".toList <+: atSentinel := by decide
    rw [e, lead, List.append_assoc, List.append_assoc] at other
    exact absurd (List.cons_prefix_cons.mpr ⟨rfl, List.prefix_append _ _⟩) other
  | @placeholder k r hr =>
    rw [guardToken_body] at e
    have digits := List.append_cancel_left (List.append_cancel_right (List.cons.inj e).2)
    rw [← digits, natOfDigits?_ofNat] at value
    obtain rfl := Option.some.inj value
    exact ⟨r, hr, rfl⟩

theorem not_mem_of_bland {t : Text} (h : bland t = true) : '\x00' ∉ t := by
  fun_induction bland t with
  | case1 => exact List.not_mem_nil
  | case2 c =>
    rw [Bool.and_eq_true, bne_iff_ne] at h
    exact fun hm => h.1 (List.mem_singleton.mp hm).symm
  | case3 c d r ih =>
    rw [Bool.and_eq_true, Bool.and_eq_true, bne_iff_ne] at h
    exact fun hm => (List.mem_cons.mp hm).elim (fun e => h.1.1 e.symm) (ih h.2)

/-- **What reads like a placeholder in a genuine text is one**, with the number of a region. -/
theorem Genuine.placeholder {m : Marked} (hm : Genuine loose regions m) {n k : Nat}
    (h : guardToken? (textOf m) = some (n, k)) :
    (∃ r, regions[n]? = some r ∧ (r = [] → Clear (m.drop k))) ∧ Generated (m.take k) := by
  obtain ⟨digits, r, whole, value, decimal, rfl⟩ := exists_digits h
  have parts : "hk:guard:".toList = "hk".toList ++ ":guard:".toList := by decide
  have first : "\x00hk".toList = '\x00' :: "hk".toList := by decide
  have lead : "\x00hk".toList <+: textOf m := by
    rw [whole, first, parts, List.append_assoc, List.append_assoc]
    exact List.cons_prefix_cons.mpr ⟨rfl, List.prefix_append _ _⟩
  obtain ⟨tok, shut, ht, follows⟩ := (hm m List.suffix_rfl).token lead
  obtain ⟨body, rfl, plain, -⟩ := ht.exists_body
  obtain ⟨own, v, rfl⟩ := exists_of_textOf_cons whole
  have visible : '\x00' ∉ "hk:guard:".toList ++ digits :=
    List.not_mem_append (by decide) fun hm => absurd (decimal _ hm) (by decide)
  have blank : ∀ c ∈ "hk:guard:".toList ++ digits, isSpace c = false :=
    List.forall_mem_append.mpr
      ⟨forall_mem_text (by decide), fun c hc => not_space_of_isDecimal (decimal c hc)⟩
  obtain ⟨rfl, ⟨-, rest⟩ | ⟨-, space, -⟩⟩ := follows
  · obtain ⟨same, generated, clear⟩ :=
      rest.solid (List.cons.inj whole).2 visible (not_mem_of_bland plain) blank
    rw [same] at ht
    obtain ⟨x, hx, rfl⟩ := ht.number rfl value
    refine ⟨⟨x, hx, ?_⟩, List.forall_mem_cons.mpr ⟨rfl, generated⟩⟩
    rintro rfl
    exact clear rfl
  · exact absurd space (by decide : ¬ isSpace '\x00' = true)

/-! ### Sentinels -/

/-- No author wrote a null character. -/
def Issued (m : Marked) : Prop := ∀ c ∈ m, c.1 = '\x00' → c.2 = false

theorem Issued.revised {P : Marked → Marked → Text → Prop} {m k : Marked} (hm : Issued m)
    (h : Revised P m k) : Issued k := by
  induction h with
  | nil => exact hm
  | keep c _ ih =>
    obtain ⟨own, others⟩ := List.forall_mem_cons.mp hm
    exact List.forall_mem_cons.mpr ⟨own, ih others⟩
  | change _ _ ih =>
    refine List.forall_mem_append.mpr ⟨fun c hc _ => ?_, ih (List.forall_mem_append.mp hm).2⟩
    obtain ⟨x, -, rfl⟩ := List.mem_map.mp hc
    rfl

/-- A null character goes on with what no author wrote. -/
theorem Issued.take_succ {w : Text} {m : Marked} (hm : Issued m) (lead : w ++ ['\x00'] <+: textOf m)
    (own : Generated (m.take w.length)) : Generated (m.take (w.length + 1)) := by
  induction w generalizing m with
  | nil =>
    obtain ⟨r, hr⟩ := lead
    obtain ⟨mark, v, rfl⟩ := exists_of_textOf_cons hr.symm
    exact List.forall_mem_singleton.mpr (hm _ List.mem_cons_self rfl)
  | cons c w ih =>
    cases m with
    | nil => nofun
    | cons d m =>
      obtain ⟨first, others⟩ := List.forall_mem_cons.mp own
      have behind := (List.cons_prefix_cons.mp lead).2
      have later := ih (fun c hc => hm c (List.mem_cons_of_mem d hc)) behind others
      exact List.forall_mem_cons.mpr ⟨first, later⟩

section
variable {P : Marked → Marked → Text → Prop}

/-- Where tokens give way to other text, what is left of one in front of its last null character is
what followed. -/
theorem Follows.walk {m k : Marked} (h : Revised P m k)
    (hP : ∀ old n new, P old n new → ∃ own v, old = ('\x00', own) :: v)
    (follows : Follows loose shut tok m) {w : Text} (hw : w <+: textOf k)
    (blank : ∀ c ∈ w, isSpace c = false) (visible : '\x00' ∉ tok.take w.length)
    (long : w.length ≤ tok.length) : Generated (k.take w.length) := by
  induction h generalizing tok w with
  | nil =>
    rw [List.take_nil]
    nofun
  | keep c _ ih =>
    cases w with
    | nil => nofun
    | cons x w =>
      obtain ⟨y, tok, rfl⟩ := List.exists_cons_of_length_pos (Nat.zero_lt_of_lt long)
      obtain ⟨rfl, behind⟩ := List.cons_prefix_cons.mp hw
      obtain ⟨solid, others⟩ := List.forall_mem_cons.mp blank
      obtain ⟨own, ⟨-, rest⟩ | ⟨-, space, -⟩⟩ := follows
      · have later := ih rest behind others (fun hm => visible (List.mem_cons_of_mem y hm))
          (Nat.le_of_succ_le_succ long)
        exact List.forall_mem_cons.mpr ⟨own, later⟩
      · rw [solid] at space
        cases space
  | change allowed _ _ =>
    cases w with
    | nil => nofun
    | cons x w =>
      obtain ⟨y, tok, rfl⟩ := List.exists_cons_of_length_pos (Nat.zero_lt_of_lt long)
      obtain ⟨own, v, rfl⟩ := hP _ _ _ allowed
      obtain ⟨-, ⟨rfl, -⟩ | ⟨-, space, -⟩⟩ := follows
      · exact absurd List.mem_cons_self visible
      · exact absurd space (by decide : ¬ isSpace '\x00' = true)

/-- **No author wrote a sentinel that is read where placeholders have given way.** -/
theorem Genuine.sentinel {m k : Marked} (hm : Genuine loose regions m) (issued : Issued m)
    (h : Revised P m k)
    (hP : ∀ old n new, P old n new → (∃ own v, old = ('\x00', own) :: v) ∧ '\x00' ∉ new ∧
      Clear (generated new ++ n)) :
    ∀ s, s <:+ k → atSentinel <+: textOf s → Generated (s.take atSentinel.length) := by
  have whole : atSentinel = '\x00' :: ("hk:at".toList ++ ['\x00']) := by decide
  have begins : "hk".toList <+: "hk:at".toList ++ ['\x00'] := by decide
  induction h with
  | nil =>
    intro s hs lead
    obtain rfl := List.suffix_nil.mp hs
    exact absurd (List.prefix_nil.mp lead) (by decide)
  | @keep c m k rest ih =>
    intro s hs lead
    obtain ⟨_, others⟩ := List.forall_mem_cons.mp issued
    obtain rfl | hs := List.suffix_cons_iff.mp hs
    · -- The first letters were there before, so they are those of a token.
      rw [whole] at lead
      obtain ⟨first, lead⟩ := List.cons_prefix_cons.mp lead
      have front : "hk".toList <+: textOf m :=
        lead_of_revised (fun _ _ _ allowed => (hP _ _ _ allowed).2.2) rest letters
          (begins.trans lead)
      obtain ⟨tok, shut, ht, follows⟩ :=
        (hm _ List.suffix_rfl).token (List.cons_prefix_cons.mpr ⟨first, front⟩)
      obtain ⟨body, rfl, plain, long⟩ := ht.exists_body
      obtain ⟨own, ⟨-, follows⟩ | ⟨-, space, -⟩⟩ := follows
      · have five : "hk:at".toList.length = 5 := by decide
        have inner := Follows.walk rest (fun _ _ _ allowed => (hP _ _ _ allowed).1) follows
          ((List.prefix_append _ _).trans lead) (forall_mem_text (by decide)) ?_ ?_
        · exact List.forall_mem_cons.mpr ⟨own, (Issued.revised others rest).take_succ lead inner⟩
        · rw [five, List.take_append_of_le_length long]
          exact fun h => not_mem_of_bland plain (List.mem_of_mem_take h)
        · rw [five, List.length_append]
          omega
      · rw [← first] at space
        exact absurd space (by decide : ¬ isSpace '\x00' = true)
    · exact ih (hm.of_suffix (List.suffix_cons c m)) others s hs lead
  | @change old m k new allowed rest ih =>
    intro s hs lead
    obtain ⟨-, visible, -⟩ := hP _ _ _ allowed
    have later := ih (hm.of_suffix (List.suffix_append old m)) (List.forall_mem_append.mp issued).2
    obtain ⟨u, hu⟩ := hs
    obtain ⟨v, hv, rfl⟩ | ⟨v, -, rfl⟩ := List.append_eq_append_iff.mp hu
    · cases v with
      | nil => exact later _ List.suffix_rfl lead
      | cons d v =>
        have first := (List.cons_prefix_cons.mp (whole ▸ lead)).1
        have inside : d ∈ generated new := hv ▸ List.mem_append_right u List.mem_cons_self
        obtain ⟨x, hx, rfl⟩ := List.mem_map.mp inside
        exact absurd (first ▸ hx) visible
    · exact later s (List.suffix_append v s) lead

end

/-! ### Regions -/

/-- What is restored for a region holds no null character, and begins with a bracket if it is not
empty. -/
theorem visible_regionsOf {t r : Text} (ht : Unmistakable t) (hr : r ∈ regionsOf t) :
    '\x00' ∉ r ∧ (r ≠ [] → ∃ v, r = '\x7b' :: v) := by
  obtain ⟨x, hx, rfl⟩ := List.mem_map.mp hr
  obtain ⟨b, e, visible⟩ | ⟨inner, rfl, visible⟩ := visible_restored ht.visible hx
  · rw [e]
    exact ⟨visible, fun _ => ⟨_, rfl⟩⟩
  · rw [Region.restored, if_pos rfl, protect]
    split
    · exact ⟨List.not_mem_nil, fun given => absurd rfl given⟩
    · have opens : rawOpen = '\x7b' :: "% raw %\x7d".toList := by decide
      refine ⟨?_, fun _ => ⟨_, by rw [opens, List.cons_append, List.cons_append]⟩⟩
      exact List.not_mem_append (List.not_mem_append (by decide) visible) (by decide)

/-- What takes the place of a placeholder in an unmistakable text. -/
theorem clear_placed {ds : Delimiters} {t : Text} (tame : Tame ds) (ht : Unmistakable t)
    {old n : Marked} {new : Text}
    (found : Found guardToken? (fun _ n => ((regionsOf t)[n]?).getD []) old n new)
    (inside : old ++ n <:+ draft ds t) :
    (∃ own v, old = ('\x00', own) :: v) ∧ '\x00' ∉ new ∧ Clear (generated new ++ n) := by
  obtain ⟨i, _, found, rfl⟩ := found
  obtain ⟨v, r, whole, length⟩ := exists_of_guardToken? found
  obtain ⟨first, -⟩ := textOf_eq_of_append whole length
  obtain ⟨⟨x, known, clear⟩, -⟩ := ((genuine_draft tame ht).of_suffix inside).placeholder found
  obtain ⟨visible, opens⟩ := visible_regionsOf ht (List.mem_of_getElem? known)
  simp only [known, Option.getD_some]
  refine ⟨exists_of_textOf_cons first, visible, ?_⟩
  by_cases empty : x = []
  · have behind := clear empty
    rw [List.drop_left] at behind
    rwa [empty]
  · obtain ⟨w, rfl⟩ := opens empty
    intro c hc
    obtain rfl := Option.some.inj hc
    exact ⟨by decide, by decide⟩

/-! ### The rewriting -/

theorem Issued.revise {m : Marked} (hm : Issued m) (es : List Edit) : Issued (revise es m) := by
  have from_ : ∀ last, Issued (reviseFrom m last es) := by
    induction es with
    | nil => exact fun last c hc => hm c (List.mem_of_mem_drop hc)
    | cons e es ih =>
      intro last
      refine List.forall_mem_append.mpr ⟨fun c hc => ?_, List.forall_mem_append.mpr ⟨?_, ih _⟩⟩
      · exact hm c (List.mem_of_mem_drop (List.mem_of_mem_take hc))
      · intro c hc _
        obtain ⟨x, -, rfl⟩ := List.mem_map.mp hc
        rfl
  exact from_ 0

theorem Issued.reviseAll {m : Marked} (hm : Issued m) (revisions : List (Text → List Edit)) :
    Issued (reviseAll revisions m) := by
  induction revisions generalizing m with
  | nil => exact hm
  | cons edits revisions ih => exact ih (hm.revise _)

/-- No author wrote a null character of the draft. -/
theorem issued_draft (ds : Delimiters) {t : Text} (ht : Unmistakable t) : Issued (draft ds t) := by
  have whole : draft ds t = reviseAll (revisions ds).tail
      (revise (commentEdits (textOf (authored t))) (authored t)) := by
    simp only [draft, revisions, reviseAll, List.foldl_cons, List.tail_cons]
  have first : Issued (revise (commentEdits (textOf (authored t))) (authored t)) := by
    intro c hc e
    refine absurd ?_ ht.visible
    rw [← textOf_stripped, ← e]
    exact List.mem_map_of_mem hc
  rw [whole]
  exact first.reviseAll _

/-- **An unmistakable text is rewritten, and what is not part of a comment, a doubled at sign, a region
or a directive is carried over.** -/
theorem transform_carried {ds : Delimiters} (tame : Tame ds) {t : Text} (ht : Unmistakable t) :
    ∃ u, transform ds t = .ok u ∧ Carried ds t u := by
  have genuine := genuine_draft tame ht
  have numbers : ∀ n ∈ hits guardToken? (rewritten ds t), n < (regionsOf t).length := by
    intro n hn
    obtain ⟨v, r, k, e, found⟩ := exists_of_mem_hits hn
    have behind : textOf ((draft ds t).drop v.length) = r := by
      rw [textOf_drop, textOf_draft, e, List.drop_left]
    rw [← behind] at found
    obtain ⟨⟨x, known, -⟩, -⟩ := (genuine.of_suffix (List.drop_suffix _ _)).placeholder found
    exact (List.getElem?_eq_some_iff.mp known).1
  obtain ⟨u, hu⟩ := (transform_ok ds t).mpr fun _ => numbers
  refine ⟨u, hu, carried_of_transform hu (fun e he => ?_) fun e he => ?_⟩
  · obtain ⟨n, -, found, -⟩ := found_hitEdits spanning_guardToken? _ _ e he
    have inside := within_hitEdits spanning_guardToken? _ _ e he
    obtain ⟨-, own⟩ := (genuine.of_suffix inside).placeholder found
    rwa [List.take_left] at own
  · have given : atSentinel ≠ [] := by decide
    obtain ⟨⟨⟩, -, found, -⟩ := found_hitEdits (spanning_occurrence? given) _ _ e he
    have inside := within_hitEdits (spanning_occurrence? given) _ _ e he
    obtain ⟨r, hr, e⟩ := Option.map_eq_some_iff.mp found
    have length := (Prod.mk.inj e).2
    have placed := (revised_hits spanning_guardToken?
      (fun _ n => ((regionsOf t)[n]?).getD []) (draft ds t)).within
    have own := genuine.sentinel (issued_draft ds ht) placed
      (fun _ _ _ ⟨found, inside⟩ => clear_placed tame ht found inside) _ inside
      ⟨r, (eq_append_of_dropLead? hr).symm⟩
    rwa [length, List.take_left] at own

/-- A text with a comment, a doubled at sign, both kinds of regions, a directive that takes no arguments
and one whose arguments hold a doubled at sign and a backslash. -/
def handbook : Text :=
  "\x7b\x7b-- draft --\x7d\x7dmail me@@home @if(user == 'a@@b\\n')@verbatim @if @endverbatim" ++
    "\x7b% raw %\x7d@x\x7b% endraw %\x7d@endif".toList

theorem transform_handbook : Tame {} ∧ Unmistakable handbook ∧
    ∃ u, transform {} handbook = .ok u ∧ Carried {} handbook u := by
  have tame : Tame {} := by decide
  have unmistakable : Unmistakable handbook := by decide +kernel
  exact ⟨tame, unmistakable, transform_carried tame unmistakable⟩

/-- Two sentinels that are read as one placeholder: the condition cannot be left out. -/
example : ¬ Unmistakable "@@hk:guard:0@@" ∧
    transform {} "@@hk:guard:0@@" = .error .noSuchPlace := by decide +kernel

end Pagewright.Lowering
