import Pagewright.Lowering.Conditional
import Pagewright.Lowering.Loop
import Pagewright.Lowering.Transform
import Pagewright.Proofs.Directive.Rewrite
import Pagewright.Proofs.Text.Letters
import Pagewright.Proofs.Text.Scan

/-! # The passes side by side

The passes for conditionals, switches, loops and helpers each scan what the one before has left.
The tags that they write bring neither an at sign nor a null character into a text (`Foreign`), so a
legible source stays legible, and the passes can be followed side by side, one part at a time
(`lowered`, `rewriteHelpers_shownAll`). -/

/-! ## The characters of engine tags

The tags of conditionals, switches and loops bring neither an at sign nor a null character into a
text (`Foreign`): where the arguments of a directive hold none, its tags hold none either.  So what
one pass writes is not read as a directive by a later one, nor as a sentinel when regions are
restored. -/

namespace Pagewright.Lowering

open Text Directive

/-- The characters that no engine tag brings along: the at sign and the null character. -/
def Foreign (x : Char) : Prop := x = '@' ∨ x = '\x00'

/-- Whether a text holds no foreign character. -/
def isNative (t : Text) : Bool := !t.contains '@' && !t.contains '\x00'

theorem Foreign.not_mem {x : Char} (hx : Foreign x) {t : Text} (h : isNative t = true) : x ∉ t := by
  unfold isNative at h
  rw [Bool.and_eq_true, Bool.not_eq_true', Bool.not_eq_true'] at h
  intro hm
  have held : t.contains x = true := List.contains_iff_mem.mpr hm
  obtain rfl | rfl := hx
  · exact Bool.false_ne_true (h.1.symm.trans held)
  · exact Bool.false_ne_true (h.2.symm.trans held)

variable {x : Char}

theorem not_mem_append {t u : Text} (ht : x ∉ t) (hu : x ∉ u) : x ∉ t ++ u := fun h =>
  (List.mem_append.mp h).elim ht hu

theorem not_mem_strip {t : Text} (ht : x ∉ t) : x ∉ strip t := fun h => ht (mem_of_mem_strip h)

theorem Foreign.not_mem_tag (hx : Foreign x) {t : Text} (ht : x ∉ t) : x ∉ tag t :=
  not_mem_append (not_mem_append (hx.not_mem rfl) ht) (hx.not_mem rfl)

theorem Foreign.not_mem_ofNat (hx : Foreign x) (n : Nat) : x ∉ ofNat n := fun h => by
  have hd := isDigit_of_mem_ofNat h
  obtain rfl | rfl := hx <;> cases hd

theorem Foreign.not_mem_switchSubject (hx : Foreign x) (n : Nat) : x ∉ switchSubject n :=
  not_mem_append (hx.not_mem rfl) (hx.not_mem_ofNat n)

/-! ### Loop headers -/

theorem not_mem_join {sep : Text} {ts : List Text} (hs : x ∉ sep) (ht : ∀ t ∈ ts, x ∉ t) :
    x ∉ join sep ts := fun h =>
  (mem_join h).elim hs fun ⟨t, hm, hx⟩ => ht t hm hx

/-- What an alternative answers is without a character if both sides are. -/
theorem not_mem_of_orElse {o o' : Option Text} (h : ∀ u, o = some u → x ∉ u)
    (h' : ∀ u, o' = some u → x ∉ u) : ∀ u, (o <|> o') = some u → x ∉ u := by
  intro u hu
  cases o with
  | none => exact h' u hu
  | some v => exact h u hu

theorem not_mem_getD {o : Option Text} {t : Text} (h : ∀ u, o = some u → x ∉ u) (ht : x ∉ t) :
    x ∉ o.getD t := by
  cases o with
  | none => exact ht
  | some u => exact h u rfl

/-- What stands behind a word and a blank. -/
def behindWord? (word t : Text) : Option Text :=
  match dropLead? word t with
  | some (c :: r) => if isSpace c then some (stripLeft r) else none
  | _ => none

theorem dropDeclaration_eq (t : Text) : dropDeclaration t =
    (behindWord? "let" t <|> behindWord? "const" t <|> behindWord? "var" t).getD t := rfl

theorem not_mem_behindWord? {t : Text} (ht : x ∉ t) (word u : Text)
    (h : behindWord? word t = some u) : x ∉ u := by
  intro hu
  unfold behindWord? at h
  split at h
  · next c r e =>
    split at h
    · cases h
      have hr : x ∈ c :: r := List.mem_cons_of_mem c (mem_of_mem_stripLeft hu)
      rw [eq_append_of_dropLead? e] at ht
      exact ht (List.mem_append_right word hr)
    · cases h
  · cases h

theorem not_mem_dropDeclaration {t : Text} (ht : x ∉ t) : x ∉ dropDeclaration t := by
  have drop := not_mem_behindWord? ht
  rw [dropDeclaration_eq]
  exact not_mem_getD
    (not_mem_of_orElse (drop "let") (not_mem_of_orElse (drop "const") (drop "var"))) ht

theorem not_mem_splitTop (sep : Text) {t : Text} (ht : x ∉ t) : ∀ p ∈ splitTop sep t, x ∉ p :=
  fun _ hp h => ht (mem_of_mem_splitTop hp h)

theorem not_mem_keywordHeader? {keyword e : Text} (hk : x ∉ keyword) (he : x ∉ e)
    {h : Text × Text} (hh : keywordHeader? keyword e = some h) : x ∉ h.1 ∧ x ∉ h.2 := by
  have pieces := not_mem_splitTop keyword he
  unfold keywordHeader? at hh
  split at hh
  · next first second more e' =>
    cases hh
    rw [e'] at pieces
    refine ⟨not_mem_join hk fun t ht => pieces t (List.mem_cons_of_mem first ht), ?_⟩
    exact not_mem_dropDeclaration (pieces first List.mem_cons_self)
  · cases hh

/-- A loop header holds no foreign character, if the text it is read from holds none. -/
theorem Foreign.not_mem_header (hx : Foreign x) {args : Text} {h : LoopHeader}
    (hh : loopHeader? args = some h) (ha : x ∉ args) : x ∉ h.collection ∧ x ∉ h.target := by
  have he : x ∉ join " " (words args) :=
    not_mem_join (hx.not_mem rfl) fun w hw h => ha (mem_of_mem_words hw h)
  unfold loopHeader? at hh
  generalize join " " (words args) = e at he hh
  have kept : ∀ {g : LoopHeader}, ((some g).bind fun header =>
      if header.collection.isEmpty || !isLoopTarget header.target then none
      else some header) = some h → h = g := by
    intro g hg
    rw [Option.bind_some] at hg
    split at hg
    · cases hg
    · exact (Option.some.inj hg).symm
  have pieces : ∀ p ∈ (splitTop " as " e).reverse, x ∉ p := fun p hp =>
    not_mem_splitTop " as " he p (List.mem_reverse.mp hp)
  simp only at hh
  split at hh
  · next target before earlier er =>
    rw [er] at pieces
    have hc : x ∉ join " as " (before :: earlier).reverse :=
      not_mem_join (hx.not_mem rfl) fun t ht =>
        pieces t (List.mem_cons_of_mem target (List.mem_reverse.mp ht))
    have ht := not_mem_splitTop "=>" (pieces target List.mem_cons_self)
    split at hh
    · next key value ek =>
      rw [ek] at ht
      rw [kept hh]
      refine ⟨hc, not_mem_append (not_mem_append (ht key List.mem_cons_self) (hx.not_mem rfl)) ?_⟩
      exact ht value (List.mem_cons_of_mem key List.mem_cons_self)
    · rw [kept hh]
      exact ⟨hc, pieces target List.mem_cons_self⟩
  · cases hof : keywordHeader? " of " e with
    | some found =>
        rw [hof] at hh
        rw [kept hh]
        exact not_mem_keywordHeader? (hx.not_mem rfl) he hof
    | none =>
        cases hin : keywordHeader? " in " e with
        | none =>
            rw [hof, hin] at hh
            cases hh
        | some found =>
            rw [hof, hin] at hh
            rw [kept hh]
            exact not_mem_keywordHeader? (hx.not_mem rfl) he hin

theorem Foreign.not_mem_loopOpening (hx : Foreign x) (n outer : Nat) {h : LoopHeader}
    (hc : x ∉ h.collection) (ht : x ∉ h.target) : x ∉ loopOpening n outer h := by
  have hrow : x ∉ ("_hk_row_" : Text) ++ ofNat n :=
    not_mem_append (hx.not_mem rfl) (hx.not_mem_ofNat n)
  have hparent : x ∉ (if outer = 0 then ("none" : Text) else "loop") := by
    split <;> exact hx.not_mem rfl
  have hpairs : x ∉ (if h.pairs then ("true" : Text) else "false") := by
    split <;> exact hx.not_mem rfl
  unfold loopOpening
  refine not_mem_append (not_mem_append (hx.not_mem_tag ?_) (hx.not_mem_tag ?_)) (hx.not_mem_tag ?_)
  · refine not_mem_append (not_mem_append (not_mem_append (not_mem_append (not_mem_append
      (not_mem_append ?_ hparent) (hx.not_mem rfl)) (hx.not_mem_ofNat _)) (hx.not_mem rfl)) hpairs)
      (hx.not_mem rfl)
    exact not_mem_append (not_mem_append (not_mem_append (not_mem_append (hx.not_mem rfl) hrow)
      (hx.not_mem rfl)) hc) (hx.not_mem rfl)
  · exact not_mem_append (not_mem_append (hx.not_mem rfl) hrow) (hx.not_mem rfl)
  · exact not_mem_append (not_mem_append (not_mem_append (not_mem_append (hx.not_mem rfl) ht)
      (hx.not_mem rfl)) hrow) (hx.not_mem rfl)

end Pagewright.Lowering

/-! ## One part at a time

Each pass leaves a legible source, since its tags start with a curly bracket and hold no at sign, and
a removed `@break` leaves nothing behind that the text around it could run into. -/

namespace Pagewright.Lowering

open Text Directive

/-! ### What the handlers read -/

/-- The handler for conditionals, as one with a state. -/
def conditionalStep (s : Unit) (d : Directive) : Option Text × Unit := (conditionalTag? d, s)

/-- The handler for helpers, as one with a state. -/
def helperStep (ds : Delimiters) (s : Unit) (d : Directive) : Option Text × Unit :=
  (helperTag? ds.start ds.stop d, s)

theorem conditionalStep_blind : Blind conditionalStep := by
  intro s d e hn ha
  simp only [conditionalStep, conditionalTag?, hn, ha]

theorem switchTag?_blind : Blind switchTag? := by
  intro s d e hn ha
  simp only [switchTag?, hn, ha]

theorem loopTag?_blind : Blind loopTag? := by
  intro s d e hn ha
  simp only [loopTag?, hn, ha]

theorem helperStep_blind (ds : Delimiters) : Blind (helperStep ds) := by
  intro s d e hn ha
  simp only [helperStep, helperTag?, Directive.argumentList, hn, ha]

/-! ### What the handlers write -/

/-- A text that starts with a tag and holds no at sign. -/
def Tagged (t : Text) : Prop := ∃ r, t = '\x7b' :: r ∧ '@' ∉ r

theorem Tagged.bracketed {t : Text} (h : Tagged t) : Bracketed t := by
  obtain ⟨r, rfl, hr⟩ := h
  exact ⟨_, r, rfl, Or.inl rfl, hr⟩

theorem tagged_tag {t : Text} (h : '@' ∉ t) : Tagged (tag t) := by
  have hm : '@' ∉ tag t := Foreign.not_mem_tag (Or.inl rfl) h
  exact ⟨_, rfl, fun hr => hm (List.mem_cons_of_mem _ hr)⟩

theorem Tagged.append {t u : Text} (h : Tagged t) (hu : '@' ∉ u) : Tagged (t ++ u) := by
  obtain ⟨r, rfl, hr⟩ := h
  exact ⟨r ++ u, rfl, not_mem_append hr hu⟩

/-- The arguments of a part that is sound hold no at sign. -/
theorem not_mem_args {p : Part} (hp : p.Sound) {d : Directive} (hd : p.mark? 0 = some d) {a : Text}
    (ha : d.args = some a) : '@' ∉ a := by
  cases p with
  | text t => cases hd
  | word n =>
      cases hd
      cases ha
  | call n gap args =>
      cases hd
      cases ha
      exact hp.2.2.2.2

theorem conditionalTag?_tagged {d : Directive} {new : Text} (ha : ∀ a, d.args = some a → '@' ∉ a)
    (h : conditionalTag? d = some new) : Tagged new := by
  unfold conditionalTag? at h
  split at h
  · cases h
    exact tagged_tag (by decide)
  · split at h
    · cases h
      exact tagged_tag (by decide)
    · split at h
      · cases h
      · cases h
      · next e hn he =>
        obtain ⟨a, hargs, rfl⟩ := Option.map_eq_some_iff.mp he
        have hs : '@' ∉ strip a := not_mem_strip (ha a hargs)
        repeat' split at h
        all_goals
          cases h
          refine tagged_tag ?_
          simp only [List.mem_append, not_or, hs, not_false_eq_true, and_true]
          decide

theorem switchTag?_tagged {s : Switches} {d : Directive} {new : Text}
    (ha : ∀ a, d.args = some a → '@' ∉ a) (h : (switchTag? s d).1 = some new) :
    Tagged new ∨ (d.name = "break" ∧ new = []) := by
  have hx : Foreign '@' := Or.inl rfl
  unfold switchTag? at h
  split at h
  · split at h
    · cases h
    · next e he =>
      cases h
      refine Or.inl (Tagged.append (tagged_tag ?_) (by decide))
      exact not_mem_append (not_mem_append (not_mem_append (not_mem_append (hx.not_mem rfl)
        (hx.not_mem_switchSubject _)) (hx.not_mem rfl)) (not_mem_strip (ha e he))) (hx.not_mem rfl)
  · split at h
    · cases h
    · split at h
      · split at h
        · cases h
        · next e he =>
          cases h
          refine Or.inl (tagged_tag ?_)
          exact not_mem_append (not_mem_append (not_mem_append (not_mem_append (hx.not_mem rfl)
            (hx.not_mem_switchSubject _)) (hx.not_mem rfl)) (not_mem_strip (ha e he)))
            (hx.not_mem rfl)
      · split at h
        · next hb =>
          cases h
          exact Or.inr ⟨hb, rfl⟩
        · split at h <;> cases h <;> exact Or.inl (tagged_tag (by decide))

theorem loopOpening_tagged {n outer : Nat} {args : Text} {h : LoopHeader} (ha : '@' ∉ args)
    (hh : loopHeader? args = some h) : Tagged (loopOpening n outer h) := by
  have hx : Foreign '@' := Or.inl rfl
  obtain ⟨hc, ht⟩ := hx.not_mem_header hh ha
  have hm := hx.not_mem_loopOpening n outer hc ht
  exact ⟨_, rfl, fun hr => hm (List.mem_cons_of_mem _ hr)⟩

theorem loopTag?_tagged {s : Loops} {d : Directive} {new : Text}
    (ha : ∀ a, d.args = some a → '@' ∉ a) (h : (loopTag? s d).1 = some new) : Tagged new := by
  have ends : Tagged (tag "endwith" ++ tag "endfor") := (tagged_tag (by decide)).append (by decide)
  unfold loopTag? at h
  split at h
  · simp only at h
    split at h
    · cases h
    · next header hh =>
      cases h
      split at hh
      · cases hh
      · cases hh
      · next args _ hargs => exact loopOpening_tagged (ha args hargs) hh
  · split at h
    · split at h
      · cases h
      · split at h
        · split at h
          · cases h
            exact (tagged_tag (by decide)).append (by decide)
          · cases h
        · cases h
    · split at h
      · cases h
      · simp only at h
        split at h
        · cases h
        · split at h <;> cases h
          · exact tagged_tag (by decide)
          · exact ends

/-! ### Legibility between the passes -/

theorem conditionals_legible {ps : List Part} (h : Legible ps) :
    Legible (walk (rewritePart conditionalNames conditionalStep) () ps).1 := by
  refine h.becomes (walk_forall₂ () fun s p hp => rewritePart_becomes fun d new hd hn => Or.inl ?_)
  exact (conditionalTag?_tagged (fun a => not_mem_args (h.sound hp) hd) hn).bracketed

theorem switches_legible {ps : List Part} (h : Legible ps) (s : Switches) :
    Legible (walk (rewritePart switchNames switchTag?) s ps).1 := by
  refine h.becomes (walk_forall₂ s fun s p hp => rewritePart_becomes fun d new hd hn => ?_)
  refine (switchTag?_tagged (fun a => not_mem_args (h.sound hp) hd) hn).imp Tagged.bracketed ?_
  rintro ⟨hb, rfl⟩
  have hp' := (h.sound hp).eq_word hd (by rw [hb]; decide)
  exact ⟨hb ▸ hp', rfl⟩

theorem loops_legible {ps : List Part} (h : Legible ps) (s : Loops) :
    Legible (walk (rewritePart loopNames loopTag?) s ps).1 := by
  refine h.becomes (walk_forall₂ s fun s p hp => rewritePart_becomes fun d new hd hn => Or.inl ?_)
  exact (loopTag?_tagged (fun a => not_mem_args (h.sound hp) hd) hn).bracketed

/-! ### One walk -/

/-- What the passes for conditionals, switches, loops and helpers make of a part, one after the
other; the open switches and loops are handed on. -/
def lowered (ds : Delimiters) (s : Switches × Loops) (p : Part) : Part × (Switches × Loops) :=
  let q := rewritePart conditionalNames conditionalStep () p
  let r := rewritePart switchNames switchTag? s.1 q.1
  let u := rewritePart loopNames loopTag? s.2 r.1
  ((rewritePart helperNames (helperStep ds) () u.1).1, (r.2, u.2))

theorem walk_lowered (ds : Delimiters) : ∀ (s : Switches) (l : Loops) (ps : List Part),
    (walk (lowered ds) (s, l) ps).1 =
      (walk (rewritePart helperNames (helperStep ds)) ()
        (walk (rewritePart loopNames loopTag?) l
          (walk (rewritePart switchNames switchTag?) s
            (walk (rewritePart conditionalNames conditionalStep) () ps).1).1).1).1
  | s, l, [] => rfl
  | s, l, p :: ps => by
      simp only [walk]
      exact congrArg _ (walk_lowered ds _ _ ps)

/-- **The first four passes over a legible source are one walk over its parts.** -/
theorem rewriteHelpers_shownAll (ds : Delimiters) {ps : List Part} (h : Legible ps) :
    rewriteHelpers (rewriteLoops (rewriteSwitches (rewriteConditionals (shownAll ps))))
        ds.start ds.stop =
      shownAll (walk (lowered ds) ({}, {}) ps).1 := by
  have h1 := conditionals_legible h
  have h2 := switches_legible h1 {}
  have h3 := loops_legible h2 {}
  have e1 : rewriteConditionals (shownAll ps) =
      shownAll (walk (rewritePart conditionalNames conditionalStep) () ps).1 :=
    congrArg Prod.fst (replaceWith_shownAll conditionalNames conditionalStep_blind () h)
  have e2 := congrArg Prod.fst (replaceWith_shownAll switchNames switchTag?_blind {} h1)
  have e3 := congrArg Prod.fst (replaceWith_shownAll loopNames loopTag?_blind {} h2)
  have e4 := congrArg Prod.fst
    (replaceWith_shownAll helperNames (helperStep_blind ds) () h3)
  rw [walk_lowered, e1, rewriteSwitches, e2, rewriteLoops, e3]
  exact e4

end Pagewright.Lowering
