import Pagewright.Proofs.Digest.Fingerprint
import Pagewright.Proofs.Directive.Outline
import Pagewright.Proofs.Lowering.Passes
import Pagewright.Proofs.Lowering.Plain

/-! # The passes up to the last

The pass for stacks reads the whole text to find the body of a once block, so what it makes of a part
depends on the place of the part.  Its markers begin with a bracket and hold no at sign, so the last
pass finds a legible source, too (`markers_legible`), and the whole rewriting of a legible source
makes one part of every part (`rewriteAll_shownAll`).  Between the directives that open and close a
once block without an id stands what the first four passes have made of its body, and the fingerprint
of that is its key (`getElem?_finished`).

Main definitions: `finished`, `Closed`. -/

namespace Pagewright.Lowering

open Text Directive

/-! ### The characters of markers -/

theorem not_mem_fingerprint {x : Char} (digit : ∀ d < 16, x ≠ Nat.digitChar d) (t : Text) :
    x ∉ fingerprint t := by
  intro h
  obtain ⟨w, -, hw⟩ := List.mem_flatMap.mp h
  obtain hw | hw := List.mem_append.mp hw
  · exact digit 0 (by decide) (List.eq_of_mem_replicate hw)
  · exact not_mem_toDigits digit _ hw

theorem Foreign.not_mem_fingerprint {x : Char} (hx : Foreign x) (t : Text) : x ∉ fingerprint t :=
  Lowering.not_mem_fingerprint (by obtain rfl | rfl := hx <;> decide) t

/-- The key of a once block that has no id. -/
def contentKey (body : Text) : Text := "fp-" ++ (fingerprint body).take 16

theorem Foreign.not_mem_contentKey {x : Char} (hx : Foreign x) (body : Text) :
    x ∉ contentKey body :=
  not_mem_append (hx.not_mem rfl) fun h => hx.not_mem_fingerprint _ (List.mem_of_mem_take h)

theorem not_mem_markerName? {e name : Text} (h : markerName? e = some name) : '@' ∉ name := by
  unfold markerName? at h
  split at h
  · cases h
  · cases h
  · cases h
    intro hm
    obtain ⟨c, -, hc⟩ := List.mem_map.mp hm
    split at hc
    · next word =>
      rw [hc] at word
      exact absurd word (by decide)
    · exact absurd hc (by decide)

theorem not_mem_onceKey? {t key : Text} {d : Directive} (h : onceKey? t d = some key) :
    '@' ∉ key := by
  unfold onceKey? at h
  split at h
  · exact not_mem_markerName? h
  · obtain ⟨closer, -, rfl⟩ := Option.map_eq_some_iff.mp h
    exact Foreign.not_mem_contentKey (Or.inl rfl) _

theorem bracketed_marker {kind name : Text} (hk : '@' ∉ kind) (hn : '@' ∉ name) :
    Bracketed (marker kind name) := by
  refine ⟨'<', "!--hk:".toList ++ kind ++ ":".toList ++ name ++ "-->".toList, rfl, Or.inr rfl, ?_⟩
  exact not_mem_append (not_mem_append (not_mem_append (not_mem_append (by decide) hk) (by decide))
    hn) (by decide)

/-- The names of the open markers hold no at sign. -/
def Plainly (s : OpenMarkers) : Prop := ∀ m ∈ s, '@' ∉ m.2

theorem plainly_cons {kind name : Text} {s : OpenMarkers} (hn : '@' ∉ name) (hs : Plainly s) :
    Plainly ((kind, name) :: s) :=
  List.forall_mem_cons.mpr ⟨hn, hs⟩

theorem plainly_closeMarker? {kind name : Text} : ∀ {s s' : OpenMarkers}, Plainly s →
    closeMarker? kind s = some (name, s') → '@' ∉ name ∧ Plainly s'
  | (k, other) :: rest, s', hs, h => by
    obtain ⟨ho, hr⟩ := List.forall_mem_cons.mp hs
    rw [closeMarker?] at h
    split at h
    · cases h
      exact ⟨ho, hr⟩
    · obtain ⟨⟨found, rest'⟩, hf, e⟩ := Option.map_eq_some_iff.mp h
      obtain ⟨hn, hs'⟩ := plainly_closeMarker? hr hf
      cases e
      exact ⟨hn, plainly_cons ho hs'⟩

/-- What the pass for stacks writes begins with a bracket. -/
theorem stackMarker?_bracketed (t : Text) {s : OpenMarkers} {d : Directive}
    (hd : stackNames.contains d.name = true) (hs : Plainly s) :
    (∀ new, (stackMarker? t s d).1 = some new → Bracketed new) ∧ Plainly (stackMarker? t s d).2 := by
  have kinds : ∀ n ∈ stackNames, '@' ∉ n ∧ '@' ∉ "end".toList ++ n.drop 3 := by decide
  obtain ⟨opens, closes⟩ := kinds d.name (List.contains_iff_mem.mp hd)
  unfold stackMarker?
  split
  · split
    · exact ⟨nofun, hs⟩
    · next name hname =>
      obtain ⟨e, -, he⟩ := Option.bind_eq_some_iff.mp hname
      have plain := not_mem_markerName? he
      refine ⟨fun new h => Option.some.inj h ▸ bracketed_marker opens plain, ?_⟩
      dsimp only
      split
      · exact hs
      · exact plainly_cons plain hs
  · split
    · split
      · exact ⟨nofun, hs⟩
      · next key hkey =>
        have plain := not_mem_onceKey? hkey
        exact ⟨fun new h => Option.some.inj h ▸ bracketed_marker (by decide) plain,
          plainly_cons plain hs⟩
    · dsimp only
      split
      · exact ⟨nofun, hs⟩
      · next name rest hclose =>
        obtain ⟨plain, hs'⟩ := plainly_closeMarker? hs hclose
        exact ⟨fun new h => Option.some.inj h ▸ bracketed_marker closes plain, hs'⟩

/-! ### The last two passes -/

/-- The handler for include directives, as one with a state. -/
def includeStep (s : Unit) (d : Directive) : Option Text × Unit := (includeTag? d, s)

theorem includeStep_blind : Blind includeStep := fun s _ _ hn ha =>
  congrArg (·, s) (includeTag?_blind hn ha)

theorem markers_legible (t : Text) {ps : List Part} (h : Legible ps) (pos : Nat) :
    Legible (walkFrom (rewriteAt stackNames (stackMarker? t)) pos [] ps).1 := by
  refine h.becomes (walkFrom_forall₂ (I := Plainly) (fun pos s hs p _ => ?_) nofun)
  refine rewriteAt_becomes _ hs fun d _ hn => ?_
  obtain ⟨answers, next⟩ := stackMarker?_bracketed t hn hs
  exact ⟨fun new h => Or.inl (answers new h), next⟩

/-- What the first four passes make of the parts of a source. -/
def advanced (ds : Delimiters) (ps : List Part) : List Part := (walk (lowered ds) ({}, {}) ps).1

/-- What all passes make of the parts of a source, one part of each. -/
def finished (ds : Delimiters) (ps : List Part) : List Part :=
  (walk (rewritePart includeNames includeStep) ()
    (walkFrom (rewriteAt stackNames (stackMarker? (shownAll (advanced ds ps)))) 0 []
      (advanced ds ps)).1).1

/-- **All passes over a legible source are walks over its parts**, if the first four leave a legible
source to the others. -/
theorem rewriteAll_shownAll (ds : Delimiters) {ps : List Part} (h : Legible ps)
    (h' : Legible (advanced ds ps)) : rewriteAll ds (shownAll ps) = shownAll (finished ds ps) := by
  have marking := congrArg Prod.fst
    (replaceWith_placed stackNames (stackMarker? (shownAll (advanced ds ps))) [] h')
  have marked := markers_legible (shownAll (advanced ds ps)) h' 0
  have includes := congrArg Prod.fst
    (replaceWith_shownAll includeNames includeStep_blind () marked)
  unfold rewriteAll
  rw [rewriteHelpers_shownAll ds h]
  exact (congrArg rewriteIncludes marking).trans includes

/-! ### The body of a once block -/

/-- All once blocks of a stretch are closed in it, and `depth` others that are open before it. -/
def Closed : Nat → List Part → Prop
  | depth, [] => depth = 0
  | depth, p :: ps =>
    if p.named? = some "once".toList then Closed (depth + 1) ps
    else if p.named? = some "endonce".toList then 0 < depth ∧ Closed (depth - 1) ps
    else Closed depth ps

instance Closed.decide : ∀ (depth : Nat) (ps : List Part), Decidable (Closed depth ps)
  | depth, [] => inferInstanceAs (Decidable (depth = 0))
  | depth, p :: ps =>
    have := Closed.decide (depth + 1) ps
    have := Closed.decide (depth - 1) ps
    have := Closed.decide depth ps
    inferInstanceAs (Decidable (if p.named? = some "once".toList then Closed (depth + 1) ps
      else if p.named? = some "endonce".toList then 0 < depth ∧ Closed (depth - 1) ps
      else Closed depth ps))

/-- A closer behind a closed stretch closes what was open before it. -/
theorem balance?_stretch {e : Directive} (he : e.name = "endonce".toList) (ds : List Directive) :
    ∀ {ps : List Part} {depth pos : Nat}, Closed depth ps →
      balance? "once" "endonce" depth (marks pos ps ++ e :: ds) =
        some ((marks pos ps).length, e)
  | [], depth, pos, h => by
    obtain rfl : depth = 0 := h
    exact balance?_closed (f := ("once".toList, "endonce".toList)) (by decide) he
  | p :: ps, depth, pos, h => by
    have differ : "once".toList ≠ "endonce".toList := by decide
    cases hm : p.mark? pos with
    | none =>
      have nameless : p.named? = none := by
        cases p with
        | text t => rfl
        | word n => cases hm
        | call n gap args => cases hm
      rw [Closed, nameless, if_neg nofun, if_neg nofun] at h
      rw [marks, hm]
      exact balance?_stretch he ds h
    | some d =>
      have name := name_mark? hm
      rw [Closed, name] at h
      simp only [Option.some.injEq] at h
      rw [marks, hm, Option.toList_some, List.singleton_append, List.cons_append, balance?_cons,
        List.length_cons]
      split at h
      · next opens =>
        rw [if_pos opens, balance?_stretch he ds h]
        rfl
      · next opens =>
        rw [if_neg opens]
        split at h
        · next closes =>
          obtain ⟨positive, h⟩ := h
          obtain ⟨outer, rfl⟩ := Nat.exists_eq_succ_of_ne_zero (Nat.pos_iff_ne_zero.mp positive)
          have inner : Closed outer ps := h
          rw [if_pos closes]
          simp only
          rw [balance?_stretch he ds inner]
          rfl
        · next closes =>
          rw [if_neg closes, balance?_stretch he ds h]
          rfl

/-- The name of a directive that the first four passes do not look for. -/
def Unseen (n : Text) : Prop :=
  n ∉ conditionalNames ∧ n ∉ switchNames ∧ n ∉ loopNames ∧ n ∉ helperNames

theorem lowered_other (ds : Delimiters) (s : Switches × Loops) {p : Part} {n : Text}
    (hp : p.named? = some n) (hn : Unseen n) : lowered ds s p = (p, s) := by
  obtain ⟨d, hd, rfl⟩ := mark?_named hp 0
  have absent : ∀ {names : List Text}, d.name ∉ names → names.contains d.name = false := by
    intro names h
    rw [Bool.eq_false_iff, Ne, List.contains_iff_mem]
    exact h
  obtain ⟨hc, hs, hl, hh⟩ := hn
  simp only [lowered, rewritePart_other conditionalStep () hd (absent hc),
    rewritePart_other switchTag? s.1 hd (absent hs), rewritePart_other loopTag? s.2 hd (absent hl),
    rewritePart_other (helperStep ds) () hd (absent hh)]

/-- Parts without directives that they look for are left as they are by the first four passes. -/
theorem walk_unseen (ds : Delimiters) : ∀ (s : Switches × Loops) {ps : List Part},
    (∀ p ∈ ps, ∀ n, p.named? = some n → Unseen n) → walk (lowered ds) s ps = (ps, s)
  | _, [], _ => rfl
  | s, p :: ps, h => by
    have here : lowered ds s p = (p, s) := by
      cases hp : p.named? with
      | some n => exact lowered_other ds s hp (h p List.mem_cons_self n hp)
      | none =>
        cases p with
        | text t => rfl
        | word n => cases hp
        | call n g args => cases hp
    rw [walk, here]
    simp only
    rw [walk_unseen ds s fun q hq => h q (List.mem_cons_of_mem p hq)]

/-- The first four passes leave a part as it is or make text of it. -/
theorem named?_lowered (ds : Delimiters) (s : Switches × Loops) (p : Part) :
    (lowered ds s p).1 = p ∨ (lowered ds s p).1.named? = none := by
  have step : ∀ {σ : Type} (names : List Text) (handler : σ → Directive → Option Text × σ) (s : σ)
      (q : Part), (q = p ∨ q.named? = none) →
        (rewritePart names handler s q).1 = p ∨ (rewritePart names handler s q).1.named? = none := by
    intro σ names handler s q hq
    unfold rewritePart
    split
    · exact hq
    · split
      · split
        · exact Or.inr rfl
        · exact hq
      · exact hq
  unfold lowered
  exact step _ _ _ _ (step _ _ _ _ (step _ _ _ _ (step _ _ _ _ (Or.inl rfl))))

theorem once_unseen : ∀ n : Text, n = "once".toList ∨ n = "endonce".toList → Unseen n := by
  unfold Unseen
  rintro n (rfl | rfl) <;> decide

theorem closed_lowered (ds : Delimiters) : ∀ {ps : List Part} {depth : Nat}
    (s : Switches × Loops), Closed depth ps → Closed depth (walk (lowered ds) s ps).1
  | [], _, _, h => h
  | p :: ps, depth, s, h => by
    rw [walk, Closed]
    by_cases opens : p.named? = some "once".toList
    · rw [Closed, if_pos opens] at h
      rw [lowered_other ds s opens (once_unseen _ (Or.inl rfl)), if_pos opens]
      exact closed_lowered ds s h
    · by_cases closes : p.named? = some "endonce".toList
      · rw [Closed, if_neg opens, if_pos closes] at h
        rw [lowered_other ds s closes (once_unseen _ (Or.inr rfl)), if_neg opens, if_pos closes]
        exact ⟨h.1, closed_lowered ds s h.2⟩
      · rw [Closed, if_neg opens, if_neg closes] at h
        obtain same | text := named?_lowered ds s p
        · rw [same, if_neg opens, if_neg closes]
          exact closed_lowered ds _ h
        · have unnamed {x : Text} : (none : Option Text) ≠ some x := (Option.some_ne_none x).symm
          rw [text, if_neg unnamed, if_neg unnamed]
          exact closed_lowered ds _ h

/-- The key of a once block without an id is that of the text up to its closer. -/
theorem onceKey?_block {pre : Text} {body after : List Part} {d : Directive}
    (hd : d.argumentList = []) (stop : d.stop = pre.length) (closed : Closed 0 body)
    (legible : Legible (body ++ .word "endonce" :: after)) :
    onceKey? (pre ++ shownAll (body ++ .word "endonce" :: after)) d =
      some (contentKey (shownAll body)) := by
  let e : Directive := ⟨"endonce", none, pre.length + (shownAll body).length,
    pre.length + (shownAll body).length + (Part.word "endonce").shown.length, false⟩
  have listed : directives (pre ++ shownAll (body ++ .word "endonce" :: after)) pre.length =
      marks pre.length body ++ e :: marks e.stop after := by
    rw [directives, List.drop_left, scanFrom_shownAll legible, marks_append]
    rfl
  have found : blockEnd? "once" "endonce"
      (pre ++ shownAll (body ++ .word "endonce" :: after)) pre.length = some e := by
    rw [blockEnd?, listed, balance?_stretch rfl _ closed, Option.map_some]
  have cut : slice (pre ++ shownAll (body ++ .word "endonce" :: after)) pre.length e.start =
      shownAll body := by
    rw [shownAll_append]
    exact slice_middle pre (shownAll body) _
  unfold onceKey?
  rw [hd, stop]
  simp only
  rw [found, Option.map_some, cut]
  rfl

/-- A directive that opens a once block and gives it no id. -/
def Idless (p : Part) : Prop :=
  ∃ d, p.mark? 0 = some d ∧ d.name = "once".toList ∧ d.argumentList = []

/-- What the first four passes make of a stretch that stands behind other parts. -/
def within (ds : Delimiters) (before body : List Part) : List Part :=
  (walk (lowered ds) (walk (lowered ds) ({}, {}) before).2 body).1

theorem getElem?_walkFrom {σ : Type} (f : Nat → σ → Part → Part × σ) (pos : Nat) (s : σ)
    (before after : List Part) (p : Part) :
    (walkFrom f pos s (before ++ p :: after)).1[before.length]? =
      some (f (pos + (shownAll before).length) (walkFrom f pos s before).2 p).1 := by
  have length := length_walkFrom f pos s before
  rw [walkFrom_append, List.getElem?_append_right (Nat.le_of_eq length), length, Nat.sub_self]
  rfl

theorem getElem?_walk_text {σ : Type} {names : List Text}
    {handler : σ → Directive → Option Text × σ} {t : Text} : ∀ (s : σ) (ps : List Part) (i : Nat),
    ps[i]? = some (.text t) → (walk (rewritePart names handler) s ps).1[i]? = some (.text t)
  | s, p :: ps, 0, h => by
    obtain rfl : p = .text t := Option.some.inj h
    rfl
  | s, p :: ps, i + 1, h => getElem?_walk_text _ ps i h

/-- **Where a once block without an id opens stands its marker**, with the key of what the first four
passes have made of its body. -/
theorem getElem?_finished (ds : Delimiters) {before body after : List Part} {opener : Part}
    (idless : Idless opener) (closed : Closed 0 body)
    (legible : Legible (advanced ds (before ++ opener :: (body ++ .word "endonce" :: after)))) :
    (finished ds (before ++ opener :: (body ++ .word "endonce" :: after)))[before.length]? =
      some (.text (marker "once" (contentKey (shownAll (within ds before body))))) := by
  obtain ⟨d, hd, name, unnamed⟩ := idless
  have plain : ∀ s, lowered ds s opener = (opener, s) := fun s =>
    lowered_other ds s (name_mark? hd) (once_unseen _ (Or.inl name))
  have ends : ∀ s, lowered ds s (.word "endonce") = (.word "endonce", s) := fun s =>
    lowered_other ds s rfl (once_unseen _ (Or.inr rfl))
  obtain ⟨rest, split⟩ : ∃ rest,
      advanced ds (before ++ opener :: (body ++ .word "endonce" :: after)) =
        advanced ds before ++ opener :: (within ds before body ++ .word "endonce" :: rest) := by
    refine ⟨(walk (lowered ds) (walk (lowered ds) (walk (lowered ds) ({}, {}) before).2 body).2
      after).1, ?_⟩
    rw [advanced, walk_append, walk, plain, walk_append, walk, ends]
    rfl
  rw [finished]
  rw [split] at legible ⊢
  refine getElem?_walk_text _ _ _ ?_
  let t := shownAll
    (advanced ds before ++ opener :: (within ds before body ++ .word "endonce" :: rest))
  have length : (advanced ds before).length = before.length := length_walk _ _ _
  rw [← length, getElem?_walkFrom]
  obtain ⟨e, he, sameName, sameArgs, -, stop, -⟩ :=
    mark?_shift hd (0 + (shownAll (advanced ds before)).length)
  have source : t = (shownAll (advanced ds before) ++ opener.shown) ++
      shownAll (within ds before body ++ .word "endonce" :: rest) := by
    simp only [t, shownAll_append, shownAll_cons, List.append_assoc]
  have key : onceKey? t e = some (contentKey (shownAll (within ds before body))) := by
    have list : e.argumentList = [] := by
      rw [Directive.argumentList, sameArgs]
      exact unnamed
    rw [source]
    refine onceKey?_block list ?_ (closed_lowered ds _ closed) ?_
    · rw [stop, List.length_append, Nat.zero_add]
    · exact (legible.suffix (List.suffix_append _ _)).tail
  have once : e.name = "once".toList := sameName.trans name
  have answer : ∀ s, stackMarker? t s e =
      (some (marker "once" (contentKey (shownAll (within ds before body)))),
        ("once".toList, contentKey (shownAll (within ds before body))) :: s) := by
    intro s
    unfold stackMarker?
    rw [if_neg (by rw [once]; decide), if_pos once, key]
  have listed : stackNames.contains e.name = true := by
    rw [once]
    decide
  unfold rewriteAt
  rw [he]
  simp only
  rw [if_pos listed, answer]

end Pagewright.Lowering
