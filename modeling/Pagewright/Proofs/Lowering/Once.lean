import Pagewright.Proofs.Lowering.Marking
import Pagewright.Proofs.Lowering.Placeholder

/-! # The keys of once blocks

A once block without an id is known by the fingerprint of its body, but not of its body as it is
written: by then the regions of the template have given way to placeholders, and the conditionals,
switches, loops and helpers to engine tags.  So two blocks have one key if and only if the rewritten
bodies are the same (`once_keys`).  If nothing in the bodies is rewritten, they are the bodies as
written.  Else the numbers of regions, switches and loops count, and what stands in the regions does
not.

Main definitions: `OnceBlock`, `OnceBlock.authored`, `OnceBlock.rewritten`, `OnceBlock.key`. -/

namespace Pagewright.Lowering

open Text Directive

/-! ### Between the passes -/

/-- A part that one pass has left as it is, or made text of, goes on to the next one. -/
theorem becomes_rewritePart {σ : Type} {names : List Text}
    {handler : σ → Directive → Option Text × σ} {s : σ} {p q : Part} (hq : Becomes p q)
    (hp : Becomes p (rewritePart names handler s p).1) :
    Becomes p (rewritePart names handler s q).1 := by
  obtain rfl | ⟨t, rfl, ht⟩ | ⟨rfl, rfl⟩ := hq
  · exact hp
  · exact Or.inr (Or.inl ⟨t, rfl, ht⟩)
  · exact Or.inr (Or.inr ⟨rfl, rfl⟩)

/-- The output of a value begins as output expressions do. -/
theorem bracketed_jsonTag {ds : Delimiters} (hs : Bracketed ds.start) (hd : '@' ∉ ds.stop)
    {e : Text} (he : '@' ∉ e) : Bracketed (Draft.jsonTag ds e) := by
  obtain ⟨c, r, start, hc, hr⟩ := hs
  have plain : '@' ∉ ds.start := by
    rw [start, List.mem_cons, not_or]
    exact ⟨by obtain rfl | rfl := hc <;> decide, hr⟩
  have all := not_mem_jsonTag (x := '@') (Or.inl rfl) plain hd he
  refine ⟨c, (Draft.jsonTag ds e).tail, ?_, hc, fun h => all (List.mem_of_mem_tail h)⟩
  unfold Draft.jsonTag
  rw [start]
  rfl

/-- What a helper for values writes begins as output expressions do. -/
theorem helperTag?_bracketed {ds : Delimiters} (hs : Bracketed ds.start) (ht : '@' ∉ ds.stop)
    {d : Directive} {new : Text} (json : d.name = "json".toList)
    (args : ∀ a, d.args = some a → '@' ∉ a) (h : helperTag? ds.start ds.stop d = some new) :
    Bracketed new := by
  unfold helperTag? at h
  split at h
  · cases h
  · next value more list =>
    rw [if_pos json] at h
    cases h
    rw [Directive.argumentList] at list
    cases ha : d.args with
    | none =>
      rw [ha] at list
      cases list
    | some a =>
      rw [ha] at list
      have given : arguments a = value :: more := list
      have tagged := bracketed_jsonTag hs ht (args a ha)
      rwa [Draft.jsonTag, given] at tagged

/-- **The first four passes leave a legible source**, if output expressions begin with a bracket and
no class list stands in it. -/
theorem advanced_legible {ds : Delimiters} (hs : Bracketed ds.start) (ht : '@' ∉ ds.stop)
    {ps : List Part} (h : Legible ps) (hc : ∀ p ∈ ps, p.named? ≠ some "class".toList) :
    Legible (advanced ds ps) := by
  refine h.becomes (walk_forall₂ _ fun s p hp => ?_)
  have args : ∀ {d}, p.mark? 0 = some d → ∀ a, d.args = some a → '@' ∉ a := fun hd a =>
    not_mem_args (h.sound hp) hd
  have conditional : Becomes p (rewritePart conditionalNames conditionalStep () p).1 :=
    rewritePart_becomes fun d new hd hn =>
      Or.inl (conditionalTag?_tagged (args hd) hn).bracketed
  have switch : Becomes p (rewritePart switchNames switchTag? s.1 p).1 :=
    rewritePart_becomes fun d new hd hn =>
      (switchTag?_tagged (args hd) hn).imp Tagged.bracketed fun ⟨hb, empty⟩ =>
        ⟨hb ▸ (h.sound hp).eq_word hd (by rw [hb]; decide), empty⟩
  have loop : Becomes p (rewritePart loopNames loopTag? s.2 p).1 :=
    rewritePart_becomes fun d new hd hn => Or.inl (loopTag?_tagged (args hd) hn).bracketed
  have helper : Becomes p (rewritePart helperNames (helperStep ds) () p).1 := by
    refine (rewriteAt_becomes (I := fun _ => True) 0 trivial fun d hd hn => ⟨?_, trivial⟩).1
    have listed : d.name = "json".toList ∨ d.name = "class".toList := by
      have mem := List.contains_iff_mem.mp hn
      rwa [helperNames, List.mem_cons, List.mem_singleton] at mem
    -- A class list is answered with `class="`, which is why none may stand here.
    have json := listed.resolve_right fun e => hc p hp (by rw [name_mark? hd, e])
    exact fun new hnew => Or.inl (helperTag?_bracketed hs ht json (args hd) hnew)
  exact becomes_rewritePart (becomes_rewritePart (becomes_rewritePart conditional switch) loop)
    helper

/-! ### Once blocks -/

/-- A once block without an id in a template.  Without its comments and with its doubled at signs
swapped, the template reads as regions in the gaps of parts (`scanned`, `counted`).  The block is
opened by one of the parts and closed by the `@endonce` that matches.  With the regions guarded
(`legible`) and behind the first four passes (`passed`), no part runs into the next one. -/
structure OnceBlock (ds : Delimiters) where
  source : Text
  visible : '\x00' ∉ source
  regions : List Region
  before : List Part
  opener : Part
  body : List Part
  after : List Part
  scanned : (pieces region? (escapeMarkers (stripComments source))).map content =
    contents regions (before ++ opener :: (body ++ .word "endonce" :: after))
  counted : regions.length =
    (before ++ opener :: (body ++ .word "endonce" :: after)).count gap
  idless : Idless opener
  closed : Closed 0 body
  legible : Legible (numberedParts 0 (before ++ opener :: (body ++ .word "endonce" :: after)))
  passed : Legible
    (advanced ds (numberedParts 0 (before ++ opener :: (body ++ .word "endonce" :: after))))

theorem isBlank_of_arguments {t : Text} (h : arguments t = []) : isBlank t = true := by
  unfold arguments at h
  split at h
  · assumption
  · simp [splitTop] at h

namespace OnceBlock

variable {ds : Delimiters} (b : OnceBlock ds)

/-- The parts of the template. -/
def parts : List Part := b.before ++ b.opener :: (b.body ++ .word "endonce" :: b.after)

/-- The number of the first region in the body. -/
def first : Nat := b.before.count gap

/-- The body with its doubled at signs swapped for sentinels, as regions are looked for in it. -/
def escaped : Text := (contents (b.regions.drop b.first) b.body).flatMap sourceOf

/-- The body as it is written, but for its comments. -/
def authored : Text := unescapeMarkers b.escaped

/-- What the passes for switches and loops have counted where the body begins. -/
def context : Draft.Context :=
  let reached := (walk (lowered ds) ({}, {}) (numberedParts 0 b.before)).2
  contextOf reached.1 reached.2

/-- The body as it is when its key is taken. -/
def rewritten : Text :=
  shownAll (within ds (numberedParts 0 b.before) (numberedParts b.first b.body))

/-- The key of the block. -/
def key : Text := contentKey b.rewritten

/-- The parts of the template behind all passes. -/
def results : List Part := finished ds (numberedParts 0 b.parts)

theorem opener_ne_gap : b.opener ≠ gap := by
  obtain ⟨d, hd, -⟩ := b.idless
  intro e
  rw [e] at hd
  cases hd

/-- The parts as the passes find them. -/
theorem numbered_parts : ∃ after, numberedParts 0 b.parts = numberedParts 0 b.before ++
    b.opener :: (numberedParts b.first b.body ++ .word "endonce" :: after) := by
  refine ⟨numberedParts (b.first + b.body.count gap) b.after, ?_⟩
  rw [parts, numberedParts_append, numberedParts, if_neg b.opener_ne_gap, Nat.zero_add,
    numberedParts_append, Draft.numberedParts_word]
  rfl

theorem escaped_infix : ∃ pre post, escapeMarkers (stripComments b.source) =
    pre ++ (b.opener.shown ++ (b.escaped ++ ("@endonce".toList ++ post))) := by
  have whole := flatMap_sourceOf_pieces (escapeMarkers (stripComments b.source)) 0 0
  refine ⟨(contents b.regions b.before).flatMap sourceOf,
    (contents ((b.regions.drop b.first).drop (b.body.count gap)) b.after).flatMap sourceOf, ?_⟩
  rw [List.drop_zero, ← Text.pieces, b.scanned, contents_append, contents, if_neg b.opener_ne_gap,
    contents_append, contents, if_neg (word_ne_gap _)] at whole
  simp only [List.flatMap_append, flatMap_sourceOf_chars] at whole
  exact whole.symm

theorem opener_sound : b.opener.Sound := by
  refine b.legible.sound ?_
  obtain ⟨after, e⟩ := b.numbered_parts
  exact e ▸ List.mem_append_right _ List.mem_cons_self

/-- The directive that opens the block holds no null character. -/
theorem opener_visible : ∃ lead, b.opener.shown = '@' :: lead ∧ '\x00' ∉ lead := by
  obtain ⟨d, hd, name, unnamed⟩ := b.idless
  have once : '\x00' ∉ d.name := by
    rw [name]
    decide
  have sound := b.opener_sound
  cases hp : b.opener with
  | text t =>
    rw [hp] at hd
    cases hd
  | word n =>
    rw [hp] at hd
    cases hd
    exact ⟨n, rfl, once⟩
  | call n g args =>
    rw [hp] at hd sound
    cases hd
    obtain ⟨-, -, blanks, -⟩ := sound
    have bare : isBlank args = true := isBlank_of_arguments unnamed
    have visible : ∀ {u : Text} {f : Char → Bool}, u.all f = true → f '\x00' = false → '\x00' ∉ u :=
      fun hu hf hm => absurd (List.all_eq_true.mp hu _ hm) (by rw [hf]; decide)
    refine ⟨_, rfl, not_mem_append once (not_mem_append (visible blanks (by decide)) ?_)⟩
    rw [List.mem_cons, not_or]
    exact ⟨by decide, not_mem_append (visible bare (by decide)) (by decide)⟩

/-- **The body as it is written stands in the template**, and is escaped by itself. -/
theorem authored_infix : escapeMarkers b.authored = b.escaped ∧ ∃ pre post,
    stripComments b.source =
      pre ++ (b.opener.shown ++ (b.authored ++ ("@endonce".toList ++ post))) := by
  obtain ⟨pre, post, e⟩ := b.escaped_infix
  obtain ⟨lead, opens, hlead⟩ := b.opener_visible
  have outside : '@' ∉ atSentinel := by decide
  have swaps := mark_doubled.ne_nil
  have closer : "@endonce".toList = '@' :: "endonce".toList := by decide
  -- The at signs of the opener and of the closer belong to no sentinel, so they cut the text with
  -- the doubled at signs, too.
  rw [opens, closer, List.cons_append, List.cons_append] at e
  obtain ⟨v, w, cut, -, hw⟩ := replaceAll_cut swaps _ outside _ e
  obtain ⟨behind, rfl, hbehind⟩ := prefix_of_replaceAll swaps hlead w hw
  obtain ⟨body, closing, rfl, hbody, hclosing⟩ := replaceAll_cut swaps _ outside behind hbehind
  obtain ⟨rest, rfl, -⟩ := prefix_of_replaceAll swaps (by decide) closing hclosing
  have same : b.authored = body := by
    have visible : '\x00' ∉ body := by
      intro hm
      have stripped : '\x00' ∈ stripComments b.source := by
        rw [cut]
        simp [hm]
      exact b.visible (mem_of_mem_replaceHits stripped)
    have back := unescape_escape visible
    unfold escapeMarkers at back
    rw [hbody] at back
    exact back
  refine ⟨same ▸ hbody, v, rest, ?_⟩
  rw [same, opens, closer, cut]
  rfl

theorem closed_numbered : ∀ {ps : List Part} {depth n : Nat}, Closed depth ps →
    Closed depth (numberedParts n ps)
  | [], _, _, h => h
  | p :: ps, depth, n, h => by
    rw [numberedParts]
    split
    · next hp =>
      subst hp
      have rest : Closed depth ps := h
      exact closed_numbered rest
    · rw [Closed] at h ⊢
      split at h
      · next opens =>
        rw [if_pos opens]
        exact closed_numbered h
      · next opens =>
        rw [if_neg opens]
        split at h
        · next closes =>
          rw [if_pos closes]
          exact ⟨h.1, closed_numbered h.2⟩
        · next closes =>
          rw [if_neg closes]
          exact closed_numbered h

/-- Where the block opens stands its marker. -/
theorem getElem?_results :
    b.results[b.before.length]? = some (.text (marker "once" b.key)) := by
  obtain ⟨after, e⟩ := b.numbered_parts
  have passed : Legible (advanced ds (numberedParts 0 b.parts)) := b.passed
  rw [e] at passed
  have found := getElem?_finished ds b.idless (closed_numbered b.closed) passed
  rw [length_numberedParts] at found
  rw [results, e]
  exact found

theorem mayHoldDirectives_source : mayHoldDirectives b.source = true := by
  obtain ⟨-, pre, post, e⟩ := b.authored_infix
  have stripped : '@' ∈ stripComments b.source := by
    rw [e]
    simp
  have written : '@' ∈ b.source := mem_of_mem_replaceHits stripped
  rw [mayHoldDirectives, List.contains_iff_mem.mpr written, Bool.true_or]

/-- **The marker of the block stands in the rewritten template**, between what becomes of the text
in front of it and of the text behind it. -/
theorem transform_marker : transform ds b.source = do
    let front ← settled b.regions (shownAll (b.results.take b.before.length))
    let rest ← settled b.regions (shownAll (b.results.drop (b.before.length + 1)))
    return front ++ (marker "once" b.key ++ rest) := by
  obtain ⟨inside, here⟩ := List.getElem?_eq_some_iff.mp b.getElem?_results
  have split : shownAll b.results = shownAll (b.results.take b.before.length) ++
      (marker "once" b.key ++ shownAll (b.results.drop (b.before.length + 1))) := by
    have parted := List.take_append_drop b.before.length b.results
    rw [List.drop_eq_getElem_cons inside, here] at parted
    have shown := congrArg shownAll parted
    rw [shownAll_append, shownAll_cons] at shown
    exact shown.symm
  have visible : '\x00' ∉ marker "once" b.key :=
    not_mem_append (not_mem_append (by decide) (Foreign.not_mem_contentKey (Or.inr rfl) _))
      (by decide)
  have closes : (marker "once" b.key).getLast? = some '>' := by
    unfold marker
    rw [List.getLast?_append]
    rfl
  rw [transform, if_pos b.mayHoldDirectives_source, guardRegions_contents b.scanned b.counted true]
  simp only
  rw [rewriteAll_shownAll ds b.legible b.passed]
  have opens : ∃ v, marker "once" b.key = '<' :: v := ⟨_, rfl⟩
  have around := settled_around b.regions opens closes visible
    (shownAll (b.results.take b.before.length))
    (shownAll (b.results.drop (b.before.length + 1)))
  rw [← split] at around
  exact around

/-! ### What the key tells -/

theorem key_eq_iff {b b' : OnceBlock ds}
    (injective : (fingerprint b.rewritten).take 16 = (fingerprint b'.rewritten).take 16 →
      b.rewritten = b'.rewritten) : b.key = b'.key ↔ b.rewritten = b'.rewritten := by
  unfold key contentKey
  constructor
  · intro h
    exact injective (List.append_cancel_left h)
  · intro h
    rw [h]

/-- No region stands in the body, and no directive that the first four passes look for. -/
def Untouched : Prop := gap ∉ b.body ∧ ∀ p ∈ b.body, ∀ n, p.named? = some n → Unseen n

variable {b}

theorem Untouched.escaped_eq (h : b.Untouched) : b.escaped = shownAll b.body := by
  rw [escaped, contents_of_not_mem _ h.1, flatMap_sourceOf_chars]

theorem Untouched.rewritten_eq (h : b.Untouched) : b.rewritten = shownAll b.body := by
  rw [rewritten, within, numberedParts_of_not_mem h.1, walk_unseen ds _ h.2]

theorem Untouched.rewritten_eq_iff {b' : OnceBlock ds} (h : b.Untouched) (h' : b'.Untouched) :
    b.rewritten = b'.rewritten ↔ b.authored = b'.authored := by
  rw [h.rewritten_eq, h'.rewritten_eq, ← h.escaped_eq, ← h'.escaped_eq]
  constructor
  · exact congrArg unescapeMarkers
  · intro same
    rw [← b.authored_infix.1, ← b'.authored_infix.1, same]

/-- A body that is a draft is rewritten as its translation, with its gaps numbered. -/
theorem rewritten_draft {f : Draft false .body} (h : b.body = f.parts) :
    b.rewritten = (f.numbered b.first).translate ds b.context := by
  rw [rewritten, h, ← f.parts_numbered]
  exact (runs_draft ds (f.numbered b.first) _ _ nofun).1

/-- **The body of the block stands in the template, and its marker in the rewritten one**, between
what becomes of the text in front of the block and of the text behind its opening. -/
structure Marked (b : OnceBlock ds) : Prop where
  written : ∃ pre post, stripComments b.source =
    pre ++ (b.opener.shown ++ (b.authored ++ ("@endonce".toList ++ post)))
  marked : transform ds b.source = do
    let front ← settled b.regions (shownAll (b.results.take b.before.length))
    let rest ← settled b.regions (shownAll (b.results.drop (b.before.length + 1)))
    return front ++ (marker "once" b.key ++ rest)

/-- A once block under the usual delimiters, in a template without class lists. -/
def usual (source : Text) (regions : List Region) (before body after : List Part)
    (visible : '\x00' ∉ source)
    (scanned : (pieces region? (escapeMarkers (stripComments source))).map content =
      contents regions (before ++ .word "once" :: (body ++ .word "endonce" :: after)))
    (counted : regions.length =
      (before ++ .word "once" :: (body ++ .word "endonce" :: after)).count gap)
    (closed : Closed 0 body)
    (legible : Legible
      (numberedParts 0 (before ++ .word "once" :: (body ++ .word "endonce" :: after))))
    (unlisted : ∀ p ∈ before ++ .word "once" :: (body ++ .word "endonce" :: after),
      p.named? ≠ some "class".toList) : OnceBlock {} where
  source := source
  visible := visible
  regions := regions
  before := before
  opener := .word "once"
  body := body
  after := after
  scanned := scanned
  counted := counted
  idless := ⟨_, rfl, rfl, rfl⟩
  closed := closed
  legible := legible
  passed := advanced_legible ⟨'\x7b', ['\x7b'], by decide, Or.inl rfl, by decide⟩ (by decide)
    legible (named?_numberedParts unlisted)

end OnceBlock

open OnceBlock

/-- **The keys of two once blocks are the same if and only if their rewritten bodies are**, if the
shortened fingerprints of these two do not collide.  If nothing in the bodies is rewritten, that is
to say that they are written alike.  Where both bodies are one draft, it is to say that the places
agree in the numbers of the draft, whatever stands in its gaps. -/
theorem once_keys (ds : Delimiters) (b b' : OnceBlock ds)
    (injective : (fingerprint b.rewritten).take 16 = (fingerprint b'.rewritten).take 16 →
      b.rewritten = b'.rewritten) :
    (b.Marked ∧ b'.Marked) ∧
      (b.key = b'.key ↔ b.rewritten = b'.rewritten) ∧
      (b.Untouched → b'.Untouched → (b.key = b'.key ↔ b.authored = b'.authored)) ∧
      ∀ f : Draft false .body, b.body = f.parts → b'.body = f.parts →
        (b.key = b'.key ↔ f.Agree b.first b'.first b.context b'.context) := by
  have key := key_eq_iff injective
  refine ⟨⟨⟨b.authored_infix.2, b.transform_marker⟩, ⟨b'.authored_infix.2, b'.transform_marker⟩⟩,
    key, fun h h' => key.trans (h.rewritten_eq_iff h'), fun f h h' => key.trans ?_⟩
  rw [rewritten_draft h, rewritten_draft h']
  exact f.translate_numbered_iff ds

/-- The draft of `@foreach(xs as n)row@endforeach`. -/
def loopBody : Draft false .body :=
  .foreach ⟨"xs as n", .of_inert (by decide), by decide, ⟨"xs", "n", false⟩, by decide +kernel⟩
    (.text ⟨"row", by decide⟩ .done) .done

/-- The template `@once@foreach(xs as n)row@endforeach@endonce`. -/
def onceLoop : List Part := .word "once" :: (loopBody.parts ++ [.word "endonce"])

theorem legible_onceLoop : Legible (onceLoop ++ onceLoop) := by
  refine legible_iff.mpr ⟨fun p hp => ?_, by decide⟩
  have one : p ∈ onceLoop := (List.mem_append.mp hp).elim id id
  rw [onceLoop, List.mem_cons, List.mem_append, List.mem_singleton] at one
  obtain rfl | hp | rfl := one
  · show name? "once".toList = some "once".toList
    decide
  · exact (loopBody.written p hp).sound
  · show name? "endonce".toList = some "endonce".toList
    decide

/-- The first block of two such templates in a row. -/
def firstLoop : OnceBlock {} :=
  usual (shownAll (onceLoop ++ onceLoop)) [] [] loopBody.parts onceLoop (by decide)
    (by decide +kernel) (by decide) (by decide) legible_onceLoop (by decide)

/-- The second block of them. -/
def secondLoop : OnceBlock {} :=
  usual (shownAll (onceLoop ++ onceLoop)) [] onceLoop loopBody.parts [] (by decide)
    (by decide +kernel) (by decide) (by decide) legible_onceLoop (by decide)

/-- The template `@once@verbatim a@endverbatim@endonce`, or another text in place of ` a`. -/
def quotation (inner : Text) : Text := "@once@verbatim" ++ inner ++ "@endverbatim@endonce"

/-- The block of such a template. -/
def quoting (inner : Text) (visible : '\x00' ∉ quotation inner)
    (scanned : (pieces region? (escapeMarkers (stripComments (quotation inner)))).map content =
      contents [.verbatim inner] [.word "once", gap, .word "endonce"]) : OnceBlock {} :=
  usual (quotation inner) [.verbatim inner] [] [gap] [] visible scanned rfl rfl
    ⟨by decide, by decide, by decide, by decide, by decide, by decide, by decide, trivial⟩
    (by decide)

/-- The block of the template `@once x@endonce`. -/
def firstNote : OnceBlock {} :=
  usual "@once x@endonce" [] [] [.text " x"] [] (by decide) (by decide +kernel) rfl rfl
    ⟨by decide, by decide, by decide, by decide, by decide, by decide, by decide, trivial⟩
    (by decide)

/-- The block of the template `two @once x@endonce`. -/
def secondNote : OnceBlock {} :=
  usual "two @once x@endonce" [] [.text "two "] [.text " x"] [] (by decide) (by decide +kernel) rfl
    rfl ⟨by decide, by decide, by decide, by decide, by decide, by decide, by decide, by decide,
      trivial⟩ (by decide)

/-- A note has one key wherever it stands.  A loop that is written twice has two keys, and two
verbatim regions have one. -/
theorem once_keys_loops :
    (firstNote.source ≠ secondNote.source ∧ firstNote.key = secondNote.key) ∧
      (firstLoop.authored = secondLoop.authored ∧ firstLoop.key ≠ secondLoop.key) ∧
        ∃ b b' : OnceBlock {}, b.source = quotation " a" ∧ b'.source = quotation " b" ∧
          b.authored ≠ b'.authored ∧ b.key = b'.key := by
  have untouched : ∀ p ∈ [Part.text " x"], ∀ n, p.named? = some n → Unseen n := by
    intro p hp n hn
    obtain rfl := List.mem_singleton.mp hp
    cases hn
  have notes := once_keys {} firstNote secondNote fun _ => by decide +kernel
  have loops := once_keys {} firstLoop secondLoop fun h => absurd h (by decide +kernel)
  refine ⟨⟨by decide, ?_⟩, ⟨by decide +kernel, fun same => ?_⟩, ?_⟩
  · exact (notes.2.2.1 ⟨by decide, untouched⟩ ⟨by decide, untouched⟩).mpr (by decide +kernel)
  · have agree := ((loops.2.2.2 loopBody rfl rfl).mp same).loops
    revert agree
    decide +kernel
  · let b := quoting " a" (by decide) (by decide +kernel)
    let b' := quoting " b" (by decide) (by decide +kernel)
    have same : b.rewritten = b'.rewritten := rfl
    exact ⟨b, b', rfl, rfl, by decide +kernel, (once_keys {} b b' fun _ => same).2.1.mpr same⟩

end Pagewright.Lowering
