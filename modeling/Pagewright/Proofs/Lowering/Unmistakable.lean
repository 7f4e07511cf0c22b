import Pagewright.Proofs.Lowering.FairTags
import Pagewright.Proofs.Lowering.Trace

/-! # Texts in which nothing reads like a placeholder

Null characters come into a text with sentinels and placeholders only, so one of them is forged from
the author's characters only where they stand between two that are not: directly behind a doubled at
sign or a region, or behind a backslash that is read away.  A text that has none of that
(`Unmistakable`) is genuine when its doubled at signs and regions have given way
(`Genuine.escapes`, `Genuine.guards`), and each pass keeps it so (`Genuine.pass`), up to where
regions are restored (`genuine_draft`).

Main definitions: `Unmistakable`. -/

namespace Pagewright.Lowering

open Text Directive

/-- A text in which an author has written nothing that could be read as the inside of a sentinel or a
placeholder. -/
structure Unmistakable (t : Text) : Prop where
  visible : '\x00' ∉ stripComments t
  plain : ¬ "\\h".toList <:+: stripComments t ∧ ¬ "\\k".toList <:+: stripComments t
  escaped : ¬ "@@hk".toList <:+: stripComments t
  closed : ¬ "%\x7dhk".toList <:+: stripComments t

instance (t : Text) : Decidable (Unmistakable t) :=
  decidable_of_iff ('\x00' ∉ stripComments t ∧
      (¬ "\\h".toList <:+: stripComments t ∧ ¬ "\\k".toList <:+: stripComments t) ∧
      ¬ "@@hk".toList <:+: stripComments t ∧ ¬ "%\x7dhk".toList <:+: stripComments t)
    ⟨fun ⟨a, b, c, d⟩ => ⟨a, b, c, d⟩, fun ⟨a, b, c, d⟩ => ⟨a, b, c, d⟩⟩

variable {loose : Bool} {regions : List Text} {tok : Text} {shut : Bool}

/-! ### Guarding -/

/-- A text without null characters is genuine, if no backslash stands in front of the letters. -/
theorem genuine_of_visible {m : Marked} (visible : '\x00' ∉ textOf m)
    (plain : ¬ "\\h".toList <:+: textOf m ∧ ¬ "\\k".toList <:+: textOf m) :
    Genuine loose regions m := by
  rintro k ⟨u, rfl⟩
  rw [textOf_append] at visible plain
  refine ⟨fun lead => ?_, ?_⟩
  · have first : '\x00' ∈ textOf k := lead.subset List.mem_cons_self
    exact absurd (List.mem_append_right _ first) visible
  · rintro own v rfl
    intro c hc
    obtain ⟨w, rfl⟩ := List.head?_eq_some_iff.mp hc
    have here : ['\\', c.1] <:+: textOf u ++ textOf (('\\', own) :: c :: w) :=
      ⟨textOf u, textOf w, by simp [textOf]⟩
    constructor
    · intro e
      rw [e] at here
      exact plain.1 here
    · intro e
      rw [e] at here
      exact plain.2 here

theorem guardToken_body (n : Nat) :
    guardToken n = '\x00' :: (("hk:guard:".toList ++ ofNat n) ++ ['\x00']) := guardToken_eq n

/-- The text of a token begins and ends with a null character and is bland in between. -/
theorem Token.exists_body (h : Token regions tok shut) :
    ∃ body, tok = '\x00' :: (body ++ ['\x00']) ∧ bland body = true ∧ 5 ≤ body.length := by
  induction h with
  | sentinel =>
    have whole : atSentinel = '\x00' :: ("hk:at".toList ++ ['\x00']) := by decide
    exact ⟨_, whole, by decide, by decide⟩
  | placeholder _ =>
    have long : 5 ≤ "hk:guard:".toList.length := by decide
    refine ⟨_, guardToken_body _, bland_append (by decide) (bland_ofNat _), ?_⟩
    rw [List.length_append]
    omega

theorem follows_generated {m : Marked} (hm : shut = true → Clear m) (t : Text) :
    Follows loose shut t (generated t ++ m) := by
  induction t with
  | nil => exact follows_nil.mpr hm
  | cons c t ih => exact ⟨rfl, Or.inl ⟨rfl, ih⟩⟩

/-- A token may stand in front of a genuine text that does not go on like one. -/
theorem Genuine.token {m : Marked} (hm : Genuine loose regions m) (ht : Token regions tok shut)
    (apart : ¬ "hk".toList <+: textOf m) (clear : shut = true → Clear m) :
    Genuine loose regions (generated tok ++ m) := by
  obtain ⟨body, rfl, plain, -⟩ := ht.exists_body
  have last : Genuine loose regions (('\x00', false) :: m) := by
    refine genuine_cons.mpr ⟨⟨fun lead => ?_, nofun⟩, hm⟩
    exact absurd (List.cons_prefix_cons.mp lead).2 apart
  have behind := last.behind plain
  refine genuine_cons.mpr ⟨⟨fun _ => ⟨_, _, ht, follows_generated clear _⟩, nofun⟩, ?_⟩
  change Genuine loose regions (generated (body ++ ['\x00']) ++ m)
  rwa [generated_append, List.append_assoc]

theorem textOf_eq_of_append {old m : Marked} {s r : Text} (h : textOf (old ++ m) = s ++ r)
    (length : old.length = s.length) : textOf old = s ∧ textOf m = r := by
  rw [textOf_append] at h
  exact List.append_inj h (by rw [length_textOf, length])

theorem exists_of_textOf_cons {m : Marked} {c : Char} {r : Text} (h : textOf m = c :: r) :
    ∃ own v, m = (c, own) :: v := by
  cases m with
  | nil => cases h
  | cons d v =>
    obtain ⟨rfl, -⟩ := List.cons.inj h
    exact ⟨d.2, v, rfl⟩

/-- What follows a stretch that is read at the end of a text follows it in the text. -/
theorem infix_of_behind {u old n : Marked} {v s w : Text} (he : textOf old = v ++ s)
    (h : w <+: textOf n) : s ++ w <:+: textOf (u ++ (old ++ n)) := by
  obtain ⟨r, hr⟩ := h
  refine ⟨textOf u ++ v, r, ?_⟩
  rw [textOf_append, textOf_append, he, ← hr]
  simp

/-- Doubled at signs give way to sentinels. -/
theorem Genuine.escapes {m : Marked} (hm : Genuine false regions m)
    (escaped : ¬ "@@hk".toList <:+: textOf m) :
    Genuine false regions (revise (escapeEdits (textOf m)) m) := by
  have spanning : Spanning (occurrence? "@@") := spanning_occurrence? (by decide)
  refine hm.revised ((revised_hits spanning (fun _ _ => atSentinel) m).within.mono ?_)
  rintro old n new ⟨⟨_, _, found, rfl⟩, inside⟩
  obtain ⟨r, hr, e⟩ := Option.map_eq_some_iff.mp found
  obtain ⟨he, hn⟩ := textOf_eq_of_append (eq_append_of_dropLead? hr) (Prod.mk.inj e).2.symm
  have doubled : "@@".toList = ['@', '@'] := by decide
  obtain ⟨own, v, rfl⟩ := exists_of_textOf_cons (he.trans doubled)
  have clear : Clear (generated atSentinel) := by decide
  refine ⟨⟨_, v, rfl, (by decide : stray '@' = true), nofun⟩, clear, fun k lead _ hk => ?_⟩
  refine hk.token Token.sentinel (fun letters => escaped ?_) nofun
  obtain ⟨u, rfl⟩ := inside
  exact infix_of_behind (v := []) he (lead letters)

/-- Behind a verbatim block stands no word character. -/
theorem behind_verbatim {t inner : Text} {n : Nat} (h : region? t = some (.verbatim inner, n)) :
    ((t.drop n).head?.map isWord).getD false = false := by
  unfold region? at h
  split at h
  · obtain ⟨_, -, h⟩ := Option.bind_eq_some_iff.mp h
    cases (Prod.mk.inj (Option.some.inj h)).1
  · obtain ⟨⟨⟨⟩, opened⟩, ho, h⟩ := Option.bind_eq_some_iff.mp h
    obtain ⟨v, rfl, rfl, -⟩ := exists_of_wholeWord? ho
    simp only [List.drop_left] at h
    obtain ⟨⟨i, ⟨⟩, closed⟩, hi, h⟩ := Option.bind_eq_some_iff.mp h
    obtain ⟨u, w, rfl, rfl, hc, -⟩ := exists_of_firstHit? hi
    obtain ⟨r, rfl, rfl, ends⟩ := exists_of_wholeWord? hc
    obtain rfl := (Prod.mk.inj (Option.some.inj h)).2
    rwa [← List.drop_drop, ← List.drop_drop, List.drop_left, List.drop_left, List.drop_left]

theorem clear_of_not_word {m : Marked} (h : ((textOf m).head?.map isWord).getD false = false) :
    Clear m := by
  intro c hc
  obtain ⟨v, rfl⟩ := List.head?_eq_some_iff.mp hc
  constructor
  · intro e
    rw [textOf, List.map_cons, List.head?_cons, e] at h
    exact absurd h (by decide)
  · intro e
    rw [textOf, List.map_cons, List.head?_cons, e] at h
    exact absurd h (by decide)

theorem RawBlock.exists_closing (b : RawBlock) : ∃ u, b.shown = u ++ "%\x7d".toList := by
  refine ⟨b.opener.shown ++ (b.inner ++ '\x7b' :: '%' :: (hyphen b.closer.before ++
    (b.closer.lead ++ ("endraw".toList ++ (b.closer.trail ++ hyphen b.closer.behind))))), ?_⟩
  simp [shown, KeywordTag.shown, KeywordTag.inside]

/-- The region of a raw block is not empty. -/
theorem RawBlock.restored_ne_nil (b : RawBlock) : (Region.raw b.shown).restored true ≠ [] := by
  intro e
  exact b.shown_ne_nil (eq_nil_of_replaceAll mark_sentinel.ne_nil _ mark_doubled.ne_nil e)

/-- Regions give way to their placeholders. -/
theorem Genuine.guards {m : Marked} (hm : Genuine false regions m)
    (closed : ¬ "%\x7dhk".toList <:+: textOf m)
    (numbers : regions = (hits region? (textOf m)).map (Region.restored true)) :
    Genuine false regions (revise (guardEdits (textOf m)) m) := by
  have revised : Revised (fun old n new => ∃ x i,
      region? (textOf (old ++ n)) = some (x, old.length) ∧ new = guardToken i ∧
        (hits region? (textOf m))[i]? = some x) m (revise (guardEdits (textOf m)) m) :=
    revised_revise (inOrder_hits spanning_region? _ m) (numbered_hitEdits spanning_region? _ m)
  refine hm.revised (revised.within.mono ?_)
  rintro old n _ ⟨⟨x, i, found, rfl, number⟩, ⟨u, rfl⟩⟩
  have known : regions[i]? = some (x.restored true) := by
    rw [numbers, List.getElem?_map, number]
    rfl
  have front : Clear (generated (guardToken i) ++ n) := by
    rw [guardToken_body]
    exact (by decide : Clear [('\x00', false)])
  obtain ⟨b, r, whole, rfl, length⟩ | ⟨inner, r, whole, rfl, length⟩ := region?_cases found
  · -- A raw block begins and ends with a bracket, and what is restored for it is not empty.
    obtain ⟨he, -⟩ := textOf_eq_of_append whole length
    obtain ⟨own, v, rfl⟩ := exists_of_textOf_cons he
    refine ⟨⟨_, v, rfl, (by decide : stray '\x7b' = true), nofun⟩, front, fun k lead _ hk => ?_⟩
    refine hk.token (Token.placeholder known) (fun letters => closed ?_) fun empty => ?_
    · obtain ⟨w, hw⟩ := b.exists_closing
      exact infix_of_behind (he.trans hw) (lead letters)
    · exact absurd (List.isEmpty_iff.mp empty) b.restored_ne_nil
  · -- A verbatim block is not continued by a letter.
    have ends := behind_verbatim found
    have word : "@verbatim".toList = '@' :: "verbatim".toList := by decide
    obtain ⟨d, v, rfl⟩ := List.exists_cons_of_length_pos (length ▸ Nat.succ_pos _ : 0 < old.length)
    rw [word] at whole
    have first : d.1 = '@' := (List.cons.inj whole).1
    rw [← length_textOf, textOf_append, List.drop_left] at ends
    have clear := clear_of_not_word ends
    refine ⟨⟨_, v, rfl, by rw [first]; decide, nofun⟩, front, fun k lead clears hk => ?_⟩
    refine hk.token (Token.placeholder known) (fun letters => ?_) fun _ => clears clear
    have before := lead letters
    cases n with
    | nil => exact absurd (List.prefix_nil.mp before) (by decide)
    | cons d n =>
      obtain ⟨first, -⟩ := List.cons_prefix_cons.mp before
      exact (clear d rfl).1 first.symm

/-! ### Passes -/

theorem behind_name {t n : Text} (h : name? t = some n) :
    ((t.drop n.length).head?.map isWord).getD false = false := by
  unfold name? at h
  split at h
  · next c r =>
    split at h
    · obtain rfl := Option.some.inj h
      have behind := congrArg (List.drop (r.takeWhile isWord).length)
        (List.takeWhile_append_dropWhile (p := isWord) (l := r))
      rw [List.drop_left] at behind
      rw [List.length_cons, List.drop_succ_cons, ← behind]
      cases e : r.dropWhile isWord with
      | nil => rfl
      | cons d v =>
        have stops := List.dropWhile_get_zero_not isWord r (by rw [e]; exact Nat.succ_pos _)
        simpa [e] using stops
    · cases h
  · cases h

/-- Behind a directive that takes no arguments stands no word character. -/
theorem behind_bare {prev : Option Char} {pos : Nat} {r : Text} {d : Directive}
    (h : at? prev pos r = some d) (bare : bareNames.contains d.name = true) :
    d.stop = pos + 1 + d.name.length ∧
      ((r.drop d.name.length).head?.map isWord).getD false = false := by
  have none : d.name ∈ bareNames := List.contains_iff_mem.mp bare
  cases at?_eq_some_iff.mp h with
  | bare name => exact ⟨rfl, behind_name name⟩
  | unclosed _ _ takes | called _ _ takes => exact absurd none takes

theorem stray_of_isCloser {c : Char} (h : isCloser c = true) : Parting loose c := by
  rw [isCloser, Bool.or_eq_true, Bool.or_eq_true, beq_iff_eq, beq_iff_eq, beq_iff_eq] at h
  obtain (rfl | rfl) | rfl := h <;> exact ⟨by decide, fun _ => by decide⟩

theorem Follows.unmarked {m : Marked} (h : Follows loose shut tok m) :
    Follows loose shut tok (generated (textOf m)) := by
  induction m generalizing tok with
  | nil => exact h
  | cons c m ih =>
    cases tok with
    | nil => exact fun hs => fun d hd => Option.some.inj hd ▸ h hs c rfl
    | cons x tok => exact ⟨rfl, h.2.imp (And.imp_right ih) (And.imp_right (And.imp_right ih))⟩

/-- A genuine text is fair, whoever wrote it. -/
theorem Genuine.fair {m : Marked} (h : Genuine loose regions m) :
    Fair loose regions (textOf m) := by
  induction m with
  | nil => exact h
  | cons c m ih =>
    obtain ⟨⟨token, escape⟩, rest⟩ := genuine_cons.mp h
    refine genuine_cons.mpr ⟨⟨fun lead => ?_, fun own v e => ?_⟩, ih rest⟩
    · change _ <+: textOf (generated (textOf (c :: m))) at lead
      rw [textOf_generated] at lead
      obtain ⟨tok, shut, ht, follows⟩ := token lead
      exact ⟨tok, shut, ht, follows.unmarked⟩
    · obtain ⟨first, rfl⟩ := List.cons.inj e
      have clear : Clear m := escape c.2 m (by rw [← (Prod.mk.inj first).1])
      intro d hd
      cases m with
      | nil => cases hd
      | cons x m => exact Option.some.inj hd ▸ clear x rfl

/-- **A pass keeps a text genuine**, if its answers to fair arguments are solid, or nothing where the
directive takes no arguments. -/
theorem Genuine.pass {σ : Type} {names : List Text} {handler : σ → Directive → Option Text × σ}
    {s : σ} {m : Marked} (hm : Genuine loose regions m)
    (answers : ∀ s', Reached names handler s s' → ∀ d, d.name ∈ names → FairArgs loose regions d →
      ∀ new, (handler s' d).1 = some new →
        Solid loose regions new ∨ new = [] ∧ bareNames.contains d.name = true) :
    Genuine loose regions (revise (passEdits names handler s (textOf m)) m) := by
  refine hm.revised ((revised_pass names handler s m).within.mono ?_)
  rintro old n new ⟨⟨prev, pos, r, d, s', whole, found, stop, formed, known, reached, answer⟩, inside⟩
  have fair : Fair loose regions r := by
    have own := (hm.of_suffix inside).fair
    rw [whole] at own
    exact own.of_suffix (List.suffix_cons '@' r)
  have args : FairArgs loose regions d := by
    intro a ha
    obtain ⟨x, c, y, rfl, closer⟩ := exists_of_args found ha
    refine Fair.stretch (y := c :: y) fair fun e he => ?_
    obtain rfl := Option.some.inj he
    exact stray_of_isCloser closer
  obtain ⟨front, -⟩ := at?_bounded found
  obtain ⟨own, v, rfl⟩ : ∃ own v, old = ('@', own) :: v := by
    obtain ⟨⟨c, own⟩, v, rfl⟩ := List.exists_cons_of_length_pos (by omega : 0 < old.length)
    obtain ⟨rfl, -⟩ := List.cons.inj whole
    exact ⟨own, v, rfl⟩
  have lead : stray '@' = true ∧ (loose = true → isSpace '@' = false) :=
    ⟨by decide, fun _ => by decide⟩
  obtain solid | ⟨rfl, bare⟩ := answers s' reached d known args new answer
  · obtain ⟨c, w, rfl⟩ := List.exists_cons_of_ne_nil solid.given
    exact ⟨⟨_, v, rfl, lead⟩, solid.clear, fun k _ _ hk => solid.genuine k hk⟩
  · obtain ⟨stop', ends⟩ := behind_bare found bare
    have rest := congrArg (List.drop (('@', own) :: v).length) whole
    rw [textOf_append, ← length_textOf, List.drop_left, length_textOf,
      show (('@', own) :: v).length = d.name.length + 1 by omega, List.drop_succ_cons] at rest
    rw [← rest] at ends
    exact ⟨⟨_, v, rfl, lead⟩, clear_of_not_word ends, fun k _ _ hk => hk⟩

theorem bare_break : bareNames.contains "break" = true := by decide

theorem Genuine.conditionals {m : Marked} (hm : Genuine loose regions m) :
    Genuine loose regions (revise (passEdits conditionalNames
      (fun (_ : Unit) d => (conditionalTag? d, ())) () (textOf m)) m) :=
  hm.pass fun _ _ _ _ hd _ h => Or.inl (solid_conditionalTag? hd h)

theorem Genuine.switches {m : Marked} (hm : Genuine loose regions m) :
    Genuine loose regions (revise (passEdits switchNames switchTag? {} (textOf m)) m) := by
  refine hm.pass fun _ _ d _ hd new h => (solid_switchTag? hd h).imp_right ?_
  rintro ⟨rfl, quit⟩
  rw [quit]
  exact ⟨rfl, bare_break⟩

theorem Genuine.loops {m : Marked} (hm : Genuine false regions m) :
    Genuine false regions (revise (passEdits loopNames loopTag? {} (textOf m)) m) :=
  hm.pass fun _ _ _ _ hd _ h => Or.inl (solid_loopTag? hd h)

theorem Genuine.helpers {m : Marked} (hm : Genuine true regions m) {ds : Delimiters}
    (tame : Tame ds) : Genuine true regions (revise (passEdits helperNames
      (fun (_ : Unit) d => (helperTag? ds.start ds.stop d, ())) () (textOf m)) m) :=
  hm.pass fun _ _ _ _ hd _ h => Or.inl (solid_helperTag? tame hd h)

theorem Genuine.markers {m : Marked} (hm : Genuine loose regions m) (t : Text) :
    Genuine loose regions (revise (passEdits stackNames (stackMarker? t) [] (textOf m)) m) := by
  refine hm.pass fun s reached d known hd new h => ?_
  have names : ∀ m ∈ s, bland m.2 = true := by
    clear h
    induction reached with
    | start => nofun
    | next d _ known ih => exact (mortar_stackMarker? known ih).2
  exact Or.inl ((mortar_stackMarker? known names).1 new h).solid

theorem Genuine.includes {m : Marked} (hm : Genuine true regions m) :
    Genuine true regions (revise (passEdits includeNames
      (fun (_ : Unit) d => (includeTag? d, ())) () (textOf m)) m) :=
  hm.pass fun _ _ _ _ hd _ h => Or.inl (solid_includeTag? hd h)

/-- **The draft of an unmistakable text is genuine.** -/
theorem genuine_draft {ds : Delimiters} (tame : Tame ds) {t : Text} (ht : Unmistakable t) :
    Genuine true (regionsOf t) (draft ds t) := by
  have stripped := textOf_stripped t
  simp only [draft, reviseAll, revisions, List.foldl_cons, List.foldl_nil]
  generalize revise (commentEdits (textOf (authored t))) (authored t) = m at stripped ⊢
  have first : Genuine false (regionsOf t) m :=
    genuine_of_visible (stripped ▸ ht.visible) (stripped ▸ ht.plain)
  have second := first.escapes (stripped ▸ ht.escaped)
  have escaped : textOf (revise (escapeEdits (textOf m)) m) = escapeMarkers (stripComments t) := by
    rw [textOf_revise, applyEdits_escapes, stripped]
  generalize revise (escapeEdits (textOf m)) m = m at escaped second ⊢
  have third := second.guards (fun h => ht.closed ?_) ?_
  · exact third.conditionals.switches.loops.loosen.helpers tame |>.markers _ |>.includes
  · rw [escaped] at h
    have lead : "%\x7dhk".toList = '%' :: "\x7dhk".toList := by decide
    have sentinel : atSentinel = '\x00' :: "hk:at\x00".toList := by decide
    rw [lead] at h ⊢
    rw [escapeMarkers, sentinel] at h
    exact infix_of_replaceAll mark_doubled.ne_nil (by decide) (by decide) h
  · rw [escaped]
    rfl

end Pagewright.Lowering
