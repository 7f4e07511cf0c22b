import Pagewright.Lowering.Mapping
import Pagewright.Proofs.Directive.Part
import Pagewright.Proofs.Lowering.Fair

/-! # Fair mapping literals

A mapping literal with its keys written in front of colons is split at every colon outside of
brackets, so a key may end inside of a sentinel; written again, it has a blank behind that colon
and none in front of it.  Texts that differ in blanks around colons alone are fair together
(`Fair.respaced`), so mapping literals stay fair in dictionary syntax (`fair_mappingTo`).

Main definition: `Respaced`. -/

namespace Pagewright.Lowering

open Text Directive

variable {regions : List Text} {tok : Text} {shut : Bool}

/-! ### Blanks around colons -/

/-- Texts that differ in the blanks around colons alone. -/
inductive Respaced : Text → Text → Prop
  | nil : Respaced [] []
  | keep (c : Char) {s s' : Text} : Respaced s s' → Respaced (c :: s) (c :: s')
  | colon {b d b' d' s s' : Text} : (∀ c ∈ b ++ d, isSpace c = true) →
      (∀ c ∈ b' ++ d', isSpace c = true) → Respaced s s' →
      Respaced (b ++ ':' :: (d ++ s)) (b' ++ ':' :: (d' ++ s'))

theorem Respaced.refl (t : Text) : Respaced t t := by
  induction t with
  | nil => exact Respaced.nil
  | cons c t ih => exact Respaced.keep c ih

theorem Respaced.behind {s s' : Text} (h : Respaced s s') (t : Text) :
    Respaced (t ++ s) (t ++ s') := by
  induction t with
  | nil => exact h
  | cons c t ih => exact Respaced.keep c ih

theorem not_blank_of_letter {c : Char} (h : c = 'h' ∨ c = 'k') : isSpace c = false := by
  obtain rfl | rfl := h <;> decide

/-- Blanks in front of a colon, and the colon, are neither of the two letters. -/
theorem clear_colon {b : Text} (hb : ∀ c ∈ b, isSpace c = true) (r : Text) :
    Clear (generated (b ++ ':' :: r)) := by
  intro c hc
  rw [← not_or]
  intro letter
  cases b with
  | nil =>
    obtain rfl := Option.some.inj hc
    exact absurd letter (by decide)
  | cons d b =>
    obtain rfl := Option.some.inj hc
    have blank := hb d List.mem_cons_self
    rw [not_blank_of_letter letter] at blank
    cases blank

/-- Blanks in front of a token do not count in loose spelling. -/
theorem follows_blanks {x : Char} (hx : isSpace x = false) {b : Text}
    (hb : ∀ c ∈ b, isSpace c = true) (s : Text) :
    Follows true shut (x :: tok) (generated (b ++ s)) ↔
      Follows true shut (x :: tok) (generated s) := by
  induction b with
  | nil => rfl
  | cons c b ih =>
    obtain ⟨blank, rest⟩ := List.forall_mem_cons.mp hb
    rw [← ih rest]
    constructor
    · rintro ⟨-, ⟨rfl, -⟩ | ⟨-, -, later⟩⟩
      · rw [blank] at hx
        cases hx
      · exact later
    · exact fun later => ⟨rfl, Or.inr ⟨rfl, blank, later⟩⟩

theorem Follows.respaced {s s' : Text} (h : Respaced s s') (solid : ∀ c ∈ tok, isSpace c = false)
    (ends : tok.getLast? ≠ some ':') (follows : Follows true shut tok (generated s)) :
    Follows true shut tok (generated s') := by
  induction h generalizing tok with
  | nil => exact follows
  | keep c h ih =>
    cases tok with
    | nil => exact follows
    | cons x tok =>
      obtain ⟨-, others⟩ := List.forall_mem_cons.mp solid
      refine ⟨rfl, follows.2.imp (And.imp_right fun later => ih others ?_ later)
        (And.imp_right (And.imp_right fun later => ih solid ends later))⟩
      cases tok with
      | nil => nofun
      | cons y tok => rwa [List.getLast?_cons_cons] at ends
  | @colon b d b' d' s s' blanks blanks' h ih =>
    obtain ⟨hb, hd⟩ := List.forall_mem_append.mp blanks
    obtain ⟨hb', hd'⟩ := List.forall_mem_append.mp blanks'
    cases tok with
    | nil => exact follows_nil.mpr fun _ => clear_colon hb' _
    | cons x tok =>
      obtain ⟨solid₁, others⟩ := List.forall_mem_cons.mp solid
      rw [follows_blanks solid₁ hb] at follows
      rw [follows_blanks solid₁ hb']
      obtain ⟨-, ⟨rfl, later⟩ | ⟨-, blank, -⟩⟩ := follows
      · refine ⟨rfl, Or.inl ⟨rfl, ?_⟩⟩
        -- The token does not end at the colon, so blanks behind the colon do not count either.
        cases tok with
        | nil => exact absurd rfl ends
        | cons y tok =>
          rw [List.getLast?_cons_cons] at ends
          have solid₂ := (List.forall_mem_cons.mp others).1
          have later := (follows_blanks solid₂ hd s).mp later
          exact (follows_blanks solid₂ hd' s').mpr (ih others ends later)
      · exact absurd blank (by decide)

theorem lead_of_respaced {s s' : Text} (h : Respaced s s') {w : Text}
    (hw : ∀ c ∈ w, c = 'h' ∨ c = 'k') (lead : w <+: s') : w <+: s := by
  induction h generalizing w with
  | nil => exact lead
  | keep c _ ih =>
    cases w with
    | nil => exact List.nil_prefix
    | cons x w =>
      obtain ⟨rfl, rest⟩ := List.cons_prefix_cons.mp lead
      exact List.cons_prefix_cons.mpr ⟨rfl, ih (List.forall_mem_cons.mp hw).2 rest⟩
  | @colon b d b' d' s s' _ blanks _ _ =>
    cases w with
    | nil => exact List.nil_prefix
    | cons x w =>
      have clear := clear_colon (List.forall_mem_append.mp blanks).1 (d' ++ s')
      obtain ⟨r, hr⟩ := lead
      rw [← hr] at clear
      exact absurd (List.forall_mem_cons.mp hw).1 (not_or.mpr (clear _ rfl))

theorem clear_respaced {s s' : Text} (h : Respaced s s') (hs : Clear (generated s)) :
    Clear (generated s') := by
  intro c hc
  rw [← not_or]
  intro letter
  obtain ⟨v, hv⟩ := List.head?_eq_some_iff.mp hc
  have whole := textOf_generated s'
  rw [hv] at whole
  obtain ⟨r, rfl⟩ := lead_of_respaced h (List.forall_mem_singleton.mpr letter) ⟨textOf v, whole⟩
  exact absurd letter (not_or.mpr (hs (c.1, false) rfl))

/-- **Texts that differ in blanks around colons are fair together.** -/
theorem Fair.respaced {s s' : Text} (hs : Fair true regions s) (h : Respaced s s') :
    Fair true regions s' := by
  induction h with
  | nil => exact hs
  | @keep c s s' h ih =>
    obtain ⟨⟨token, escape⟩, rest⟩ := genuine_cons.mp hs
    refine genuine_cons.mpr ⟨⟨fun lead => ?_, fun own v e => ?_⟩, ih rest⟩
    · change _ <+: textOf (generated (c :: s')) at lead
      rw [textOf_generated] at lead
      obtain ⟨first, lead⟩ := List.cons_prefix_cons.mp lead
      have before := List.cons_prefix_cons.mpr ⟨first, lead_of_respaced h letters lead⟩
      rw [← textOf_generated (c :: s)] at before
      obtain ⟨tok, shut, ht, follows⟩ := token before
      have ends : tok.getLast? ≠ some ':' := by
        rw [ht.getLast?]
        decide
      exact ⟨tok, shut, ht,
        Follows.respaced (Respaced.keep c h) (fun d hd => ht.not_space hd) ends follows⟩
    · obtain ⟨first, rfl⟩ := List.cons.inj e
      exact clear_respaced h (escape own _ (congrArg (· :: generated s) first))
  | @colon b d b' d' s s' _ blanks _ ih =>
    have behind : s <:+ b ++ ':' :: (d ++ s) :=
      ((List.suffix_append d s).trans (List.suffix_cons ':' _)).trans (List.suffix_append b _)
    have plain : bland (b' ++ ':' :: d') = true := by
      refine bland_of_forall fun c hc => ?_
      rw [List.mem_append, List.mem_cons, or_left_comm, ← List.mem_append] at hc
      obtain rfl | hc := hc
      · exact ⟨by decide, by decide⟩
      · have blank := blanks c hc
        constructor <;> rintro rfl <;> exact absurd blank (by decide)
    have fair := (ih (hs.of_suffix behind)).behind plain
    rwa [List.append_assoc, List.cons_append] at fair

/-! ### Pieces at colons -/

/-- Joined at colons, pieces and stripped pieces differ in blanks around colons, up to blanks at the
ends. -/
theorem exists_respaced_join {raw : List Text} (given : raw ≠ []) :
    ∃ b d s, join ":" raw = b ++ (s ++ d) ∧ (∀ c ∈ b ++ d, isSpace c = true) ∧
      Respaced s (join ":" (raw.map strip)) := by
  induction raw with
  | nil => exact absurd rfl given
  | cons r raw ih =>
    obtain ⟨b, d, e, blanks⟩ := exists_strip r
    cases raw with
    | nil =>
      rw [List.map_singleton, join_singleton, join_singleton]
      exact ⟨b, d, strip r, e, blanks, Respaced.refl _⟩
    | cons r' raw =>
      obtain ⟨b', d', s, e', blanks', h⟩ := ih (List.cons_ne_nil r' raw)
      obtain ⟨hb, hd⟩ := List.forall_mem_append.mp blanks
      obtain ⟨hb', hd'⟩ := List.forall_mem_append.mp blanks'
      refine ⟨b, d', strip r ++ (d ++ ':' :: (b' ++ s)), ?_, List.forall_mem_append.mpr ⟨hb, hd'⟩, ?_⟩
      · rw [join_cons_cons, e']
        nth_rewrite 1 [e]
        simp
      · rw [List.map_cons, List.map_cons, join_cons_cons, ← List.map_cons]
        have colon : Respaced (d ++ ':' :: (b' ++ s)) ([] ++ ':' :: ([] ++ _)) :=
          .colon (List.forall_mem_append.mpr ⟨hd, hb'⟩) nofun h
        exact colon.behind (strip r)

theorem Fair.cut_blanks {t d : Text} (h : Fair true regions (t ++ d))
    (hd : ∀ c ∈ d, isSpace c = true) : Fair true regions t := by
  induction d using List.reverseRecOn with
  | nil => rwa [List.append_nil] at h
  | append_singleton d c ih =>
    obtain ⟨others, last⟩ := List.forall_mem_append.mp hd
    refine ih ?_ others
    rw [← List.append_assoc, Fair, generated_append] at h
    exact Genuine.cut (c := (c, false)) h (stray_of_isSpace (last c (List.mem_singleton_self c)))
      (Or.inr rfl)

/-- A fair text stays fair when it is split at colons and joined again. -/
theorem Fair.joined {t : Text} (h : Fair true regions t) :
    Fair true regions (join ":" (Directive.splitTop ":" t)) := by
  obtain ⟨raw, e, whole⟩ := exists_splitTop (by decide : ":".toList ≠ []) t
  rw [e]
  cases raw with
  | nil => exact fair_of_bland (t := []) rfl
  | cons r raw =>
    obtain ⟨b, d, s, place, blanks, spaced⟩ := exists_respaced_join (List.cons_ne_nil r raw)
    rw [← whole, place] at h
    have inside := h.of_suffix (List.suffix_append b (s ++ d))
    exact (inside.cut_blanks (List.forall_mem_append.mp blanks).2).respaced spaced

/-! ### Mapping literals -/

theorem exists_of_between? {opener closer : Char} {t inner : Text}
    (h : between? opener closer t = some inner) : ∃ r, t = opener :: r := by
  unfold between? at h
  split at h
  · next c r =>
    split at h
    · next found => exact ⟨r, congrArg (· :: r) found.1⟩
    · cases h
  · cases h

/-- An expression is stripped, or it is a literal in brackets and becomes one in curly brackets. -/
theorem mappingTo_cases (fuel : Nat) (e : Text) : mappingTo fuel e = strip e ∨
    (∃ c r, strip e = c :: r ∧ Parting true c) ∧ ∃ w, mappingTo fuel e = '\x7b' :: w := by
  cases fuel with
  | zero => exact Or.inl rfl
  | succ fuel =>
    rw [mappingTo]
    split
    · next inner _ list =>
      obtain ⟨r, hr⟩ := exists_of_between? list
      split
      · exact Or.inr ⟨⟨_, r, hr, by decide, fun _ => by decide⟩, _, rfl⟩
      · exact Or.inl rfl
    · next inner _ mapping =>
      obtain ⟨r, hr⟩ := exists_of_between? mapping
      exact Or.inr ⟨⟨_, r, hr, by decide, fun _ => by decide⟩, _, rfl⟩
    · exact Or.inl rfl

/-- An entry of a mapping stays fair when its value has been rewritten. -/
theorem Fair.entry {key v : Text} (h : Fair true regions (key ++ ':' :: v)) {fuel : Nat}
    (hv : Fair true regions (mappingTo fuel v)) :
    Fair true regions (key ++ (": ".toList ++ mappingTo fuel v)) := by
  obtain ⟨b, d, e, blanks⟩ := exists_strip v
  obtain ⟨hb, hd⟩ := List.forall_mem_append.mp blanks
  have plain : Fair true regions (key ++ (": ".toList ++ Text.strip v)) := by
    rw [e, ← List.append_assoc b, ← List.cons_append, ← List.append_assoc] at h
    have spaced : Respaced (key ++ ':' :: (b ++ Text.strip v)) (key ++ (": ".toList ++ Text.strip v)) := by
      refine Respaced.behind ?_ key
      have blank : ∀ c ∈ [] ++ " ".toList, isSpace c = true := forall_mem_text (by decide)
      exact Respaced.colon (b := []) hb blank
        (Respaced.refl (Text.strip v))
    exact (h.cut_blanks hd).respaced spaced
  obtain same | ⟨⟨c, r, hr, parting⟩, w, hw⟩ := mappingTo_cases fuel v
  · rwa [same]
  · rw [hr, ← List.append_assoc] at plain
    rw [hw] at hv ⊢
    rw [← List.append_assoc]
    exact (plain.cut parting).append hv (by decide : Clear [('\x7b', false)])

/-! ### Quoted keys -/

theorem bland_hexDigits (width n : Nat) : bland (hexDigits width n) = true := by
  refine bland_of_forall fun c hc => ?_
  have digit : ∀ d < 16, '\x00' ≠ Nat.digitChar d ∧ '\\' ≠ Nat.digitChar d := by decide
  obtain hc | hc := List.mem_append.mp hc
  · obtain rfl := List.eq_of_mem_replicate hc
    decide
  · constructor <;> rintro rfl
    · exact not_mem_toDigits (fun d hd => (digit d hd).1) n hc
    · exact not_mem_toDigits (fun d hd => (digit d hd).2) n hc

/-- Behind the backslash of an escape stands the quote, a backslash or a letter of its own. -/
theorem bland_quotedChar {q c : Char} (hq : isQuote q = true) (hc : isWord c = true) :
    bland (quotedChar q c) = true := by
  have plain : c ≠ '\x00' ∧ c ≠ '\\' := by
    constructor <;> rintro rfl <;> exact absurd hc (by decide)
  have other : c ≠ q := by
    rintro rfl
    rw [isQuote, Bool.or_eq_true, beq_iff_eq, beq_iff_eq] at hq
    obtain rfl | rfl := hq <;> exact absurd hc (by decide)
  unfold quotedChar
  rw [if_neg (by simp [other, plain.2])]
  split
  · decide
  · split
    · decide
    · split
      · decide
      · split
        · exact bland_of_forall (List.forall_mem_singleton.mpr plain)
        · split
          · exact bland_append (by decide) (bland_hexDigits 2 _)
          · split
            · exact bland_append (by decide) (bland_hexDigits 4 _)
            · exact bland_append (by decide) (bland_hexDigits 8 _)

theorem isQuote_quoteFor (t : Text) : isQuote (quoteFor t) = true := by
  unfold quoteFor
  split <;> decide

theorem isWord_of_isName {t : Text} (ht : isName t = true) : ∀ c ∈ t, isWord c = true := by
  obtain ⟨c, r, rfl, hc, hr⟩ := name?_eq_some_self (of_decide_eq_true ht)
  refine List.forall_mem_cons.mpr ⟨?_, List.all_eq_true.mp hr⟩
  rw [startsName, Bool.or_eq_true, beq_iff_eq] at hc
  obtain letter | rfl := hc
  · have small : c.toNat < 128 := by
      rw [isAsciiLetter, Bool.or_eq_true, Bool.and_eq_true, Bool.and_eq_true, decide_eq_true_eq,
        decide_eq_true_eq, decide_eq_true_eq, decide_eq_true_eq] at letter
      obtain ⟨-, high⟩ | ⟨-, high⟩ := letter
      · exact Nat.lt_of_le_of_lt (Char.le_def.mp high) (by decide)
      · exact Nat.lt_of_le_of_lt (Char.le_def.mp high) (by decide)
    rw [isWord, isAlnum, isAlpha, if_pos small, letter, Bool.true_or, Bool.true_or, Bool.true_or,
      Bool.or_true]
  · decide

theorem bland_quoted {t : Text} (ht : isName t = true) : bland (quoted t) = true := by
  have word := isWord_of_isName ht
  have quote := isQuote_quoteFor t
  have mark : bland [quoteFor t] = true := by
    unfold quoteFor
    split <;> decide
  have inside : bland (t.flatMap (quotedChar (quoteFor t))) = true := by
    generalize quoteFor t = q at quote
    clear ht mark
    induction t with
    | nil => rfl
    | cons c t ih =>
      obtain ⟨first, others⟩ := List.forall_mem_cons.mp word
      rw [List.flatMap_cons]
      exact bland_append (bland_quotedChar quote first) (ih others)
  exact bland_append (bland_append mark inside) mark

/-! ### Rewritten literals -/

theorem mem_of_mapM {α β : Type} {f : α → Option β} {xs : List α} {ys : List β}
    (h : xs.mapM f = some ys) : ∀ y ∈ ys, ∃ x ∈ xs, f x = some y := by
  induction xs generalizing ys with
  | nil =>
    obtain rfl : [] = ys := Option.some.inj h
    nofun
  | cons x xs ih =>
    rw [List.mapM_cons] at h
    obtain ⟨z, hz, h⟩ := Option.bind_eq_some_iff.mp h
    obtain ⟨zs, hzs, h⟩ := Option.bind_eq_some_iff.mp h
    obtain rfl := Option.some.inj h
    refine List.forall_mem_cons.mpr ⟨⟨x, List.mem_cons_self, hz⟩, fun y hy => ?_⟩
    obtain ⟨x', hx', e⟩ := ih hzs y hy
    exact ⟨x', List.mem_cons_of_mem x hx', e⟩

theorem Fair.arrowPairs {t : Text} (h : Fair true regions t) {pairs : List (Text × Text)}
    (hp : arrowPairs? (Directive.arguments t) = some pairs) :
    ∀ p ∈ pairs, Fair true regions p.1 ∧ Fair true regions p.2 := by
  intro p hm
  unfold arrowPairs? at hp
  split at hp
  · cases hp
  · obtain ⟨item, hi, e⟩ := mem_of_mapM hp p hm
    have pieces := (h.arguments item hi).splitTop parting_arrow ">"
    split at e
    · next key value split =>
      obtain rfl := Option.some.inj e
      have pieces : ∀ q ∈ [key, value], Fair true regions q := split ▸ pieces
      exact ⟨pieces key List.mem_cons_self, pieces value (List.mem_cons_of_mem key List.mem_cons_self)⟩
    · cases e

/-- A list of fair entries in brackets is fair. -/
theorem fair_bracketed {opener closer : Text} (ho : bland opener = true) (hc : Mortar closer)
    {ts : List Text} (h : ∀ t ∈ ts, Fair true regions t) :
    Fair true regions (opener ++ join ", " ts ++ closer) := by
  rw [List.append_assoc]
  exact ((fair_join (by decide) h).mortar hc).behind ho

/-- **Mapping literals stay fair in dictionary syntax.** -/
theorem fair_mappingTo (fuel : Nat) {e : Text} (he : Fair true regions e) :
    Fair true regions (mappingTo fuel e) := by
  induction fuel generalizing e with
  | zero => exact he.strip
  | succ fuel ih =>
    have stripped := he.strip
    rw [mappingTo]
    split
    · next inner _ list =>
      have inside := stripped.between ⟨by decide, fun _ => by decide⟩ list
      split
      · next pairs arrows =>
        refine fair_bracketed (by decide : bland "\x7b" = true) (by decide) fun t ht => ?_
        obtain ⟨p, hp, rfl⟩ := List.mem_map.mp ht
        obtain ⟨key, value⟩ := inside.arrowPairs arrows p hp
        rw [List.append_assoc]
        exact key.join_mortar (by decide) (ih value)
      · exact stripped
    · next inner _ mapping =>
      have inside := stripped.between ⟨by decide, fun _ => by decide⟩ mapping
      refine fair_bracketed (by decide) (by decide) fun t ht => ?_
      obtain ⟨item, hi, rfl⟩ := List.mem_map.mp ht
      have own := inside.arguments item hi
      have joined := own.joined
      split
      · next key first more pieces =>
        rw [pieces, join_cons_cons] at joined
        have value := joined.of_suffix ((List.suffix_append ":".toList _).trans (List.suffix_append key _))
        rw [List.append_assoc]
        split
        · next named =>
          exact ((ih value).behind (by decide)).behind (bland_quoted named)
        · exact Fair.entry joined (ih value)
      · exact own
    · exact stripped

end Pagewright.Lowering
