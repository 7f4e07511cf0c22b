import Pagewright.Directive.Occurrence
import Pagewright.Proofs.Directive.Balance
import Pagewright.Proofs.Text.Scan

/-! # Texts made of directives

A source is put together from parts: plain text, directives that stand alone, and directives with an
argument list.  Where no part runs into the next one (`Legible`), scanning the source finds exactly
the directives it was made of (`directives_shownAll`).

Main definitions: `Part`, `shownAll` (the source), `marks` (the directives of the parts, with their
places), `Legible`, `FoundAt` (the directive at an at sign). -/

namespace Pagewright.Directive

open Text

/-- A piece of a source: text, a directive without an argument list, or one with it, where `gap`
stands between the name and the bracket. -/
inductive Part where
  | text (t : Text)
  | word (name : Text)
  | call (name gap args : Text)
  deriving DecidableEq, Repr

namespace Part

/-- A part as it stands in the source. -/
def shown : Part → Text
  | .text t => t
  | .word n => '@' :: n
  | .call n gap args => '@' :: (n ++ (gap ++ '(' :: (args ++ [')'])))

/-- What a part holds besides names: its text, or its arguments. -/
def inner : Part → Text
  | .text t => t
  | .word _ => []
  | .call _ _ args => args

/-- The name of the directive that a part is. -/
def named? : Part → Option Text
  | .text _ => none
  | .word n => some n
  | .call n _ _ => some n

/-- The directive that a part is, at offset `pos`. -/
def mark? (pos : Nat) : Part → Option Directive
  | .text _ => none
  | .word n => some ⟨n, none, pos, pos + (shown (.word n)).length, false⟩
  | .call n gap args => some ⟨n, some args, pos, pos + (shown (.call n gap args)).length, false⟩

end Part

/-- The source that parts make. -/
def shownAll (ps : List Part) : Text := ps.flatMap Part.shown

/-- The directives among parts whose source starts at offset `pos`. -/
def marks (pos : Nat) : List Part → List Directive
  | [] => []
  | p :: ps => (p.mark? pos).toList ++ marks (pos + p.shown.length) ps

@[simp] theorem shownAll_nil : shownAll [] = [] := rfl

@[simp] theorem shownAll_cons (p : Part) (ps : List Part) :
    shownAll (p :: ps) = p.shown ++ shownAll ps := rfl

@[simp] theorem shownAll_append (ps qs : List Part) :
    shownAll (ps ++ qs) = shownAll ps ++ shownAll qs := List.flatMap_append

theorem marks_append : ∀ (pos : Nat) (ps qs : List Part),
    marks pos (ps ++ qs) = marks pos ps ++ marks (pos + (shownAll ps).length) qs
  | _, [], _ => rfl
  | pos, p :: ps, qs => by
      rw [List.cons_append, marks, marks, marks_append, shownAll_cons, List.length_append,
        List.append_assoc, Nat.add_assoc]

theorem mark?_named {p : Part} {n : Text} (h : p.named? = some n) (pos : Nat) :
    ∃ d, p.mark? pos = some d ∧ d.name = n := by
  cases p with
  | text t => cases h
  | word m =>
    cases h
    exact ⟨_, rfl, rfl⟩
  | call m gap args =>
    cases h
    exact ⟨_, rfl, rfl⟩

theorem name_mark? {p : Part} {pos : Nat} {d : Directive} (h : p.mark? pos = some d) :
    p.named? = some d.name := by
  cases p with
  | text t => cases h
  | word m =>
    cases h
    rfl
  | call m gap args =>
    cases h
    rfl

/-! ### What may follow a name -/

/-- Whether a text leaves the name before it as it is: it continues neither the word nor an
address. -/
def endsName (t : Text) : Bool := !(t.head?.map isWord).getD false && !continuesAddress t

/-- A blank in front of an argument list. -/
def isGap (c : Char) : Bool := c == ' ' || c == '\t'

/-- Whether what follows a name would be read as its argument list.  A `@break` is passed over, as
nothing takes its place. -/
def opensArguments : List Part → Bool
  | [] => false
  | .text t :: ps =>
    match t.dropWhile isGap with
    | [] => opensArguments ps
    | c :: _ => c == '('
  | .word n :: ps => n == "break".toList && opensArguments ps
  | .call _ _ _ :: _ => false

/-- No part runs into the next one: texts and arguments hold no at sign, names are names, what
follows a name without arguments does not continue it, and argument lists are balanced and stand
where their directive takes one. -/
def Legible : List Part → Prop
  | [] => True
  | .text t :: ps => '@' ∉ t ∧ Legible ps
  | .word n :: ps =>
    name? n = some n ∧ endsName (shownAll ps) = true ∧
      (n ∈ bareNames ∨ opensArguments ps = false) ∧ Legible ps
  | .call n gap args :: ps =>
    name? n = some n ∧ n ∉ bareNames ∧ gap.all isGap = true ∧ Balanced args ∧ '@' ∉ args ∧
      Legible ps

/-- No part runs into the next one, as where parts are legible; but arguments may hold at signs. -/
def Readable : List Part → Prop
  | [] => True
  | .text t :: ps => '@' ∉ t ∧ Readable ps
  | .word n :: ps =>
    name? n = some n ∧ endsName (shownAll ps) = true ∧
      (n ∈ bareNames ∨ opensArguments ps = false) ∧ Readable ps
  | .call n gap args :: ps =>
    name? n = some n ∧ n ∉ bareNames ∧ gap.all isGap = true ∧ Balanced args ∧ Readable ps

theorem Legible.readable : ∀ {ps : List Part}, Legible ps → Readable ps
  | [], _ => trivial
  | .text _ :: _, ⟨ht, hps⟩ => ⟨ht, hps.readable⟩
  | .word _ :: _, ⟨hn, hr, ha, hps⟩ => ⟨hn, hr, ha, hps.readable⟩
  | .call .. :: _, ⟨hn, hb, hg, ha, _, hps⟩ => ⟨hn, hb, hg, ha, hps.readable⟩

/-- What a part must be by itself to be legible. -/
def Part.Sound : Part → Prop
  | .text t => '@' ∉ t
  | .word n => name? n = some n
  | .call n gap args =>
    name? n = some n ∧ n ∉ bareNames ∧ gap.all isGap = true ∧ Balanced args ∧ '@' ∉ args

/-- What follows a directive without arguments neither continues its name nor gives it
arguments. -/
def Separated : List Part → Prop
  | [] => True
  | .text _ :: ps => Separated ps
  | .word n :: ps =>
    endsName (shownAll ps) = true ∧ (n ∈ bareNames ∨ opensArguments ps = false) ∧ Separated ps
  | .call _ _ _ :: ps => Separated ps

instance Separated.decide : ∀ ps : List Part, Decidable (Separated ps)
  | [] => .isTrue trivial
  | .text _ :: ps => Separated.decide ps
  | .word n :: ps =>
    have := Separated.decide ps
    inferInstanceAs (Decidable (endsName (shownAll ps) = true ∧
      (n ∈ bareNames ∨ opensArguments ps = false) ∧ Separated ps))
  | .call _ _ _ :: ps => Separated.decide ps

theorem legible_iff : ∀ {ps : List Part}, Legible ps ↔ (∀ p ∈ ps, p.Sound) ∧ Separated ps
  | [] => ⟨fun _ => ⟨fun p hp => absurd hp List.not_mem_nil, trivial⟩, fun _ => trivial⟩
  | .text t :: ps => by
      rw [Legible, legible_iff, List.forall_mem_cons, and_assoc]
      rfl
  | .word n :: ps => by
      rw [Legible, legible_iff, List.forall_mem_cons]
      constructor
      · rintro ⟨hn, he, ha, hs, hps⟩
        exact ⟨⟨hn, hs⟩, he, ha, hps⟩
      · rintro ⟨⟨hn, hs⟩, he, ha, hps⟩
        exact ⟨hn, he, ha, hs, hps⟩
  | .call n gap args :: ps => by
      rw [Legible, legible_iff, List.forall_mem_cons]
      constructor
      · rintro ⟨hn, hb, hg, ha, hat, hs, hps⟩
        exact ⟨⟨⟨hn, hb, hg, ha, hat⟩, hs⟩, hps⟩
      · rintro ⟨⟨⟨hn, hb, hg, ha, hat⟩, hs⟩, hps⟩
        exact ⟨hn, hb, hg, ha, hat, hs, hps⟩

/-- A directive that never takes arguments stands alone. -/
theorem Part.Sound.eq_word {p : Part} (h : p.Sound) {d : Directive} (hd : p.mark? 0 = some d)
    (hb : d.name ∈ bareNames) : p = .word d.name := by
  cases p with
  | text t => cases hd
  | word n =>
      cases hd
      rfl
  | call n gap args =>
      cases hd
      exact absurd hb h.2.1

theorem Legible.tail {p : Part} {ps : List Part} (h : Legible (p :: ps)) : Legible ps := by
  cases p with
  | text t => exact h.2
  | word n => exact h.2.2.2
  | call n gap args => exact h.2.2.2.2.2

theorem Legible.suffix {qs : List Part} : ∀ {ps : List Part}, Legible ps → qs <:+ ps → Legible qs
  | [], h, hq => List.suffix_nil.mp hq ▸ h
  | p :: ps, h, hq => by
      obtain rfl | hq := List.suffix_cons_iff.mp hq
      · exact h
      · exact h.tail.suffix hq

theorem Legible.sound {ps : List Part} (h : Legible ps) {p : Part} (hp : p ∈ ps) : p.Sound :=
  (legible_iff.mp h).1 p hp

/-! ### Names -/

theorem name?_eq_some_self {n : Text} (h : name? n = some n) :
    ∃ c r, n = c :: r ∧ startsName c = true ∧ r.all isWord = true := by
  cases n with
  | nil => cases h
  | cons c r =>
      rw [name?] at h
      split at h
      · next hc =>
        refine ⟨c, r, rfl, hc, ?_⟩
        have hr : r.takeWhile isWord = r := (List.cons.inj (Option.some.inj h)).2
        rw [← hr]
        exact List.all_takeWhile
      · cases h

theorem takeWhile_append_stop {p : Char → Bool} : ∀ {u r : Text}, u.all p = true →
    (r.head?.map p).getD false = false → (u ++ r).takeWhile p = u
  | [], [], _, _ => rfl
  | [], c :: r, _, hr => by
      rw [List.nil_append, List.takeWhile_cons_of_neg]
      exact fun e => Bool.false_ne_true (hr.symm.trans e)
  | c :: u, r, hu, hr => by
      rw [List.all_cons, Bool.and_eq_true] at hu
      rw [List.cons_append, List.takeWhile_cons_of_pos hu.1, takeWhile_append_stop hu.2 hr]

/-- A name is read up to what ends it. -/
theorem name?_append {n r : Text} (h : name? n = some n)
    (hr : (r.head?.map isWord).getD false = false) : name? (n ++ r) = some n := by
  obtain ⟨c, u, rfl, hc, hu⟩ := name?_eq_some_self h
  rw [List.cons_append, name?, if_pos hc, takeWhile_append_stop hu hr]

theorem not_at_of_startsName {c : Char} (h : startsName c = true) : c ≠ '@' := by
  rintro rfl
  cases h

theorem endsName_iff {t : Text} : endsName t = true ↔
    (t.head?.map isWord).getD false = false ∧ continuesAddress t = false := by
  rw [endsName, Bool.and_eq_true, Bool.not_eq_true', Bool.not_eq_true']

/-! ### What follows a name -/

theorem isWord_eq_false_of_isGap {c : Char} (h : isGap c = true) : isWord c = false := by
  rw [isGap, Bool.or_eq_true, beq_iff_eq, beq_iff_eq] at h
  obtain rfl | rfl := h <;> decide

theorem continuesAddress_of_ne {c : Char} (t : Text) (h : c ≠ '.') :
    continuesAddress (c :: t) = false := by
  rw [continuesAddress.eq_def]
  split
  · next e => exact absurd (List.cons.inj e).1 h
  · rfl

/-- What stands behind a name ends it, too, if it comes in front of a directive. -/
theorem endsName_append {t r : Text} (h : endsName t = true) (hr : ∀ c ∈ r.head?, c = '@') :
    endsName (t ++ r) = true := by
  cases r with
  | nil => rwa [List.append_nil]
  | cons c r =>
    obtain rfl := hr c rfl
    cases t with
    | nil => rfl
    | cons c t =>
      obtain ⟨word, address⟩ := endsName_iff.mp h
      refine endsName_iff.mpr ⟨word, ?_⟩
      by_cases dot : c = '.'
      · subst dot
        cases t with
        | nil => rfl
        | cons d t => exact address
      · exact continuesAddress_of_ne _ dot

/-- A bracket behind blanks ends a name. -/
theorem endsName_bracket {gap r : Text} (h : gap.all isGap = true) :
    endsName (gap ++ '(' :: r) = true := by
  cases gap with
  | nil => rfl
  | cons c gap =>
      rw [List.all_cons, Bool.and_eq_true] at h
      have hw := isWord_eq_false_of_isGap h.1
      have hd : c ≠ '.' := by
        rintro rfl
        exact absurd h.1 (by decide)
      rw [endsName_iff]
      exact ⟨hw, continuesAddress_of_ne _ hd⟩

theorem argumentsStart?_bracket {gap : Text} (r : Text) (h : gap.all isGap = true) :
    argumentsStart? (gap ++ '(' :: r) = some gap.length := by
  have hg : runLength (fun c => c == ' ' || c == '\t') (gap ++ '(' :: r) = gap.length :=
    congrArg List.length (takeWhile_append_stop (p := isGap) h rfl)
  have hd : (gap ++ '(' :: r).drop gap.length = '(' :: r := List.drop_left
  unfold argumentsStart?
  simp only [hg, hd, List.head?_cons, if_true]

theorem argumentsStart?_eq_none {t : Text} (h : (t.dropWhile isGap).head? ≠ some '(') :
    argumentsStart? t = none := by
  have hd : t.drop (runLength (fun c => c == ' ' || c == '\t') t) = t.dropWhile isGap := by
    have e : (t.takeWhile isGap ++ t.dropWhile isGap).drop (t.takeWhile isGap).length =
        t.dropWhile isGap := List.drop_left
    rw [List.takeWhile_append_dropWhile] at e
    exact e
  unfold argumentsStart?
  simp only [hd, h, if_false]

theorem head?_dropWhile_shownAll : ∀ {ps : List Part}, opensArguments ps = false →
    ((shownAll ps).dropWhile isGap).head? ≠ some '('
  | [], _ => by simp
  | .text t :: ps, h => by
      rw [opensArguments] at h
      rw [shownAll_cons, Part.shown, List.dropWhile_append]
      split at h
      · next e =>
        rw [if_pos (by rw [e]; rfl)]
        exact head?_dropWhile_shownAll h
      · next c r e =>
        rw [e, if_neg (by simp)]
        simpa using h
  | .word n :: ps, _ => by
      rw [shownAll_cons, Part.shown, List.cons_append, List.dropWhile_cons_of_neg (by decide)]
      simp
  | .call n gap args :: ps, _ => by
      rw [shownAll_cons, Part.shown, List.cons_append, List.dropWhile_cons_of_neg (by decide)]
      simp

/-! ### Directives at their at sign -/

/-- Whether a name between a character and a text belongs to an address. -/
def InAddress (prev : Option Char) (after : Text) : Prop :=
  (prev.map isWord).getD false = true ∧ continuesAddress after = true

/-- The directive whose at sign stands at an offset, between a character and a text.  It has a name
that belongs to no address.  If it takes arguments and they begin behind the name, it reaches up to
the bracket that closes them, and it is malformed if there is none. -/
inductive FoundAt (prev : Option Char) (pos : Nat) (r : Text) : Directive → Prop
  | bare {n : Text} : name? r = some n → ¬ InAddress prev (r.drop n.length) →
      n ∈ bareNames ∨ argumentsStart? (r.drop n.length) = none →
        FoundAt prev pos r ⟨n, none, pos, pos + 1 + n.length, false⟩
  | unclosed {n : Text} {blanks : Nat} : name? r = some n → ¬ InAddress prev (r.drop n.length) →
      n ∉ bareNames → argumentsStart? (r.drop n.length) = some blanks →
        closing? ((r.drop n.length).drop blanks) = none →
          FoundAt prev pos r ⟨n, none, pos, pos + 1 + n.length, true⟩
  | called {n : Text} {blanks close : Nat} : name? r = some n →
      ¬ InAddress prev (r.drop n.length) → n ∉ bareNames →
        argumentsStart? (r.drop n.length) = some blanks →
          closing? ((r.drop n.length).drop blanks) = some close →
            FoundAt prev pos r ⟨n, some (slice ((r.drop n.length).drop blanks) 1 close), pos,
              pos + 1 + n.length + blanks + close + 1, false⟩

theorem foundAt_of_at? {prev : Option Char} {pos : Nat} {r : Text} {d : Directive}
    (h : at? prev pos r = some d) : FoundAt prev pos r d := by
  unfold at? at h
  obtain ⟨n, name, h⟩ := Option.bind_eq_some_iff.mp h
  simp only at h
  split at h
  · cases h
  · next apart =>
    rw [Bool.and_eq_true] at apart
    split at h
    · next bare =>
      cases h
      exact .bare name apart (Or.inl (List.contains_iff_mem.mp bare))
    · next takes =>
      rw [List.contains_iff_mem] at takes
      split at h
      · next none =>
        cases h
        exact .bare name apart (Or.inr none)
      · next blanks start =>
        split at h
        · next unclosed =>
          cases h
          exact .unclosed name apart takes start unclosed
        · next close closes =>
          cases h
          exact .called name apart takes start closes

/-- **What is found at an at sign.** -/
theorem at?_eq_some_iff {prev : Option Char} {pos : Nat} {r : Text} {d : Directive} :
    at? prev pos r = some d ↔ FoundAt prev pos r d := by
  refine ⟨foundAt_of_at?, fun found => ?_⟩
  unfold at?
  cases found with
  | bare name apart alone =>
    rw [InAddress, ← Bool.and_eq_true] at apart
    simp only [name, Option.bind_eq_bind, Option.bind_some, if_neg apart]
    split
    · rfl
    · next takes =>
      obtain bare | none := alone
      · exact absurd (List.contains_iff_mem.mpr bare) takes
      · simp only [none]
        rfl
  | unclosed name apart takes start unclosed =>
    rw [InAddress, ← Bool.and_eq_true] at apart
    rw [← List.contains_iff_mem] at takes
    simp only [name, Option.bind_eq_bind, Option.bind_some, if_neg apart, if_neg takes, start,
      unclosed]
    rfl
  | called name apart takes start closes =>
    rw [InAddress, ← Bool.and_eq_true] at apart
    rw [← List.contains_iff_mem] at takes
    simp only [name, Option.bind_eq_bind, Option.bind_some, if_neg apart, if_neg takes, start,
      closes]
    rfl

/-- A directive without arguments is found where what follows ends its name and opens no
argument list, if it takes one at all. -/
theorem at?_word (prev : Option Char) (pos : Nat) {n r : Text} (hn : name? n = some n)
    (hr : endsName r = true) (ha : n ∈ bareNames ∨ argumentsStart? r = none) :
    at? prev pos (n ++ r) = some ⟨n, none, pos, pos + (n.length + 1), false⟩ := by
  obtain ⟨hw, hc⟩ := endsName_iff.mp hr
  have hstop : pos + 1 + n.length = pos + (n.length + 1) := by omega
  have hr' : (n ++ r).drop n.length = r := List.drop_left
  have found : FoundAt prev pos (n ++ r) ⟨n, none, pos, pos + 1 + n.length, false⟩ :=
    .bare (name?_append hn hw) (by simp [hr', InAddress, hc]) (hr'.symm ▸ ha)
  rw [← hstop]
  exact at?_eq_some_iff.mpr found

/-- A directive with a balanced argument list is found whole. -/
theorem at?_call (prev : Option Char) (pos : Nat) {n gap args : Text} (r : Text)
    (hn : name? n = some n) (hb : n ∉ bareNames) (hg : gap.all isGap = true)
    (ha : Balanced args) :
    at? prev pos (n ++ (gap ++ '(' :: (args ++ ')' :: r))) =
      some ⟨n, some args, pos, pos + (Part.shown (.call n gap args)).length, false⟩ := by
  obtain ⟨hw, hc⟩ := endsName_iff.mp (endsName_bracket (r := args ++ ')' :: r) hg)
  have hb' : bareNames.contains n = false := by
    rw [Bool.eq_false_iff, Ne, List.contains_iff_mem]
    exact hb
  have hslice : slice ('(' :: (args ++ ')' :: r)) 1 (args.length + 1) = args := by
    rw [slice, List.drop_one, List.tail_cons, Nat.add_sub_cancel, List.take_left]
  have hstop : pos + 1 + n.length + gap.length + (args.length + 1) + 1 =
      pos + (Part.shown (.call n gap args)).length := by
    simp only [Part.shown, List.length_cons, List.length_append, List.length_nil]
    omega
  unfold at?
  rw [name?_append hn hw]
  simp only [Option.bind_eq_bind, Option.bind_some, List.drop_left, hc, Bool.and_false,
    Bool.false_eq_true, if_false, hb', argumentsStart?_bracket _ hg, closing?_balanced ha, hslice,
    hstop]
  rfl

/-! ### Scanning -/

theorem scanFrom_skip : ∀ (prev : Option Char) (pos : Nat) (u r : Text),
    ∃ prev', scanFrom prev pos u.length (u ++ r) = scanFrom prev' (pos + u.length) 0 r
  | prev, pos, [], r => ⟨prev, rfl⟩
  | prev, pos, c :: u, r => by
      obtain ⟨prev', e⟩ := scanFrom_skip (some c) (pos + 1) u r
      refine ⟨prev', ?_⟩
      rw [List.length_cons, List.cons_append, scanFrom, e]
      congr 1
      omega

/-- Text without at signs is passed over. -/
theorem scanFrom_text : ∀ (prev : Option Char) (pos : Nat) (u r : Text), '@' ∉ u →
    ∃ prev', scanFrom prev pos 0 (u ++ r) = scanFrom prev' (pos + u.length) 0 r
  | prev, pos, [], r, _ => ⟨prev, rfl⟩
  | prev, pos, c :: u, r, h => by
      have hc : c ≠ '@' := fun e => h (e ▸ List.mem_cons_self)
      obtain ⟨prev', e⟩ :=
        scanFrom_text (some c) (pos + 1) u r fun hu => h (List.mem_cons_of_mem c hu)
      refine ⟨prev', ?_⟩
      rw [List.cons_append, scanFrom, if_neg hc, e, List.length_cons]
      congr 1
      omega

/-- A directive is found at its at sign, and the scan goes on behind it. -/
theorem scanFrom_directive (prev : Option Char) (pos : Nat) {n : Text} (u r : Text) {d : Directive}
    (hn : name? n = some n) (h : at? prev pos (n ++ u ++ r) = some d)
    (hd : d.stop = pos + (n.length + u.length + 1)) :
    ∃ prev', scanFrom prev pos 0 ('@' :: (n ++ u ++ r)) =
      d :: scanFrom prev' (pos + (n.length + u.length + 1)) 0 r := by
  obtain ⟨c, v, rfl, hc, -⟩ := name?_eq_some_self hn
  obtain ⟨prev', e⟩ := scanFrom_skip (some '@') (pos + 1) (c :: v ++ u) r
  refine ⟨prev', ?_⟩
  have hskip : d.stop - pos - 1 = (c :: v ++ u).length := by
    rw [hd, List.length_append]
    omega
  have hlen : pos + 1 + (c :: v ++ u).length = pos + ((c :: v).length + u.length + 1) := by
    rw [List.length_append]
    omega
  have hne : ¬ (c :: v ++ u ++ r).head? = some '@' := fun e =>
    not_at_of_startsName hc (Option.some.inj e)
  rw [scanFrom, if_pos rfl, if_neg hne, h]
  simp only
  rw [hskip, e, hlen]

theorem scanFrom_readable : ∀ {ps : List Part}, Readable ps → ∀ (prev : Option Char) (pos : Nat),
    scanFrom prev pos 0 (shownAll ps) = marks pos ps
  | [], _, _, _ => rfl
  | .text t :: ps, h, prev, pos => by
      obtain ⟨ht, hps⟩ := h
      obtain ⟨prev', e⟩ := scanFrom_text prev pos t (shownAll ps) ht
      rw [shownAll_cons, Part.shown, e, scanFrom_readable hps]
      rfl
  | .word n :: ps, h, prev, pos => by
      obtain ⟨hn, hr, ha, hps⟩ := h
      have ha' := ha.imp id fun ho => argumentsStart?_eq_none (head?_dropWhile_shownAll ho)
      have hat := at?_word prev pos hn hr ha'
      obtain ⟨prev', e⟩ := scanFrom_directive prev pos [] (shownAll ps) hn
        (by rw [List.append_nil]; exact hat) rfl
      rw [List.append_nil] at e
      rw [shownAll_cons, Part.shown, List.cons_append, e, scanFrom_readable hps]
      rfl
  | .call n gap args :: ps, h, prev, pos => by
      obtain ⟨hn, hb, hg, ha, hps⟩ := h
      have hat := at?_call prev pos (shownAll ps) hn hb hg ha
      have hu : n ++ (gap ++ '(' :: (args ++ [')'])) ++ shownAll ps =
          n ++ (gap ++ '(' :: (args ++ ')' :: shownAll ps)) := by simp
      have hlen : (Part.shown (.call n gap args)).length =
          n.length + (gap ++ '(' :: (args ++ [')'])).length + 1 := by
        rw [Part.shown, List.length_cons, List.length_append]
      obtain ⟨prev', e⟩ := scanFrom_directive prev pos (gap ++ '(' :: (args ++ [')']))
        (shownAll ps) hn (by rw [hu]; exact hat) (by rw [← hlen])
      rw [shownAll_cons, Part.shown, List.cons_append, e, scanFrom_readable hps, marks,
        Part.mark?, hlen]
      rfl

theorem scanFrom_shownAll {ps : List Part} (h : Legible ps) (prev : Option Char) (pos : Nat) :
    scanFrom prev pos 0 (shownAll ps) = marks pos ps := scanFrom_readable h.readable prev pos

theorem directives_readable {ps : List Part} (h : Readable ps) :
    directives (shownAll ps) = marks 0 ps := scanFrom_readable h none 0

/-- **Scanning a legible source finds the directives it was made of**, at their places. -/
theorem directives_shownAll {ps : List Part} (h : Legible ps) :
    directives (shownAll ps) = marks 0 ps := scanFrom_shownAll h none 0

/-! ### At signs in a source -/

theorem not_at_of_isWord {c : Char} (h : isWord c = true) : c ≠ '@' := by
  rintro rfl
  exact absurd h (by decide)

theorem at_not_mem_name {n : Text} (h : name? n = some n) : '@' ∉ n := by
  obtain ⟨c, r, rfl, hc, hr⟩ := name?_eq_some_self h
  intro hm
  obtain e | hm := List.mem_cons.mp hm
  · exact not_at_of_startsName hc e.symm
  · exact not_at_of_isWord (List.all_eq_true.mp hr '@' hm) rfl

/-- A directive is an at sign, its name, and a rest; no further at sign stands in it. -/
theorem Part.Sound.shown_eq {p : Part} (h : p.Sound) :
    (∃ t, p = .text t ∧ '@' ∉ t) ∨
      ∃ d r, p.mark? 0 = some d ∧ name? d.name = some d.name ∧ p.shown = '@' :: (d.name ++ r) ∧
        '@' ∉ d.name ++ r := by
  cases p with
  | text t => exact Or.inl ⟨t, rfl, h⟩
  | word n =>
      refine Or.inr ⟨_, [], rfl, h, by rw [List.append_nil]; rfl, ?_⟩
      rw [List.append_nil]
      exact at_not_mem_name h
  | call n gap args =>
      obtain ⟨hn, -, hg, -, ha⟩ := h
      have hgap : '@' ∉ gap := fun hm => absurd (List.all_eq_true.mp hg '@' hm) (by decide)
      refine Or.inr ⟨_, gap ++ '(' :: (args ++ [')']), rfl, hn, rfl, ?_⟩
      simp [at_not_mem_name hn, hgap, ha]

theorem suffix_of_not_mem {x : Char} {v : Text} : ∀ {u r : Text}, x ∉ u → x :: v <:+ u ++ r →
    x :: v <:+ r
  | [], _, _, h => h
  | c :: u, r, hx, h => by
      rw [List.cons_append, List.suffix_cons_iff] at h
      obtain e | h := h
      · exact absurd (List.cons.inj e).1 fun e => hx (e ▸ List.mem_cons_self)
      · exact suffix_of_not_mem (fun hm => hx (List.mem_cons_of_mem c hm)) h

/-- Every at sign of a legible source starts a directive of it. -/
theorem suffix_at : ∀ {ps : List Part}, Legible ps → ∀ {v : Text}, '@' :: v <:+ shownAll ps →
    ∃ p qs, p :: qs <:+ ps ∧ p.mark? 0 ≠ none ∧ '@' :: v = shownAll (p :: qs)
  | [], _, v, h => by
      obtain ⟨u, e⟩ := h
      exact absurd e (by simp)
  | p :: ps, hl, v, h => by
      have rest : '@' :: v <:+ shownAll ps →
          ∃ q qs, q :: qs <:+ p :: ps ∧ q.mark? 0 ≠ none ∧ '@' :: v = shownAll (q :: qs) := by
        intro hv
        obtain ⟨q, qs, hq, hm, e⟩ := suffix_at hl.tail hv
        exact ⟨q, qs, hq.trans (List.suffix_cons p ps), hm, e⟩
      rw [shownAll_cons] at h
      obtain ⟨t, rfl, ht⟩ | ⟨d, r, hm, -, hp, hr⟩ := (hl.sound List.mem_cons_self).shown_eq
      · exact rest (suffix_of_not_mem ht h)
      · rw [hp, List.cons_append, List.suffix_cons_iff] at h
        obtain e | h := h
        · refine ⟨p, ps, List.suffix_rfl, by rw [hm]; exact Option.some_ne_none d, ?_⟩
          rw [e, shownAll_cons, hp, List.cons_append]
        · exact rest (suffix_of_not_mem hr h)

/-- A legible source holds no doubled at sign. -/
theorem Legible.not_doubled {ps : List Part} (h : Legible ps) : ¬ "@@".toList <:+: shownAll ps := by
  rintro ⟨u, r, e⟩
  have hsuf : '@' :: '@' :: r <:+ shownAll ps := ⟨u, by rw [← e, List.append_assoc]; rfl⟩
  obtain ⟨p, qs, hq, hm, e⟩ := suffix_at h hsuf
  obtain ⟨t, rfl, -⟩ | ⟨d, w, -, hn, hp, -⟩ := (h.sound (hq.subset List.mem_cons_self)).shown_eq
  · exact hm rfl
  · obtain ⟨c, v, hd, hc, -⟩ := name?_eq_some_self hn
    rw [shownAll_cons, hp, hd] at e
    exact not_at_of_startsName hc (List.cons.inj (List.cons.inj e).2).1.symm

end Pagewright.Directive
