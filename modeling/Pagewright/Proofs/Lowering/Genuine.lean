import Pagewright.Proofs.Text.Revision
import Pagewright.Proofs.Text.Letters
import Pagewright.Lowering.Guard

/-! # Genuine placeholders

Sentinels and placeholders begin with a null character and two letters.  A text is genuine when
whatever begins like one goes on as one, with a number that a region has, and when no author wrote
any of it (`Genuine`).  What goes on may be spaced out, since a mapping literal is written with a
blank behind the colon of its key, even where that key ends inside of a sentinel.

Genuine texts are closed under what the passes do: they may be cut where no sentinel goes on
(`Genuine.cut`), set behind one another (`Genuine.append`), and revised at stretches that begin like
no sentinel (`Genuine.revised`).

Main definitions: `Token`, `Follows`, `Genuine`, `Fitting`. -/

namespace Pagewright.Lowering

open Text Directive

/-! ### Sentinels and placeholders -/

/-- A sentinel or a placeholder, and whether it stands for an empty region. -/
inductive Token (regions : List Text) : Text → Bool → Prop
  | sentinel : Token regions atSentinel false
  | placeholder {n : Nat} {r : Text} (h : regions[n]? = some r) :
      Token regions (guardToken n) r.isEmpty

/-- A character that no sentinel and no placeholder holds. -/
def stray (c : Char) : Bool := !("\x00hk:atguard".toList.contains c || c.isDigit)

variable {regions : List Text} {tok : Text} {shut : Bool}

/-- The letters of sentinels and placeholders. -/
theorem letter_of_mem {t : Text}
    (h : t.all (fun c => decide ("\x00hk:atguard".toList.contains c = true)) = true) {c : Char}
    (hc : c ∈ t) : stray c = false := by
  rw [stray, forall_mem_text h c hc]
  rfl

theorem stray_of_mem_guardToken {n : Nat} {c : Char} (hc : c ∈ guardToken n) : stray c = false := by
  obtain hc | hc := List.mem_append.mp hc
  · obtain hc | hc := List.mem_append.mp hc
    · exact letter_of_mem (t := "\x00hk:guard:".toList) (by decide) hc
    · rw [stray, isDigit_of_mem_ofNat hc, Bool.or_true, Bool.not_true]
  · exact letter_of_mem (t := "\x00".toList) (by decide) hc

theorem Token.not_mem (h : Token regions tok shut) {c : Char} (hc : stray c = true) : c ∉ tok := by
  intro hm
  have known : stray c = false := by
    induction h with
    | sentinel => exact letter_of_mem (by decide) hm
    | placeholder _ => exact stray_of_mem_guardToken hm
  rw [known] at hc
  cases hc

/-- A blank is stray. -/
theorem stray_of_isSpace {c : Char} (h : isSpace c = true) : stray c = true := by
  rw [stray, Bool.not_eq_true', Bool.or_eq_false_iff]
  refine ⟨Bool.eq_false_iff.mpr fun hm => ?_, Bool.eq_false_iff.mpr fun hd => ?_⟩
  · have fixed := forall_mem_text (t := "\x00hk:atguard".toList)
      (P := fun d => isSpace d = false) (by decide) c (List.contains_iff_mem.mp hm)
    rw [fixed] at h
    cases h
  · have range := Char.isDigit_iff_toNat.mp hd
    have low : '0'.toNat = 48 := rfl
    have high : '9'.toNat = 57 := rfl
    simp only [isSpace, Bool.or_eq_true, beq_iff_eq, Bool.and_eq_true, decide_eq_true_eq] at h
    omega

theorem Token.not_space (h : Token regions tok shut) {c : Char} (hc : c ∈ tok) :
    isSpace c = false :=
  Bool.eq_false_iff.mpr fun blank => h.not_mem (stray_of_isSpace blank) hc

theorem Token.getLast? (h : Token regions tok shut) : tok.getLast? = some '\x00' := by
  induction h with
  | sentinel => decide
  | placeholder _ => exact List.getLast?_concat

/-! ### How a token goes on -/

/-- A text that goes on with neither of the two letters behind the null character. -/
def Clear (m : Marked) : Prop := ∀ c ∈ m.head?, c.1 ≠ 'h' ∧ c.1 ≠ 'k'

/-- A text that begins with a token of which no author wrote a character; in loose spelling there may
be blanks between its characters.  What stands for an empty region is followed by neither of the
two letters. -/
def Follows (loose shut : Bool) : Text → Marked → Prop
  | [], m => shut = true → Clear m
  | _ :: _, [] => False
  | x :: tok, c :: m => c.2 = false ∧
      (c.1 = x ∧ Follows loose shut tok m ∨
        loose = true ∧ isSpace c.1 = true ∧ Follows loose shut (x :: tok) m)

variable {loose : Bool}

theorem follows_nil {m : Marked} : Follows loose shut [] m ↔ (shut = true → Clear m) := by
  cases m <;> rfl

theorem Clear.of_append {m k : Marked} (h : Clear (m ++ k)) : Clear m := by
  cases m with
  | nil => nofun
  | cons c m => exact h

theorem Clear.append {m k : Marked} (hm : Clear m) (hk : Clear k) : Clear (m ++ k) := by
  cases m with
  | nil => exact hk
  | cons c m => exact hm

theorem Follows.append {m k : Marked} (h : Follows loose shut tok m) (hk : Clear k) :
    Follows loose shut tok (m ++ k) := by
  induction m generalizing tok with
  | nil =>
    cases tok with
    | nil => exact follows_nil.mpr fun _ => hk
    | cons x tok => exact h.elim
  | cons c m ih =>
    cases tok with
    | nil => exact fun hs => Clear.append (h hs) hk
    | cons x tok => exact ⟨h.1, h.2.imp (And.imp_right ih) (And.imp_right (And.imp_right ih))⟩

/-- A token stands in front of a character that it does not hold, as long as that may not stand in
between. -/
theorem Follows.cut {m k : Marked} {c : Char × Bool} (h : Follows loose shut tok (m ++ c :: k))
    (hc : c.1 ∉ tok) (apart : (loose = true → isSpace c.1 = false) ∨ k = []) :
    Follows loose shut tok m := by
  induction m generalizing tok with
  | nil =>
    cases tok with
    | nil => exact fun _ => nofun
    | cons x tok =>
      obtain ⟨-, ⟨rfl, -⟩ | ⟨hl, blank, rest⟩⟩ := h
      · exact absurd List.mem_cons_self hc
      · obtain apart | rfl := apart
        · rw [apart hl] at blank
          cases blank
        · exact rest
  | cons d m ih =>
    cases tok with
    | nil => exact fun hs => Clear.of_append (h hs)
    | cons x tok =>
      refine ⟨h.1, h.2.imp (And.imp_right fun rest => ?_) (And.imp_right (And.imp_right fun rest => ?_))⟩
      · exact ih rest fun hm => hc (List.mem_cons_of_mem x hm)
      · exact ih rest hc

theorem Follows.loosen {m : Marked} (h : Follows false shut tok m) : Follows true shut tok m := by
  induction m generalizing tok with
  | nil =>
    cases tok with
    | nil => exact h
    | cons x tok => exact h
  | cons c m ih =>
    cases tok with
    | nil => exact h
    | cons x tok =>
      obtain ⟨own, ⟨rfl, rest⟩ | ⟨hl, -⟩⟩ := h
      · exact ⟨own, Or.inl ⟨rfl, ih rest⟩⟩
      · cases hl

/-! ### Genuine texts -/

/-- What may begin a text: if it is how tokens begin then it is one, and behind a backslash stands
neither of the two letters. -/
structure Opening (loose : Bool) (regions : List Text) (m : Marked) : Prop where
  token : "\x00hk".toList <+: textOf m →
    ∃ tok shut, Token regions tok shut ∧ Follows loose shut tok m
  escape : ∀ own k, m = ('\\', own) :: k → Clear k

/-- A text in which whatever begins like a token is one. -/
def Genuine (loose : Bool) (regions : List Text) (m : Marked) : Prop :=
  ∀ k, k <:+ m → Opening loose regions k

theorem Genuine.of_suffix {m k : Marked} (h : Genuine loose regions m) (hk : k <:+ m) :
    Genuine loose regions k :=
  fun _ hv => h _ (hv.trans hk)

theorem genuine_nil : Genuine loose regions [] := by
  intro k hk
  obtain rfl := List.suffix_nil.mp hk
  exact ⟨fun h => absurd (List.prefix_nil.mp h) (by decide), nofun⟩

theorem genuine_cons {c : Char × Bool} {m : Marked} : Genuine loose regions (c :: m) ↔
    Opening loose regions (c :: m) ∧ Genuine loose regions m := by
  constructor
  · exact fun h => ⟨h _ List.suffix_rfl, h.of_suffix (List.suffix_cons c m)⟩
  · rintro ⟨first, rest⟩ k hk
    obtain rfl | hk := List.suffix_cons_iff.mp hk
    · exact first
    · exact rest k hk

theorem Genuine.loosen {m : Marked} (h : Genuine false regions m) : Genuine true regions m := by
  intro k hk
  refine ⟨fun lead => ?_, (h k hk).escape⟩
  obtain ⟨tok, shut, ht, follows⟩ := (h k hk).token lead
  exact ⟨tok, shut, ht, follows.loosen⟩

/-- A genuine text may be cut in front of a stray character. -/
theorem Genuine.cut {m k : Marked} {c : Char × Bool} (h : Genuine loose regions (m ++ c :: k))
    (hc : stray c.1 = true) (apart : (loose = true → isSpace c.1 = false) ∨ k = []) :
    Genuine loose regions m := by
  rintro v ⟨u, rfl⟩
  rw [List.append_assoc] at h
  obtain ⟨token, escape⟩ := h (v ++ c :: k) (List.suffix_append _ _)
  constructor
  · intro lead
    rw [textOf_append] at token
    obtain ⟨tok, shut, ht, follows⟩ := token (lead.trans (List.prefix_append _ _))
    exact ⟨tok, shut, ht, follows.cut (ht.not_mem hc) apart⟩
  · rintro own w rfl
    exact Clear.of_append (escape own (w ++ c :: k) rfl)

/-- A beginning made of the two letters does not reach into a clear text. -/
theorem lead_of_append {w : Text} (hw : ∀ c ∈ w, c = 'h' ∨ c = 'k') {m k : Marked} (hk : Clear k)
    (h : w <+: textOf (m ++ k)) : w <+: textOf m := by
  induction w generalizing m with
  | nil => exact List.nil_prefix
  | cons x w ih =>
    obtain ⟨letter, others⟩ := List.forall_mem_cons.mp hw
    cases m with
    | nil =>
      cases k with
      | nil => exact h
      | cons c k =>
        obtain ⟨rfl, -⟩ := List.cons_prefix_cons.mp h
        have clear := hk c rfl
        exact absurd letter (not_or.mpr clear)
    | cons c m =>
      obtain ⟨rfl, rest⟩ := List.cons_prefix_cons.mp h
      exact List.cons_prefix_cons.mpr ⟨rfl, ih others rest⟩

theorem letters : ∀ c ∈ "hk".toList, c = 'h' ∨ c = 'k' := forall_mem_text (by decide)

/-- Genuine texts may stand one behind the other, if the second one is clear. -/
theorem Genuine.append {m k : Marked} (hm : Genuine loose regions m) (hk : Genuine loose regions k)
    (clear : Clear k) : Genuine loose regions (m ++ k) := by
  induction m with
  | nil => exact hk
  | cons c m ih =>
    obtain ⟨⟨token, escape⟩, rest⟩ := genuine_cons.mp hm
    refine genuine_cons.mpr ⟨⟨fun lead => ?_, fun own v e => ?_⟩, ih rest⟩
    · obtain ⟨first, lead⟩ := List.cons_prefix_cons.mp lead
      have short := lead_of_append letters clear lead
      obtain ⟨tok, shut, ht, follows⟩ := token (List.cons_prefix_cons.mpr ⟨first, short⟩)
      exact ⟨tok, shut, ht, follows.append clear⟩
    · obtain ⟨rfl, rfl⟩ := List.cons.inj e
      exact Clear.append (escape own m rfl) clear

/-- A text without null characters in which every backslash is followed by a character other than the
two letters. -/
def bland : Text → Bool
  | [] => true
  | [c] => c != '\x00' && c != '\\'
  | c :: d :: r => c != '\x00' && (c != '\\' || d != 'h' && d != 'k') && bland (d :: r)

theorem bland_of_forall {t : Text} (h : ∀ c ∈ t, c ≠ '\x00' ∧ c ≠ '\\') : bland t = true := by
  fun_induction bland t with
  | case1 => rfl
  | case2 c => simpa using h
  | case3 c d r ih =>
    obtain ⟨⟨visible, plain⟩, rest⟩ := List.forall_mem_cons.mp h
    simp [visible, plain, ih rest]

theorem bland_append {t u : Text} (ht : bland t = true) (hu : bland u = true) :
    bland (t ++ u) = true := by
  fun_induction bland t with
  | case1 => exact hu
  | case2 c =>
    cases u with
    | nil => exact ht
    | cons d u =>
      rw [Bool.and_eq_true] at ht
      simp [bland, ht.1, ht.2, hu]
  | case3 c d r ih =>
    rw [Bool.and_eq_true] at ht
    rw [List.cons_append, List.cons_append, bland, ht.1]
    exact ih ht.2

/-- A bland text may stand in front of any genuine text. -/
theorem Genuine.behind {k : Marked} (hk : Genuine loose regions k) {t : Text}
    (ht : bland t = true) : Genuine loose regions (generated t ++ k) := by
  fun_induction bland t with
  | case1 => exact hk
  | case2 c =>
    simp only [Bool.and_eq_true, bne_iff_ne, ne_eq] at ht
    refine genuine_cons.mpr ⟨⟨fun lead => ?_, fun own v e => ?_⟩, hk⟩
    · exact absurd (List.cons_prefix_cons.mp lead).1.symm ht.1
    · exact absurd (congrArg Prod.fst (List.cons.inj e).1) ht.2
  | case3 c d r ih =>
    simp only [Bool.and_eq_true, Bool.or_eq_true, bne_iff_ne, ne_eq] at ht
    obtain ⟨⟨visible, plain⟩, rest⟩ := ht
    refine genuine_cons.mpr ⟨⟨fun lead => ?_, fun own v e => ?_⟩, ih rest⟩
    · exact absurd (List.cons_prefix_cons.mp lead).1.symm visible
    · obtain ⟨first, rfl⟩ := List.cons.inj e
      intro x hx
      obtain rfl := Option.some.inj hx
      exact plain.resolve_left (not_not_intro (congrArg Prod.fst first))

/-! ### Revisions of genuine texts -/

/-- A change that keeps texts genuine: it takes place at a stray character, the text does not go on
with one of the two letters then, and what is put there may stand in front of what the text
has become behind it. -/
structure Fitting (loose : Bool) (regions : List Text) (old m : Marked) (new : Text) : Prop where
  lead : ∃ c v, old = c :: v ∧ stray c.1 = true ∧ (loose = true → isSpace c.1 = false)
  clear : Clear (generated new ++ m)
  genuine : ∀ k, ("hk".toList <+: textOf k → "hk".toList <+: textOf m) → (Clear m → Clear k) →
    Genuine loose regions k → Genuine loose regions (generated new ++ k)

section
variable {P : Marked → Marked → Text → Prop}

/-- What begins with some of the two letters after a revision begins with them before. -/
theorem lead_of_revised (hP : ∀ old m new, P old m new → Clear (generated new ++ m)) {m k : Marked}
    (h : Revised P m k) {w : Text} (hw : ∀ c ∈ w, c = 'h' ∨ c = 'k') (lead : w <+: textOf k) :
    w <+: textOf m := by
  induction h generalizing w with
  | nil => exact lead
  | keep c _ ih =>
    cases w with
    | nil => exact List.nil_prefix
    | cons x w =>
      obtain ⟨rfl, rest⟩ := List.cons_prefix_cons.mp lead
      exact List.cons_prefix_cons.mpr ⟨rfl, ih (List.forall_mem_cons.mp hw).2 rest⟩
  | @change old m k new allowed _ ih =>
    cases w with
    | nil => exact List.nil_prefix
    | cons x w =>
      -- The first letter is that of what is put in, or that of what comes behind.
      have clear := hP _ _ _ allowed
      have letter := (List.forall_mem_cons.mp hw).1
      cases new with
      | nil =>
        have before := ih hw lead
        cases m with
        | nil => exact absurd (List.prefix_nil.mp before) (List.cons_ne_nil x w)
        | cons c m =>
          obtain ⟨rfl, -⟩ := List.cons_prefix_cons.mp before
          exact absurd letter (not_or.mpr (clear c rfl))
      | cons c new =>
        obtain ⟨rfl, -⟩ := List.cons_prefix_cons.mp lead
        exact absurd letter (not_or.mpr (clear _ rfl))

theorem Clear.revised (hP : ∀ old m new, P old m new → Clear (generated new ++ m)) {m k : Marked}
    (hm : Clear m) (h : Revised P m k) : Clear k := by
  intro c hc
  obtain ⟨v, rfl⟩ := List.head?_eq_some_iff.mp hc
  rw [← not_or]
  intro letter
  have before := lead_of_revised hP h (List.forall_mem_singleton.mpr letter)
    (List.cons_prefix_cons.mpr ⟨rfl, List.nil_prefix⟩)
  cases m with
  | nil => exact absurd (List.prefix_nil.mp before) (List.cons_ne_nil _ _)
  | cons d m =>
    obtain ⟨same, -⟩ := List.cons_prefix_cons.mp before
    rw [same] at letter
    exact absurd letter (not_or.mpr (hm d rfl))

end

theorem Fitting.clears : ∀ old m new, Fitting loose regions old m new →
    Clear (generated new ++ m) := fun _ _ _ h => h.clear

/-- A token stays where it is in a revision. -/
theorem Follows.revised {m k : Marked} (follows : Follows loose shut tok m)
    (ht : ∀ c, stray c = true → c ∉ tok) (h : Revised (Fitting loose regions) m k) :
    Follows loose shut tok k := by
  induction h generalizing tok with
  | nil => exact follows
  | keep c rest ih =>
    cases tok with
    | nil => exact follows
    | cons x tok =>
      refine ⟨follows.1, follows.2.imp (And.imp_right fun later => ?_)
        (And.imp_right (And.imp_right fun later => ?_))⟩
      · exact ih later fun c hc hm => ht c hc (List.mem_cons_of_mem x hm)
      · exact ih later ht
  | @change old m k new fits rest ih =>
    cases tok with
    | nil =>
      refine follows_nil.mpr fun hs => ?_
      have clear := fits.clear
      cases new with
      | nil => exact Clear.revised Fitting.clears clear rest
      | cons c new => exact clear
    | cons x tok =>
      obtain ⟨c, v, rfl, foreign, blank⟩ := fits.lead
      obtain ⟨-, ⟨rfl, -⟩ | ⟨hl, hb, -⟩⟩ := follows
      · exact absurd List.mem_cons_self (ht _ foreign)
      · rw [blank hl] at hb
        cases hb

/-- **Fitting changes keep a text genuine.** -/
theorem Genuine.revised {m k : Marked} (hm : Genuine loose regions m)
    (h : Revised (Fitting loose regions) m k) : Genuine loose regions k := by
  induction h with
  | nil => exact hm
  | keep c rest ih =>
    obtain ⟨⟨token, escape⟩, behind⟩ := genuine_cons.mp hm
    refine genuine_cons.mpr ⟨⟨fun lead => ?_, fun own v e => ?_⟩, ih behind⟩
    · obtain ⟨first, lead⟩ := List.cons_prefix_cons.mp lead
      have before := List.cons_prefix_cons.mpr ⟨first, lead_of_revised Fitting.clears rest letters lead⟩
      obtain ⟨tok, shut, ht, follows⟩ := token before
      exact ⟨tok, shut, ht, follows.revised (fun _ => ht.not_mem) (Revised.keep c rest)⟩
    · obtain ⟨rfl, rfl⟩ := List.cons.inj e
      exact Clear.revised Fitting.clears (escape own _ rfl) rest
  | change fits rest ih =>
    have behind := hm.of_suffix (List.suffix_append _ _)
    exact fits.genuine _ (lead_of_revised Fitting.clears rest letters) (Clear.revised Fitting.clears · rest) (ih behind)

end Pagewright.Lowering
