import Pagewright.Proofs.Directive.Rewrite

/-! # Texts in which certain directives never start

Finished text may be followed or preceded by anything, and names may run together where pieces meet.
A text is free of some names if no directive with one of them can start in it (`Free`).  Behind a
legible source such a text adds no directive with one of the names (`named_append_free`), and a pass
over the names leaves it as it is (`replaceWith_append_free`). -/

namespace Pagewright.Directive

open Text

/-- No directive with one of the names can start in a text. -/
def Free (names : List Text) (u : Text) : Prop :=
  ∀ r n, '@' :: r <:+ u → name? r = some n → n ∉ names

variable {names : List Text}

theorem Free.of_suffix {u v : Text} (h : Free names u) (hv : v <:+ u) : Free names v :=
  fun r n hr hn => h r n (hr.trans hv) hn

theorem Free.mono {u : Text} (h : Free names u) {fewer : List Text} (hs : ∀ n ∈ fewer, n ∈ names) :
    Free fewer u := fun r n hr hn hm => h r n hr hn (hs n hm)

theorem Free.append {u : Text} {more : List Text} (h : Free names u) (h' : Free more u) :
    Free (names ++ more) u := fun r n hr hn hm =>
  (List.mem_append.mp hm).elim (h r n hr hn) (h' r n hr hn)

instance (names : List Text) (u : Text) : Decidable (Free names u) :=
  decidable_of_iff (∀ v ∈ u.tails, v.head? = some '@' → ∀ n ∈ name? v.tail, n ∉ names) <| by
    constructor
    · intro h r n hr hn
      exact h ('@' :: r) ((List.mem_tails _ _).mpr hr) rfl n hn
    · intro h v hv hat n hn
      obtain ⟨r, rfl⟩ := List.head?_eq_some_iff.mp hat
      exact h r n ((List.mem_tails _ _).mp hv) hn

theorem at?_name {prev : Option Char} {pos : Nat} {r : Text} {d : Directive}
    (h : at? prev pos r = some d) : name? r = some d.name := by
  cases at?_eq_some_iff.mp h with
  | bare name | unclosed name | called name => exact name

/-- Nothing with one of the names is found in a free text, wherever the scan stands. -/
theorem named_scanFrom_free : ∀ {u : Text}, Free names u → ∀ (prev : Option Char) (pos skip : Nat),
    named names (scanFrom prev pos skip u) = []
  | [], _, prev, pos, skip => by
      cases skip <;> rw [scanFrom] <;> rfl
  | c :: r, h, prev, pos, skip => by
      have ih := fun prev pos skip =>
        named_scanFrom_free (h.of_suffix (List.suffix_cons c r)) prev pos skip
      cases skip with
      | succ k => rw [scanFrom, ih]
      | zero =>
          rw [scanFrom]
          split
          · next hc =>
            subst hc
            split
            · exact ih _ _ _
            · split
              · next d hd =>
                have hn : names.contains d.name = false := by
                  rw [Bool.eq_false_iff, Ne, List.contains_iff_mem]
                  exact h r d.name List.suffix_rfl (at?_name hd)
                rw [named, List.filter_cons, hn]
                exact ih _ _ _
              · exact ih _ _ _
          · exact ih _ _ _

/-! ### Which texts are free -/

/-- A name that is read where another one was written starts with it. -/
theorem prefix_of_name? {n v m : Text} (hn : name? n = some n) (hm : name? (n ++ v) = some m) :
    n <+: m := by
  obtain ⟨c, r, rfl, hc, hr⟩ := name?_eq_some_self hn
  rw [List.cons_append, name?, if_pos hc,
    List.takeWhile_append_of_pos (List.all_eq_true.mp hr)] at hm
  obtain rfl := Option.some.inj hm
  exact ⟨v.takeWhile isWord, rfl⟩

/-- A part that is no directive of which the name starts one of the names. -/
def Part.Harmless (names : List Text) (p : Part) : Prop :=
  p.Sound ∧ ∀ d, p.mark? 0 = some d → ∀ m ∈ names, ¬ d.name <+: m

/-- Texts of harmless parts are free, even where names run together. -/
theorem free_shownAll : ∀ {ps : List Part}, (∀ p ∈ ps, p.Harmless names) → Free names (shownAll ps)
  | [], _, r, n, hr, _ => absurd (List.suffix_nil.mp hr) (List.cons_ne_nil _ _)
  | p :: ps, h, r, n, hr, hn => by
      have ih := free_shownAll fun q hq => h q (List.mem_cons_of_mem p hq)
      obtain ⟨sound, foreign⟩ := h p List.mem_cons_self
      rw [shownAll_cons] at hr
      obtain ⟨t, rfl, ht⟩ | ⟨d, v, hm, hd, hp, hv⟩ := sound.shown_eq
      · exact ih r n (suffix_of_not_mem ht hr) hn
      · rw [hp, List.cons_append, List.suffix_cons_iff] at hr
        obtain e | hr := hr
        · obtain rfl := (List.cons.inj e).2
          rw [List.append_assoc] at hn
          exact fun hmem => foreign d hm n hmem (prefix_of_name? hd hn)
        · exact ih r n (suffix_of_not_mem hv hr) hn

/-! ### Free text behind a legible source -/

theorem endsName_at (u r r' : Text) : endsName (u ++ '@' :: r) = endsName (u ++ '@' :: r') := by
  match u with
  | [] => rfl
  | [c] =>
      by_cases hc : c = '.'
      · subst hc
        rfl
      · have e : ∀ v, continuesAddress ([c] ++ '@' :: v) = false := fun v =>
          continuesAddress_of_ne _ hc
        simp only [endsName, e]
        rfl
  | c :: d :: u =>
      by_cases hc : c = '.'
      · subst hc
        rfl
      · have e : ∀ v, continuesAddress (c :: d :: u ++ '@' :: v) = false := fun v =>
          continuesAddress_of_ne _ hc
        simp only [endsName, e]
        rfl

theorem argumentsStart?_at {ps : List Part} {n : Text} (r : Text)
    (h : opensArguments (ps ++ [.word n]) = false) :
    argumentsStart? (shownAll ps ++ '@' :: r) = none := by
  have hh := head?_dropWhile_shownAll h
  rw [shownAll_append] at hh
  refine argumentsStart?_eq_none ?_
  rw [List.dropWhile_append] at hh ⊢
  split
  · rw [List.dropWhile_cons_of_neg (by decide)]
    simp
  · next hne =>
    rw [if_neg hne] at hh
    cases hd : (shownAll ps).dropWhile isGap with
    | nil => rw [hd] at hne; exact absurd rfl hne
    | cons c v =>
        rw [hd] at hh
        exact hh

/-- The directives of a legible source whose last directive stands alone are found in front of any
text that starts with an at sign. -/
theorem scanFrom_before {n : Text} (r : Text) : ∀ {ps : List Part}, Legible (ps ++ [.word n]) →
    ∀ (prev : Option Char) (pos : Nat), ∃ prev',
      scanFrom prev pos 0 (shownAll ps ++ '@' :: r) =
        marks pos ps ++ scanFrom prev' (pos + (shownAll ps).length) 0 ('@' :: r)
  | [], _, prev, _ => ⟨prev, rfl⟩
  | .text t :: ps, h, prev, pos => by
      obtain ⟨ht, hps⟩ := h
      obtain ⟨prev', e⟩ := scanFrom_text prev pos t (shownAll ps ++ '@' :: r) ht
      obtain ⟨prev'', e'⟩ := scanFrom_before r hps prev' (pos + t.length)
      refine ⟨prev'', ?_⟩
      rw [shownAll_cons, Part.shown, List.append_assoc, e, e', List.length_append, Nat.add_assoc]
      rfl
  | .word m :: ps, h, prev, pos => by
      obtain ⟨hm, hr, ha, hps⟩ := h
      have hr' : endsName (shownAll ps ++ '@' :: r) = true := by
        rw [endsName_at _ r n]
        simpa [Part.shown] using hr
      have ha' := ha.imp id fun ho => argumentsStart?_at r ho
      have hat := at?_word prev pos hm hr' ha'
      obtain ⟨prev', e⟩ := scanFrom_directive prev pos [] (shownAll ps ++ '@' :: r) hm
        (by rw [List.append_nil]; exact hat) rfl
      rw [List.append_nil] at e
      obtain ⟨prev'', e'⟩ := scanFrom_before r hps prev' (pos + (m.length + ([] : Text).length + 1))
      refine ⟨prev'', ?_⟩
      have hlen : pos + (m.length + ([] : Text).length + 1) = pos + (Part.shown (.word m)).length := rfl
      rw [hlen] at e e'
      rw [shownAll_cons, List.append_assoc, List.length_append, ← Nat.add_assoc, marks,
        List.append_assoc, ← e']
      exact e
  | .call m gap args :: ps, h, prev, pos => by
      obtain ⟨hm, hb, hg, ha, -, hps⟩ := h
      have hat := at?_call prev pos (shownAll ps ++ '@' :: r) hm hb hg ha
      have hu : m ++ (gap ++ '(' :: (args ++ [')'])) ++ (shownAll ps ++ '@' :: r) =
          m ++ (gap ++ '(' :: (args ++ ')' :: (shownAll ps ++ '@' :: r))) := by simp
      have hlen : (Part.shown (.call m gap args)).length =
          m.length + (gap ++ '(' :: (args ++ [')'])).length + 1 := by
        rw [Part.shown, List.length_cons, List.length_append]
      obtain ⟨prev', e⟩ := scanFrom_directive prev pos (gap ++ '(' :: (args ++ [')']))
        (shownAll ps ++ '@' :: r) hm (by rw [hu]; exact hat) (by rw [← hlen])
      obtain ⟨prev'', e'⟩ := scanFrom_before r hps prev' (pos + (Part.shown (.call m gap args)).length)
      refine ⟨prev'', ?_⟩
      rw [← hlen] at e
      rw [shownAll_cons, List.append_assoc, List.length_append, ← Nat.add_assoc, marks,
        List.append_assoc, ← e']
      exact e

/-- Behind a legible source, free text adds no directive with one of the names. -/
theorem named_append_free {ps : List Part} {n u : Text} (hl : Legible (ps ++ [.word n]))
    (hu : Free names ('@' :: (n ++ u))) :
    named names (directives (shownAll (ps ++ [.word n]) ++ u)) = named names (marks 0 ps) := by
  have e : shownAll (ps ++ [.word n]) ++ u = shownAll ps ++ '@' :: (n ++ u) := by
    simp [Part.shown]
  obtain ⟨prev, scan⟩ := scanFrom_before (n ++ u) hl none 0
  rw [e]
  refine (congrArg (named names) scan).trans ?_
  rw [named, List.filter_append]
  exact (congrArg (_ ++ ·) (named_scanFrom_free hu _ _ _)).trans (List.append_nil _)

theorem named_free {u : Text} (hu : Free names u) : named names (directives u) = [] :=
  named_scanFrom_free hu none 0 0

variable {σ : Type} {handler : σ → Directive → Option Text × σ}

theorem replaceWith_free {u : Text} (hu : Free names u) (s : σ) :
    replaceWith names handler s u = (u, s) := by
  rw [replaceWith, named_free hu]
  rfl

theorem rewritePart_text (s : σ) (v : Text) : rewritePart names handler s (.text v) = (.text v, s) :=
  rfl

/-- **A pass goes over a legible source and leaves free text behind it as it is.** -/
theorem replaceWith_append_free (hb : Blind handler) (s : σ) {ps : List Part} {n u : Text}
    (hl : Legible (ps ++ [.word n])) (hn : n ∉ names) (hu : Free names ('@' :: (n ++ u))) :
    (replaceWith names handler s (shownAll (ps ++ [.word n]) ++ u)).1 =
      (replaceWith names handler s (shownAll (ps ++ [.word n]))).1 ++ u := by
  have e : shownAll (ps ++ [.word n]) ++ u = shownAll (ps ++ [.text ('@' :: (n ++ u))]) := by
    simp [Part.shown]
  have last : ∀ s, rewritePart names handler s (.word n) = (.word n, s) := fun s =>
    rewritePart_other handler s rfl (by rw [Bool.eq_false_iff, Ne, List.contains_iff_mem]; exact hn)
  have edits := (editFrom_placed names handler (ps ++ [.text ('@' :: (n ++ u))]) [] 0 s
    (Nat.le_refl 0)).1
  rw [walkFrom_blind names hb] at edits
  rw [marks_append, show marks _ [.text ('@' :: (n ++ u))] = [] from rfl, List.append_nil,
    List.nil_append, List.length_nil, List.drop_nil, List.nil_append,
    walk_append] at edits
  have walked := congrArg Prod.fst (replaceWith_shownAll names hb s hl)
  rw [walk_append] at walked
  rw [walked]
  unfold replaceWith
  simp only
  rw [named_append_free hl hu]
  rw [e]
  refine edits.trans ?_
  simp only [walk, rewritePart_text, last, shownAll_append]
  simp [Part.shown]

end Pagewright.Directive
