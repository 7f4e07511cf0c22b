import Mathlib.Data.List.TakeWhile
import Pagewright.Proofs.Lowering.Draft
import Pagewright.Proofs.Lowering.Passes
import Pagewright.Proofs.Lowering.Plain

/-! # Drafts are translated construct by construct

Main result: the rewriting of a draft's source is the draft's translation (`transform_source`).  One
lemma for each directive says what the passes, side by side, make of it (`lowered_choice`,
`lowered_case`, …); the runs over the parts of a draft follow by induction over the tree, with the
states of the passes read as the context of the tree (`contextOf`). -/

namespace Pagewright.Lowering

open Text Directive

/-! ### Single directives -/

theorem all_isSpace_of_stripLeft {t : Text} (h : ∀ c ∈ stripLeft t, isSpace c = true) :
    ∀ c ∈ t, isSpace c = true := by
  intro c hc
  rw [← List.takeWhile_append_dropWhile (p := isSpace) (l := t)] at hc
  obtain hc | hc := List.mem_append.mp hc
  · exact List.all_eq_true.mp List.all_takeWhile c hc
  · exact h c hc

/-- What is not blank is not stripped to nothing. -/
theorem strip_ne_nil {t : Text} (h : isBlank t = false) : strip t ≠ [] := by
  intro hs
  have hr := List.dropWhile_eq_nil_iff.mp (List.reverse_eq_nil_iff.mp hs)
  have hall := all_isSpace_of_stripLeft fun c hc => hr c (List.mem_reverse.mpr hc)
  exact Bool.false_ne_true (h.symm.trans (List.all_eq_true.mpr hall))

section Steps

variable (ds : Delimiters) (s : Switches) (l : Loops)

theorem lowered_text (t : Text) : lowered ds (s, l) (.text t) = (.text t, (s, l)) := rfl

variable {s l}

/-- A directive that the pass for conditionals answers is not seen by the others. -/
theorem lowered_of_conditional {p : Part} {d : Directive} {t : Text} (hp : p.mark? 0 = some d)
    (hn : conditionalNames.contains d.name = true) (h : conditionalTag? d = some t) :
    lowered ds (s, l) p = (.text t, (s, l)) := by
  have hr : rewritePart conditionalNames conditionalStep () p = (.text t, ()) :=
    rewritePart_answer hp hn (by rw [conditionalStep, h])
  simp only [lowered, hr]
  rfl

/-- A directive that is not a conditional's, and that the pass for loops answers. -/
theorem lowered_of_loop {p : Part} {d : Directive} {t : Text} {l' : Loops}
    (hp : p.mark? 0 = some d) (hc : conditionalNames.contains d.name = false)
    (hs : switchNames.contains d.name = false) (hn : loopNames.contains d.name = true)
    (h : loopTag? l d = (some t, l')) : lowered ds (s, l) p = (.text t, (s, l')) := by
  simp only [lowered, rewritePart_other conditionalStep () hp hc,
    rewritePart_other switchTag? s hp hs, rewritePart_answer hp hn h]
  rfl

/-- A directive that is left to the pass for helpers. -/
theorem lowered_of_helper {p : Part} {d : Directive} {t : Text}
    (hp : p.mark? 0 = some d) (hc : conditionalNames.contains d.name = false)
    (hs : switchNames.contains d.name = false) (hl : loopNames.contains d.name = false)
    (hn : helperNames.contains d.name = true) (h : helperTag? ds.start ds.stop d = some t) :
    lowered ds (s, l) p = (.text t, (s, l)) := by
  have hr : rewritePart helperNames (helperStep ds) () p = (.text t, ()) :=
    rewritePart_answer hp hn (by rw [helperStep, h])
  simp only [lowered, rewritePart_other conditionalStep () hp hc,
    rewritePart_other switchTag? s hp hs, rewritePart_other loopTag? l hp hl, hr]

variable (s l)

/-- The tag of a conditional directive with a condition. -/
theorem conditionalTag?_condition {n e : Text} (he : isBlank e = false)
    (hn : n ≠ "else" ∧ conditionalEnds.contains n = false) (i j : Nat) :
    conditionalTag? ⟨n, some e, i, j, false⟩ = some (
      if n = "if" then tag ("if " ++ strip e)
      else if n = "elseif" then tag ("elif " ++ strip e)
      else if n = "isset" then
        tag ("if (" ++ strip e ++ ") is defined and (" ++ strip e ++ ") is not none")
      else tag ("if not (" ++ strip e ++ ")")) := by
  obtain ⟨c, r, hs⟩ := List.exists_cons_of_ne_nil (strip_ne_nil he)
  unfold conditionalTag?
  rw [if_neg hn.1, if_neg (by rw [hn.2]; decide), Option.map_some, hs]
  simp only
  repeat' split
  all_goals rfl

theorem lowered_choice (test : Test) {e : Text} (he : isBlank e = false) :
    lowered ds (s, l) (.call test.opener [] e) =
      (.text (tag ("if " ++ test.condition (strip e))), (s, l)) := by
  cases test <;>
    exact lowered_of_conditional ds rfl rfl (conditionalTag?_condition he (by decide) _ _)

theorem lowered_closer (test : Test) :
    lowered ds (s, l) (.word test.closer) = (.text (tag "endif"), (s, l)) := by
  cases test <;> rfl

theorem lowered_elseif {e : Text} (he : isBlank e = false) :
    lowered ds (s, l) (.call "elseif" [] e) = (.text (tag ("elif " ++ strip e)), (s, l)) :=
  lowered_of_conditional ds rfl rfl (conditionalTag?_condition he (by decide) _ _)

theorem lowered_else : lowered ds (s, l) (.word "else") = (.text (tag "else"), (s, l)) := rfl

theorem lowered_switch (e : Text) :
    lowered ds (s, l) (.call "switch" [] e) =
      (.text (tag ("set " ++ switchSubject (s.opened + 1) ++ " = (" ++ strip e ++ ")") ++
          tag "if false"),
        (⟨s.opened + 1, (s.opened + 1) :: s.subjects⟩, l)) := rfl

theorem lowered_case (o n : Nat) (outer : List Nat) (e : Text) :
    lowered ds (⟨o, n :: outer⟩, l) (.call "case" [] e) =
      (.text (tag ("elif " ++ switchSubject n ++ " == (" ++ strip e ++ ")")),
        (⟨o, n :: outer⟩, l)) := rfl

theorem lowered_break (o n : Nat) (outer : List Nat) :
    lowered ds (⟨o, n :: outer⟩, l) (.word "break") = (.text [], (⟨o, n :: outer⟩, l)) := rfl

theorem lowered_default (o n : Nat) (outer : List Nat) :
    lowered ds (⟨o, n :: outer⟩, l) (.word "default") =
      (.text (tag "else"), (⟨o, n :: outer⟩, l)) := rfl

theorem lowered_endswitch (o n : Nat) (outer : List Nat) :
    lowered ds (⟨o, n :: outer⟩, l) (.word "endswitch") =
      (.text (tag "endif"), (⟨o, outer⟩, l)) := rfl

/-- A loop that may have an empty branch or not, with a header that was understood. -/
def frame (mayBeEmpty emptied : Bool) : OpenLoop := ⟨mayBeEmpty, true, emptied⟩

/-- The number of loops around what comes next. -/
def depthOf (l : Loops) : Nat := (l.frames.filter OpenLoop.valid).length

theorem loopTag?_opening (l : Loops) {e : Text} {h : LoopHeader} (he : loopHeader? e = some h)
    {n : Text} (hn : n = "foreach" ∨ n = "forelse") (i j : Nat) :
    loopTag? l ⟨n, some e, i, j, false⟩ =
      (some (loopOpening (l.count + 1) (depthOf l) h),
        ⟨l.count + 1, frame (n = "forelse") false :: l.frames⟩) := by
  cases e with
  | nil => cases he
  | cons c r => simp only [loopTag?, hn, if_true, he, Option.isSome_some, frame, depthOf]

theorem lowered_foreach {e : Text} {h : LoopHeader} (he : loopHeader? e = some h) :
    lowered ds (s, l) (.call "foreach" [] e) =
      (.text (loopOpening (l.count + 1) (depthOf l) h),
        (s, ⟨l.count + 1, frame false false :: l.frames⟩)) :=
  lowered_of_loop ds rfl rfl rfl rfl
    (loopTag?_opening l he (Or.inl rfl) _ _)

theorem lowered_forelse {e : Text} {h : LoopHeader} (he : loopHeader? e = some h) :
    lowered ds (s, l) (.call "forelse" [] e) =
      (.text (loopOpening (l.count + 1) (depthOf l) h),
        (s, ⟨l.count + 1, frame true false :: l.frames⟩)) :=
  lowered_of_loop ds rfl rfl rfl rfl (loopTag?_opening l he (Or.inr rfl) _ _)

theorem lowered_endforeach (n : Nat) (fs : List OpenLoop) :
    lowered ds (s, ⟨n, frame false false :: fs⟩) (.word "endforeach") =
      (.text (tag "endwith" ++ tag "endfor"), (s, ⟨n, fs⟩)) := rfl

theorem lowered_empty (n : Nat) (fs : List OpenLoop) :
    lowered ds (s, ⟨n, frame true false :: fs⟩) (.word "empty") =
      (.text (tag "endwith" ++ tag "else"), (s, ⟨n, frame true true :: fs⟩)) := rfl

theorem lowered_endforelse (n : Nat) (fs : List OpenLoop) :
    lowered ds (s, ⟨n, frame true true :: fs⟩) (.word "endforelse") =
      (.text (tag "endfor"), (s, ⟨n, fs⟩)) := rfl

theorem lowered_json {e : Text} (he : isBlank e = false) :
    lowered ds (s, l) (.call "json" [] e) = (.text (Draft.jsonTag ds e), (s, l)) := by
  refine lowered_of_helper ds rfl rfl rfl rfl rfl ?_
  obtain ⟨value, more, ha⟩ : ∃ value more, arguments e = value :: more := by
    rw [arguments, if_neg (by rw [he]; decide)]
    exact ⟨_, _, rfl⟩
  have hl : Directive.argumentList ⟨"json", some e, 0, 0 + (Part.shown (.call "json" [] e)).length,
      false⟩ = value :: more := ha
  simp only [helperTag?, hl, if_true, Draft.jsonTag, ha, List.headD_cons, List.tail_cons]

end Steps

/-! ### Runs along a draft -/

/-- The context that the states of the passes stand for. -/
def contextOf (s : Switches) (l : Loops) : Draft.Context :=
  ⟨s.opened, l.count, depthOf l, s.subjects.headD 0⟩

/-- The passes turn parts into a text and go from one pair of states to another. -/
def Runs (ds : Delimiters) (s : Switches × Loops) (ps : List Part) (t : Text)
    (s' : Switches × Loops) : Prop :=
  shownAll (walk (lowered ds) s ps).1 = t ∧ (walk (lowered ds) s ps).2 = s'

namespace Runs

variable {ds : Delimiters} {s s' s'' : Switches × Loops} {p : Part} {ps qs : List Part}
  {t u : Text}

theorem nil : Runs ds s [] [] s := ⟨rfl, rfl⟩

theorem cons (hp : lowered ds s p = (.text t, s')) (h : Runs ds s' ps u s'') :
    Runs ds s (p :: ps) (t ++ u) s'' := by
  obtain ⟨ht, hs⟩ := h
  unfold Runs
  rw [walk, hp, shownAll_cons, Part.shown, ht, hs]
  exact ⟨rfl, rfl⟩

theorem append (h : Runs ds s ps t s') (h' : Runs ds s' qs u s'') :
    Runs ds s (ps ++ qs) (t ++ u) s'' := by
  obtain ⟨ht, rfl⟩ := h
  obtain ⟨hu, hs⟩ := h'
  unfold Runs
  rw [walk_append, shownAll_append, ht, hu, hs]
  exact ⟨rfl, rfl⟩

theorem ending (h : Runs ds s ps t s') (e : s' = s'') : Runs ds s ps t s'' := e ▸ h

end Runs

/-- The states behind a draft: the counters have gone on, and nothing else has changed. -/
def past (s : Switches × Loops) {b : Bool} {k : Stretch} (f : Draft b k) : Switches × Loops :=
  (⟨s.1.opened + f.switches, s.1.subjects⟩, ⟨s.2.count + f.loops, s.2.frames⟩)

/-- **Along a draft, the passes write its translation**, and leave the open switches and loops as
they found them.  By induction over the tree: what a construct opens is on top again when its own
directives are met, as the drafts between them have restored the states. -/
theorem runs_draft (ds : Delimiters) : ∀ {b : Bool} {k : Stretch} (f : Draft b k) (s : Switches)
    (l : Loops), (b = true → s.subjects ≠ []) →
      Runs ds (s, l) f.parts (f.translate ds (contextOf s l)) (past (s, l) f)
  | _, _, .done, s, l, _ => Runs.nil
  | _, _, .text t rest, s, l, h =>
      Runs.cons (lowered_text ds s l t.text) (runs_draft ds rest s l h)
  | _, _, .json e rest, s, l, h =>
      Runs.cons (lowered_json ds s l e.given) (runs_draft ds rest s l h)
  | _, _, .leave rest, ⟨o, subjects⟩, l, h => by
      obtain ⟨n, outer, rfl⟩ := List.exists_cons_of_ne_nil (h rfl)
      exact Runs.cons (lowered_break ds l o n outer) (runs_draft ds rest ⟨o, n :: outer⟩ l h)
  | _, _, .choice test e body more rest, s, l, h => by
      have hbody := runs_draft ds body s l h
      have hmore := runs_draft ds more (past (s, l) body).1 (past (s, l) body).2 h
      have hrest := runs_draft ds rest (past (past (s, l) body) more).1
        (past (past (s, l) body) more).2 h
      refine (Runs.cons (lowered_choice ds s l test e.given) (hbody.append (hmore.append
        (Runs.cons (lowered_closer ds _ _ test) hrest)))).ending ?_
      simp only [past, Draft.switches, Draft.loops, Nat.add_assoc]
  | _, _, .switch e lead cases rest, s, l, h => by
      let inside : Switches := ⟨s.opened + 1, (s.opened + 1) :: s.subjects⟩
      let outside : Switches := ⟨s.opened + 1, s.subjects⟩
      have hlead := runs_draft ds lead inside l fun _ => List.cons_ne_nil _ _
      have hcases := runs_draft ds cases (past (inside, l) lead).1 (past (inside, l) lead).2
        fun _ => List.cons_ne_nil _ _
      have hrest := runs_draft ds rest (past (past (outside, l) lead) cases).1
        (past (past (outside, l) lead) cases).2 h
      refine (Runs.cons (lowered_switch ds s l e.text) (hlead.append (hcases.append
        (Runs.cons (lowered_endswitch ds _ _ _ _) hrest)))).ending ?_
      simp only [past, outside, Draft.switches, Draft.loops, Nat.add_assoc]
  | _, _, .foreach hd body rest, s, l, h => by
      let inside : Loops := ⟨l.count + 1, frame false false :: l.frames⟩
      let outside : Loops := ⟨l.count + 1, l.frames⟩
      have hbody := runs_draft ds body s inside h
      have hrest := runs_draft ds rest (past (s, outside) body).1 (past (s, outside) body).2 h
      refine (Runs.cons (lowered_foreach ds s l hd.read) (hbody.append
        (Runs.cons (lowered_endforeach ds _ _ _) hrest))).ending ?_
      simp only [past, outside, Draft.switches, Draft.loops, Nat.add_assoc]
  | _, _, .forelse hd body empty rest, s, l, h => by
      let inside : Loops := ⟨l.count + 1, frame true false :: l.frames⟩
      let emptied : Loops := ⟨l.count + 1, frame true true :: l.frames⟩
      let outside : Loops := ⟨l.count + 1, l.frames⟩
      have hbody := runs_draft ds body s inside h
      have hempty := runs_draft ds empty (past (s, emptied) body).1 (past (s, emptied) body).2 h
      have hrest := runs_draft ds rest (past (past (s, outside) body) empty).1
        (past (past (s, outside) body) empty).2 h
      refine (Runs.cons (lowered_forelse ds s l hd.read) (hbody.append
        (Runs.cons (lowered_empty ds _ _ _) (hempty.append
          (Runs.cons (lowered_endforelse ds _ _ _) hrest))))).ending ?_
      simp only [past, outside, Draft.switches, Draft.loops, Nat.add_assoc]
  | _, _, .close, s, l, _ => Runs.nil
  | _, _, .elseif e body more, s, l, h => by
      have hbody := runs_draft ds body s l h
      have hmore := runs_draft ds more (past (s, l) body).1 (past (s, l) body).2 h
      refine (Runs.cons (lowered_elseif ds s l e.given) (hbody.append hmore)).ending ?_
      simp only [past, Draft.switches, Draft.loops, Nat.add_assoc]
  | _, _, .otherwise body, s, l, h =>
      Runs.cons (lowered_else ds s l) (runs_draft ds body s l h)
  | _, _, .last, s, l, _ => Runs.nil
  | _, _, .case e body more, ⟨o, subjects⟩, l, h => by
      obtain ⟨n, outer, rfl⟩ := List.exists_cons_of_ne_nil (h rfl)
      let s : Switches := ⟨o, n :: outer⟩
      have hbody := runs_draft ds body s l h
      have hmore := runs_draft ds more (past (s, l) body).1 (past (s, l) body).2 h
      refine (Runs.cons (lowered_case ds l o n outer e.text) (hbody.append hmore)).ending ?_
      simp only [past, s, Draft.switches, Draft.loops, Nat.add_assoc]
  | _, _, .default body more, ⟨o, subjects⟩, l, h => by
      obtain ⟨n, outer, rfl⟩ := List.exists_cons_of_ne_nil (h rfl)
      let s : Switches := ⟨o, n :: outer⟩
      have hbody := runs_draft ds body s l h
      have hmore := runs_draft ds more (past (s, l) body).1 (past (s, l) body).2 h
      refine (Runs.cons (lowered_default ds l o n outer) (hbody.append hmore)).ending ?_
      simp only [past, s, Draft.switches, Draft.loops, Nat.add_assoc]

/-! ### The parts of a draft -/

/-- The directives of drafts that stand alone. -/
def draftWords : List Text :=
  ["break", "endif", "endunless", "endisset", "endempty", "endswitch", "endforeach", "empty",
    "endforelse", "else", "default"]

/-- The directives of drafts with an argument list. -/
def draftCalls : List Text :=
  ["json", "if", "unless", "isset", "empty", "switch", "foreach", "forelse", "elseif", "case"]

/-- What drafts are written with. -/
inductive Written : Part → Prop
  | text (t : PlainText) : Written (.text t.text)
  | word {n : Text} : n ∈ draftWords → Written (.word n)
  | call {n a : Text} : n ∈ draftCalls → Balanced a → '@' ∉ a → Written (.call n [] a)

theorem opener_mem (test : Test) : test.opener ∈ draftCalls := by
  cases test <;> decide

theorem closer_mem (test : Test) : test.closer ∈ draftWords := by
  cases test <;> decide

theorem Draft.written : ∀ {b : Bool} {k : Stretch} (f : Draft b k), ∀ p ∈ f.parts, Written p
  | _, _, .done => fun _ h => absurd h List.not_mem_nil
  | _, _, .text t rest => List.forall_mem_cons.mpr ⟨.text t, rest.written⟩
  | _, _, .json e rest =>
      List.forall_mem_cons.mpr ⟨.call (by decide) e.balanced e.plain, rest.written⟩
  | _, _, .leave rest => List.forall_mem_cons.mpr ⟨.word (by decide), rest.written⟩
  | _, _, .choice test e body more rest => by
      rw [parts, List.forall_mem_cons, List.forall_mem_append, List.forall_mem_append,
        List.forall_mem_cons]
      exact ⟨.call (opener_mem test) e.balanced e.plain, body.written, more.written,
        .word (closer_mem test), rest.written⟩
  | _, _, .switch e lead cases rest => by
      rw [parts, List.forall_mem_cons, List.forall_mem_append, List.forall_mem_append,
        List.forall_mem_cons]
      exact ⟨.call (by decide) e.balanced e.plain, lead.written, cases.written, .word (by decide),
        rest.written⟩
  | _, _, .foreach h body rest => by
      rw [parts, List.forall_mem_cons, List.forall_mem_append, List.forall_mem_cons]
      exact ⟨.call (by decide) h.balanced h.plain, body.written, .word (by decide), rest.written⟩
  | _, _, .forelse h body empty rest => by
      rw [parts, List.forall_mem_cons, List.forall_mem_append, List.forall_mem_cons,
        List.forall_mem_append, List.forall_mem_cons]
      exact ⟨.call (by decide) h.balanced h.plain, body.written, .word (by decide), empty.written,
        .word (by decide), rest.written⟩
  | _, _, .close => fun _ h => absurd h List.not_mem_nil
  | _, _, .elseif e body more => by
      rw [parts, List.forall_mem_cons, List.forall_mem_append]
      exact ⟨.call (by decide) e.balanced e.plain, body.written, more.written⟩
  | _, _, .otherwise body => List.forall_mem_cons.mpr ⟨.word (by decide), body.written⟩
  | _, _, .last => fun _ h => absurd h List.not_mem_nil
  | _, _, .case e body more => by
      rw [parts, List.forall_mem_cons, List.forall_mem_append]
      exact ⟨.call (by decide) e.balanced e.plain, body.written, more.written⟩
  | _, _, .default body more => by
      rw [parts, List.forall_mem_cons, List.forall_mem_append]
      exact ⟨.word (by decide), body.written, more.written⟩

theorem Written.sound {p : Part} (h : Written p) : p.Sound := by
  have words : ∀ n ∈ draftWords, name? n = some n := by decide
  have calls : ∀ n ∈ draftCalls, name? n = some n ∧ n ∉ bareNames := by decide
  cases h with
  | text t => exact t.plain
  | word hn => exact words _ hn
  | call hn hb ha => exact ⟨(calls _ hn).1, (calls _ hn).2, rfl, hb, ha⟩

theorem Written.ne_verbatim {p : Part} (h : Written p) : p ≠ .word "verbatim" := by
  rintro rfl
  cases h with
  | word hn => exact absurd hn (by decide)

/-- A draft whose words are separated from what follows them is legible. -/
theorem Draft.legible {b : Bool} {k : Stretch} (f : Draft b k) (h : Separated f.parts) :
    Legible f.parts :=
  legible_iff.mpr ⟨fun p hp => (f.written p hp).sound, h⟩

/-- A draft without directives is its own translation. -/
theorem Draft.translate_of_not_mem (ds : Delimiters) : ∀ (c : Context) {b : Bool} {k : Stretch}
    (f : Draft b k), '@' ∉ f.source → f.translate ds c = f.source
  | _, _, _, .done, _ => rfl
  | c, _, _, .text t rest, h => by
      have hr : '@' ∉ rest.source := fun hm => h (List.mem_append_right t.text hm)
      rw [translate, rest.translate_of_not_mem ds c hr]
      rfl
  | _, _, _, .close, _ => rfl
  | _, _, _, .last, _ => rfl
  | _, _, _, .json _ _, h => absurd List.mem_cons_self h
  | _, _, _, .leave _, h => absurd List.mem_cons_self h
  | _, _, _, .choice _ _ _ _ _, h => absurd List.mem_cons_self h
  | _, _, _, .switch _ _ _ _, h => absurd List.mem_cons_self h
  | _, _, _, .foreach _ _ _, h => absurd List.mem_cons_self h
  | _, _, _, .forelse _ _ _ _, h => absurd List.mem_cons_self h
  | _, _, _, .elseif _ _ _, h => absurd List.mem_cons_self h
  | _, _, _, .otherwise _, h => absurd List.mem_cons_self h
  | _, _, _, .case _ _ _, h => absurd List.mem_cons_self h
  | _, _, _, .default _ _, h => absurd List.mem_cons_self h

/-! ### The characters of a translation -/

section Characters

variable {x : Char} (hx : Foreign x)

include hx

theorem not_mem_condition {e : Text} (he : x ∉ e) (test : Test) : x ∉ test.condition e := by
  have hnot : x ∉ "not (" ++ e ++ ")" :=
    not_mem_append (not_mem_append (hx.not_mem rfl) he) (hx.not_mem rfl)
  cases test with
  | whether => exact he
  | negated => exact hnot
  | isset =>
      exact not_mem_append (not_mem_append (not_mem_append (not_mem_append (hx.not_mem rfl) he)
        (hx.not_mem rfl)) he) (hx.not_mem rfl)
  | empty => exact hnot

theorem not_mem_jsonTag {ds : Delimiters} (hs : x ∉ ds.start) (hd : x ∉ ds.stop) {e : Text}
    (he : x ∉ e) : x ∉ Draft.jsonTag ds e := by
  have pieces : ∀ a ∈ arguments e, x ∉ a := by
    unfold arguments
    split
    · exact fun _ ha => absurd ha List.not_mem_nil
    · exact not_mem_splitTop _ he
  have hvalue : x ∉ (arguments e).headD [] := by
    cases ha : arguments e with
    | nil => exact List.not_mem_nil
    | cons value more => exact pieces value (ha ▸ List.mem_cons_self)
  have hlayout : x ∉ (arguments e).tail.head?.getD "false" := by
    cases ha : (arguments e).tail with
    | nil => exact hx.not_mem rfl
    | cons layout more =>
        exact pieces layout (List.mem_of_mem_tail (ha ▸ List.mem_cons_self))
  exact not_mem_append (not_mem_append (not_mem_append (not_mem_append (not_mem_append
    (not_mem_append hs (hx.not_mem rfl)) hvalue) (hx.not_mem rfl)) hlayout) (hx.not_mem rfl)) hd

/-- A translation holds a foreign character only where its texts and arguments do. -/
theorem Draft.not_mem_translate {ds : Delimiters} (hs : x ∉ ds.start) (hd : x ∉ ds.stop) :
    ∀ (c : Context) {b : Bool} {k : Stretch} (f : Draft b k), (∀ p ∈ f.parts, x ∉ p.inner) →
      x ∉ f.translate ds c
  | _, _, _, .done, _ => List.not_mem_nil
  | c, _, _, .text t rest, h => by
      rw [parts, List.forall_mem_cons] at h
      exact not_mem_append h.1 (rest.not_mem_translate hs hd c h.2)
  | c, _, _, .json e rest, h => by
      rw [parts, List.forall_mem_cons] at h
      exact not_mem_append (not_mem_jsonTag hx hs hd h.1) (rest.not_mem_translate hs hd c h.2)
  | c, _, _, .leave rest, h => by
      rw [parts, List.forall_mem_cons] at h
      exact rest.not_mem_translate hs hd c h.2
  | c, _, _, .choice test e body more rest, h => by
      rw [parts, List.forall_mem_cons, List.forall_mem_append, List.forall_mem_append,
        List.forall_mem_cons] at h
      obtain ⟨he, hbody, hmore, -, hrest⟩ := h
      have hopen : x ∉ "if " ++ test.condition (strip e.text) :=
        not_mem_append (hx.not_mem rfl) (not_mem_condition hx (not_mem_strip he) test)
      exact not_mem_append (hx.not_mem_tag hopen)
        (not_mem_append (body.not_mem_translate hs hd _ hbody)
          (not_mem_append (more.not_mem_translate hs hd _ hmore)
            (not_mem_append (hx.not_mem rfl) (rest.not_mem_translate hs hd _ hrest))))
  | c, _, _, .switch e lead cases rest, h => by
      rw [parts, List.forall_mem_cons, List.forall_mem_append, List.forall_mem_append,
        List.forall_mem_cons] at h
      obtain ⟨he, hlead, hcases, -, hrest⟩ := h
      have hopen : x ∉ "set " ++ switchSubject (c.switches + 1) ++ " = (" ++ strip e.text ++ ")" :=
        not_mem_append (not_mem_append (not_mem_append (not_mem_append (hx.not_mem rfl)
          (hx.not_mem_switchSubject _)) (hx.not_mem rfl)) (not_mem_strip he)) (hx.not_mem rfl)
      exact not_mem_append (not_mem_append (hx.not_mem_tag hopen) (hx.not_mem rfl))
        (not_mem_append (lead.not_mem_translate hs hd _ hlead)
          (not_mem_append (cases.not_mem_translate hs hd _ hcases)
            (not_mem_append (hx.not_mem rfl) (rest.not_mem_translate hs hd _ hrest))))
  | c, _, _, .foreach e body rest, h => by
      rw [parts, List.forall_mem_cons, List.forall_mem_append, List.forall_mem_cons] at h
      obtain ⟨he, hbody, -, hrest⟩ := h
      obtain ⟨hc, ht⟩ := hx.not_mem_header e.read he
      exact not_mem_append (hx.not_mem_loopOpening _ _ hc ht)
        (not_mem_append (body.not_mem_translate hs hd _ hbody)
          (not_mem_append (hx.not_mem rfl) (rest.not_mem_translate hs hd _ hrest)))
  | c, _, _, .forelse e body empty rest, h => by
      rw [parts, List.forall_mem_cons, List.forall_mem_append, List.forall_mem_cons,
        List.forall_mem_append, List.forall_mem_cons] at h
      obtain ⟨he, hbody, -, hempty, -, hrest⟩ := h
      obtain ⟨hc, ht⟩ := hx.not_mem_header e.read he
      exact not_mem_append (hx.not_mem_loopOpening _ _ hc ht)
        (not_mem_append (body.not_mem_translate hs hd _ hbody)
          (not_mem_append (hx.not_mem rfl) (not_mem_append (empty.not_mem_translate hs hd _ hempty)
            (not_mem_append (hx.not_mem rfl) (rest.not_mem_translate hs hd _ hrest)))))
  | _, _, _, .close, _ => List.not_mem_nil
  | c, _, _, .elseif e body more, h => by
      rw [parts, List.forall_mem_cons, List.forall_mem_append] at h
      obtain ⟨he, hbody, hmore⟩ := h
      have hopen : x ∉ "elif " ++ strip e.text := not_mem_append (hx.not_mem rfl) (not_mem_strip he)
      exact not_mem_append (hx.not_mem_tag hopen)
        (not_mem_append (body.not_mem_translate hs hd _ hbody)
          (more.not_mem_translate hs hd _ hmore))
  | c, _, _, .otherwise body, h => by
      rw [parts, List.forall_mem_cons] at h
      exact not_mem_append (hx.not_mem rfl) (body.not_mem_translate hs hd _ h.2)
  | _, _, _, .last, _ => List.not_mem_nil
  | c, _, _, .case e body more, h => by
      rw [parts, List.forall_mem_cons, List.forall_mem_append] at h
      obtain ⟨he, hbody, hmore⟩ := h
      have hopen : x ∉ "elif " ++ switchSubject c.subject ++ " == (" ++ strip e.text ++ ")" :=
        not_mem_append (not_mem_append (not_mem_append (not_mem_append (hx.not_mem rfl)
          (hx.not_mem_switchSubject _)) (hx.not_mem rfl)) (not_mem_strip he)) (hx.not_mem rfl)
      exact not_mem_append (hx.not_mem_tag hopen)
        (not_mem_append (body.not_mem_translate hs hd _ hbody)
          (more.not_mem_translate hs hd _ hmore))
  | c, _, _, .default body more, h => by
      rw [parts, List.forall_mem_cons, List.forall_mem_append] at h
      obtain ⟨-, hbody, hmore⟩ := h
      exact not_mem_append (hx.not_mem rfl)
        (not_mem_append (body.not_mem_translate hs hd _ hbody)
          (more.not_mem_translate hs hd _ hmore))

end Characters

/-! ### The whole rewriting -/

theorem Written.at_not_mem_inner {p : Part} (h : Written p) : '@' ∉ p.inner := by
  cases h with
  | text t => exact t.plain
  | word _ => exact List.not_mem_nil
  | call _ _ ha => exact ha

theorem not_mem_inner_of_shownAll {x : Char} {ps : List Part} (h : x ∉ shownAll ps) {p : Part}
    (hp : p ∈ ps) : x ∉ p.inner := by
  intro hm
  refine h (List.mem_flatMap.mpr ⟨p, hp, ?_⟩)
  cases p with
  | text t => exact hm
  | word n => cases hm
  | call n gap args =>
      have hm' : x ∈ args := hm
      simp [Part.shown, hm']

/-- The rewriting of parts that the passes turn into text without directives is that text. -/
theorem transform_shownAll (ds : Delimiters) {ps : List Part} {t : Text} (hl : Legible ps)
    (uncommented : stripComments (shownAll ps) = shownAll ps)
    (unguarded : guardRegions (shownAll ps) = (shownAll ps, [])) (given : '@' ∈ shownAll ps)
    (run : shownAll (walk (lowered ds) ({}, {}) ps).1 = t) (single : '@' ∉ t)
    (visible : '\x00' ∉ t) : transform ds (shownAll ps) = .ok t := by
  have may : mayHoldDirectives (shownAll ps) = true := by
    rw [mayHoldDirectives, List.contains_iff_mem.mpr given]
    rfl
  have guarded : guardRegions (escapeMarkers (stripComments (shownAll ps))) =
      (shownAll ps, []) := by
    rw [uncommented, escapeMarkers_shownAll hl, unguarded]
  have rewritten : rewriteAll ds (shownAll ps) = t := by
    rw [rewriteAll, rewriteHelpers_shownAll ds hl, run, rewriteStackMarkers_eq_self single,
      rewriteIncludes_eq_self single]
  rw [transform, if_pos may, guarded]
  simp only [rewritten, restoreRegions_eq_self visible, Except.map, restoreMarkers_eq_self visible]

/-- **The rewriting of a draft's source is the draft's translation.**  The delimiters hold no at
sign and no null character; what follows a directive without arguments does not run into it; and the
source holds no null character, comment opening or raw tag. -/
theorem transform_source (ds : Delimiters) (hds : ∀ x, Foreign x → x ∉ ds.start ∧ x ∉ ds.stop)
    (f : Draft false .body) (hsep : Separated f.parts) (hnull : '\x00' ∉ f.source)
    (hcomment : ¬ "\x7b\x7b--".toList <:+: f.source)
    (hraw : ∀ t, t <:+ f.source → keywordTag? "raw" t = none) :
    transform ds f.source = .ok (f.translate ds {}) := by
  have hat : '@' ∉ f.translate ds {} :=
    f.not_mem_translate (Or.inl rfl) (hds _ (Or.inl rfl)).1 (hds _ (Or.inl rfl)).2 {}
      fun p hp => (f.written p hp).at_not_mem_inner
  have hnull' : '\x00' ∉ f.translate ds {} :=
    f.not_mem_translate (Or.inr rfl) (hds _ (Or.inr rfl)).1 (hds _ (Or.inr rfl)).2 {}
      fun p hp => not_mem_inner_of_shownAll hnull hp
  have hl := f.legible hsep
  have hguard : guardRegions (escapeMarkers (stripComments f.source)) = (f.source, []) := by
    rw [stripComments_eq_self hcomment, Draft.source, escapeMarkers_shownAll hl,
      guardRegions_shownAll hl hraw fun h => (f.written _ h).ne_verbatim rfl]
  have hall : rewriteAll ds f.source = f.translate ds {} := by
    have hrun := (runs_draft ds f {} {} nofun).1
    rw [rewriteAll, Draft.source, rewriteHelpers_shownAll ds hl, hrun]
    exact (congrArg rewriteIncludes (rewriteStackMarkers_eq_self hat)).trans
      (rewriteIncludes_eq_self hat)
  unfold transform
  split
  · rw [hguard]
    simp only
    rw [hall, restoreRegions_eq_self hnull']
    exact congrArg Except.ok (restoreMarkers_eq_self hnull')
  · next h =>
    rw [mayHoldDirectives, Bool.not_eq_true, Bool.or_eq_false_iff] at h
    have hm : '@' ∉ f.source := fun hm =>
      Bool.false_ne_true (h.1.symm.trans (List.contains_iff_mem.mpr hm))
    rw [f.translate_of_not_mem ds {} hm]

/-- An expression without quotes and brackets. -/
def Expression.bare (t : Text) (hi : t.all isInert = true) (ha : '@' ∉ t)
    (hb : isBlank t = false) : Expression := ⟨t, .of_inert hi, ha, hb⟩

/-- The draft of
`@switch(n)@case(1)one@break@default@forelse(xs as x)@json(x)@empty none@endforelse@endswitch`. -/
def switchOverLoop : Draft false .body :=
  .switch (.bare "n" (by decide) (by decide) (by decide)) .done
    (.case (.bare "1" (by decide) (by decide) (by decide)) (.text ⟨"one", by decide⟩ (.leave .done))
      (.default
        (.forelse ⟨"xs as x", .of_inert (by decide), by decide, ⟨"xs", "x", false⟩, by decide +kernel⟩
          (.json (.bare "x" (by decide) (by decide) (by decide)) .done)
          (.text ⟨" none", by decide⟩ .done) .done)
        .last))
    .done

theorem transform_switchOverLoop :
    transform {} switchOverLoop.source = .ok (switchOverLoop.translate {} {}) := by
  have hsource : '\x7b' ∉ switchOverLoop.source := by decide
  refine transform_source {} ?_ switchOverLoop (by decide) (by decide) ?_ ?_
  · rintro x (rfl | rfl) <;> decide
  · exact not_infix_of_not_mem hsource
  · exact fun t ht => keywordTag?_eq_none fun hm => hsource (ht.subset hm)

end Pagewright.Lowering
