import Mathlib.Control.Monad.Basic
import Mathlib.Data.List.DropRight
import Mathlib.Data.List.Nodup
import Pagewright.Proofs.Template.Data
import Pagewright.Template.Press

/-! # A press that can be trusted

A press keeps templates under their texts.  As long as every kept template is what its text compiles
to (`Press.Genuine`), printing does not depend on what was printed before, whichever templates had
to make room (`Press.Genuine.print`).  A press for usual templates prints data as it is
(`Press.Sound.print_data`). -/

namespace Pagewright

open Template

namespace Press

/-! ### What is kept -/

/-- Every template that a press keeps is the one of its text. -/
def Genuine (p : Press) : Prop := ∀ e ∈ p.kept, Template.compile p.dialect e.1 = .ok e.2

theorem dialect_keep (p : Press) (t : Text) (c : Compiled) : (p.keep t c).dialect = p.dialect := by
  unfold keep
  split <;> rfl

theorem genuine_forget (p : Press) : p.forget.Genuine := fun _ he => absurd he List.not_mem_nil

namespace Genuine

variable {p : Press} (h : p.Genuine)

include h

theorem find? {t : Text} {c : Compiled} (hc : p.find? t = some c) :
    Template.compile p.dialect t = .ok c := by
  obtain ⟨e, he, rfl⟩ := Option.map_eq_some_iff.mp hc
  have hb := List.find?_some he
  have hk : e.1 = t := beq_iff_eq.mp hb
  rw [← hk]
  exact h e (List.mem_of_find?_eq_some he)

/-- A further template is kept only if it is the one of its text. -/
theorem keep {t : Text} {c : Compiled} (hc : Template.compile p.dialect t = .ok c) :
    (p.keep t c).Genuine := by
  unfold Press.keep
  split
  · exact h
  · intro e he
    obtain he | he := List.mem_append.mp he
    · refine h e ?_
      split at he
      · exact List.mem_of_mem_drop he
      · exact he
    · obtain rfl := List.mem_singleton.mp he
      exact hc

/-- A text is compiled as if nothing were kept. -/
theorem compile (t : Text) (path : Option Text) :
    ∃ q, p.compile t path = ((Template.compile p.dialect t).mapError (unreadable path), q) ∧
      q.Genuine ∧ q.dialect = p.dialect := by
  unfold Press.compile
  cases hf : p.find? t with
  | some c =>
      rw [h.find? hf]
      exact ⟨p, rfl, h, rfl⟩
  | none =>
      cases hc : Template.compile p.dialect t with
      | ok c => exact ⟨p.keep t c, rfl, h.keep hc, p.dialect_keep t c⟩
      | error e => exact ⟨p, rfl, h, rfl⟩

/-- **A text is printed as if nothing were kept.** -/
theorem print (t : Text) (data : List (Value × Value)) (path : Option Text) :
    ∃ q, p.print t data path =
        (((Template.compile p.dialect t).mapError (unreadable path)).bind fun c =>
          printed c data path, q) ∧
      q.Genuine ∧ q.dialect = p.dialect := by
  obtain ⟨q, hq, genuine, dialect⟩ := h.compile t path
  refine ⟨q, ?_, genuine, dialect⟩
  unfold Press.print
  rw [hq]

end Genuine

/-! ### Data -/

/-- A press for usual templates of which every kept template is the one of its text. -/
structure Sound (p : Press) : Prop where
  usual : Usual p.dialect
  kept : ∀ e ∈ p.kept, Template.compile p.dialect e.1 = .ok e.2

theorem Sound.genuine {p : Press} (h : p.Sound) : p.Genuine := h.kept

/-- **A sound press prints data as it is** and stays sound. -/
theorem Sound.print_data {p : Press} (h : p.Sound) {t : Text} (ht : IsData t)
    {data : List (Value × Value)} (hd : Named data) (path : Option Text) :
    ∃ q, p.print t data path = (.ok t, q) ∧ q.Sound := by
  obtain ⟨q, hq, genuine, dialect⟩ := h.genuine.print t data path
  have usual : Usual q.dialect := by
    rw [dialect]
    exact h.usual
  refine ⟨q, ?_, usual, genuine⟩
  rw [hq, compile_data h.usual ht]
  simp only [Except.mapError, Except.bind, printed, render_data t _ hd]

end Press

end Pagewright

/-! ## A value between output delimiters

A template that prints a name and nothing else prints the text that the data have under that name,
and does not read it (`Compiled.render_output`).  `window` is such a template in the usual dialects
(`compile_window`), so a press that can be trusted prints the text there
(`Press.Sound.print_window`). -/

namespace Pagewright

open Text

namespace Template

/-- The name that a template prints, if it does nothing else. -/
def Compiled.output? (c : Compiled) : Option Text :=
  match c.nodes, c.blocks with
  | [.output (.name n _)], [] => some n
  | _, _ => none

theorem Compiled.of_output? {c : Compiled} {n : Text} (h : c.output? = some n) :
    ∃ line, c = ⟨[.output (.name n line)], [], c.guarded⟩ := by
  obtain ⟨nodes, blocks, guarded⟩ := c
  unfold Compiled.output? at h
  split at h
  · next line hn hb =>
    obtain rfl := Option.some.inj h
    exact ⟨line, by rw [show nodes = _ from hn, show blocks = _ from hb]⟩
  · cases h

/-! ### Running -/

/-- Where a template that reads one name runs: in one new scope without variables. -/
def bare (s : Store) (n : Text) : Setting :=
  { frames := [s.frames.size], mentioned := [n], top := true }

theorem topSetting_name {n : Text} (hn : n ≠ "self") (line : Nat) (s : Store) :
    topSetting (mentionsAllOf [.output (.name n line)])
        (Scope.ofBody [] [] [.output (.name n line)]) s =
      .ok (bare s n, { s with frames := s.frames.push [] }) := by
  have unread : readsFirst ["self"] (mentionsAllOf [.output (.name n line)]) = [] := by
    have other : ¬ ["self".toList].contains n = true := by simpa using hn
    simp only [mentionsAllOf, Node.mentionsAll, Expr.mentions, List.append_nil, readsFirst,
      if_neg other]
  unfold topSetting
  rw [unread]
  rfl

/-- A name that no open scope has and that was not set has its value in the data. -/
theorem readName_data {g : Program} {s : Store} {n : Text} {v : Value} (hs : s.exported = [])
    (hv : named? n g.data = some v) :
    readName g (bare s n) n { s with frames := s.frames.push [] } =
      .ok (v, { s with frames := s.frames.push [] }) := by
  have scopes : lookupFrames (s.frames.push []) n [s.frames.size] = none := by
    simp [lookupFrames, Frame.find?]
  let opened : Store := { s with frames := s.frames.push [] }
  have found : (named? n (bare s n).overlay <|> named? n opened.exported <|> named? n g.data) =
      some v := by
    rw [show opened.exported = [] from hs, hv]
    rfl
  have outside : globalValue g (bare s n) n opened = .ok (v, opened) := by
    unfold globalValue
    refine (run_bind (show _ = Except.ok (opened, opened) from rfl)).trans ?_
    rw [found]
    rfl
  unfold readName
  refine (run_bind (show _ = Except.ok (opened, opened) from rfl)).trans ?_
  rw [show lookupFrames opened.frames n (bare s n).frames = none from scopes]
  exact outside

/-- **A text is printed as it is** where its name stands, whatever it holds. -/
theorem Compiled.render_output {c : Compiled} {n t : Text} (hc : c.output? = some n)
    (hn : n ≠ "self") {data : List (Value × Value)} {named : List (Text × Value)}
    (hd : namedData data = .ok named) (hv : named? n named = some (.str t)) :
    c.render data = .ok t := by
  obtain ⟨line, hc⟩ := c.of_output? hc
  rw [hc]
  refine withData_ok hd fun kept s hs values => ?_
  let g : Program := { guarded := c.guarded, data := kept }
  have value := readName_data (g := g) hs (values n _ (stays_str t) hv)
  have shown : runNodes g (machine g runDepth) (bare s n) [.output (.name n line)]
      { s with frames := s.frames.push [] } =
        .ok (t ++ [], { s with frames := s.frames.push [] }) := by
    refine (run_bind (show _ = Except.ok (t, { s with frames := s.frames.push [] }) from ?_)).trans
      rfl
    exact (run_bind value).trans rfl
  rw [List.append_nil] at shown
  exact ⟨_, (run_bind (topSetting_name hn line s)).trans shown⟩

/-! ### A window -/

/-- A template in the usual dialects that prints the value named `x`. -/
def window : Text := "\x7b\x7b x \x7d\x7d"

theorem compile_window {d : Dialect} (hd : Usual d) :
    ∃ c, compile d window = .ok c ∧ c.output? = some "x" := by
  have all : ∀ trim lstrip sandbox : Bool,
      (compile ⟨{}, trim, lstrip, true, sandbox⟩ window).toOption.bind Compiled.output? =
        some "x" := by
    decide +kernel
  obtain ⟨delimiters, trim, lstrip, keep, sandbox⟩ := d
  obtain ⟨rfl, rfl⟩ : delimiters = {} ∧ keep = true := hd
  obtain ⟨c, hc, hx⟩ := Option.bind_eq_some_iff.mp (all trim lstrip sandbox)
  refine ⟨c, ?_, hx⟩
  cases hr : compile ⟨{}, trim, lstrip, true, sandbox⟩ window with
  | ok c' =>
      rw [hr] at hc
      exact congrArg Except.ok (Option.some.inj hc)
  | error e =>
      rw [hr] at hc
      cases hc

end Template

namespace Press

open Template

/-- **A sound press prints the text in a window** and stays sound. -/
theorem Sound.print_window {p : Press} (h : p.Sound) {data : List (Value × Value)}
    {named : List (Text × Value)} {t : Text} (hd : namedData data = .ok named)
    (hv : named? "x" named = some (.str t)) (path : Option Text) :
    ∃ q, p.print window data path = (.ok t, q) ∧ q.Sound := by
  obtain ⟨q, hq, genuine, dialect⟩ := h.genuine.print window data path
  have usual : Usual q.dialect := by
    rw [dialect]
    exact h.usual
  obtain ⟨c, hc, hx⟩ := compile_window h.usual
  refine ⟨q, ?_, usual, genuine⟩
  rw [hq, hc]
  simp only [Except.mapError, Except.bind, printed, c.render_output hx (by decide) hd hv]

end Press

end Pagewright

/-! ## What is asked of a press

A press is asked for templates, and now and then to forget those that it keeps.  Whatever it was asked
before, it answers as if it kept nothing, and the texts that it keeps templates for are the last ones
that it has read (`Press.serveAll_last`).

Main definitions: `Press.serveAll`, `Press.recordAll`, `Press.Keeps`. -/

namespace Pagewright

open Template

namespace Press

/-- What is asked of a press: to compile a text that belongs to a path, or to forget what it keeps. -/
inductive Request where
  | compile (t : Text) (path : Option Text)
  | forget

/-- A template that was asked for and the pages that it gives, whose problems are reported under the
path that it was asked for with. -/
abbrev Delivery := Compiled × (List (Value × Value) → Except Problem Text)

/-- What a press gives out for a text. -/
def deliver (p : Press) (t : Text) (path : Option Text) : Except Problem Delivery :=
  (p.compile t path).1.map fun c => (c, fun data => printed c data path)

/-- The answer to a request, if it asks for a template, and the press afterwards. -/
def serve (p : Press) : Request → Option (Except Problem Delivery) × Press
  | .compile t path => (some (p.deliver t path), (p.compile t path).2)
  | .forget => (none, p.forget)

/-- The answers to requests one after the other, and the press afterwards. -/
def serveAll (p : Press) : List Request → List (Option (Except Problem Delivery)) × Press
  | [] => ([], p)
  | r :: rs => ((p.serve r).1 :: ((p.serve r).2.serveAll rs).1, ((p.serve r).2.serveAll rs).2)

/-- The texts that a press keeps templates for, the oldest first. -/
def texts (p : Press) : List Text := p.kept.map Prod.fst

/-- The texts compiled since a press last forgot, without those that it kept already, after a further
request. -/
def record (p : Press) (before : List Text) : Request → List Text
  | .compile t path =>
    match p.find? t, (p.compile t path).1 with
    | none, .ok _ => before ++ [t]
    | _, _ => before
  | .forget => []

/-- The texts compiled since a press last forgot, without those that it kept already, after requests
one after the other. -/
def recordAll (p : Press) (before : List Text) : List Request → List Text
  | [] => before
  | r :: rs => (p.serve r).2.recordAll (p.record before r) rs

/-! ### Steps -/

variable {p : Press} {t : Text} {path : Option Text}

theorem find?_eq_none_iff : p.find? t = none ↔ t ∉ p.texts := by
  rw [find?, Option.map_eq_none_iff, List.find?_eq_none, texts, List.mem_map]
  constructor
  · rintro h ⟨e, he, rfl⟩
    exact h e he (beq_self_eq_true e.1)
  · rintro h e he same
    exact h ⟨e, he, beq_iff_eq.mp same⟩

/-- What compiling does: a text that is kept is not read again, one that is read is kept, and one that
cannot be read changes nothing. -/
theorem compile_cases (p : Press) (t : Text) (path : Option Text) :
    (∃ c, p.find? t = some c ∧ p.compile t path = (.ok c, p)) ∨
    (p.find? t = none ∧ ∃ c, Template.compile p.dialect t = .ok c ∧
      p.compile t path = (.ok c, p.keep t c)) ∨
    (p.find? t = none ∧ ∃ e, p.compile t path = (.error e, p)) := by
  unfold compile
  cases p.find? t with
  | some c => exact Or.inl ⟨c, rfl, rfl⟩
  | none =>
    cases read : Template.compile p.dialect t with
    | ok c => exact Or.inr (Or.inl ⟨rfl, c, rfl, rfl⟩)
    | error e => exact Or.inr (Or.inr ⟨rfl, _, rfl⟩)

theorem texts_keep (p : Press) (t : Text) (c : Compiled) : (p.keep t c).texts =
    if p.capacity ≤ 0 then p.texts
    else (if p.capacity ≤ p.texts.length then p.texts.drop 1 else p.texts) ++ [t] := by
  unfold keep texts
  rw [List.length_map]
  split
  · rfl
  · split
    · rw [List.map_append, List.map_drop]
      rfl
    · exact List.map_append

theorem capacity_keep (p : Press) (t : Text) (c : Compiled) :
    (p.keep t c).capacity = p.capacity := by
  unfold keep
  split <;> rfl

theorem capacity_serve (p : Press) (r : Request) : (p.serve r).2.capacity = p.capacity := by
  cases r with
  | forget => rfl
  | compile t path =>
    have result : (p.compile t path).2.capacity = p.capacity := by
      obtain ⟨c, -, e⟩ | ⟨-, c, -, e⟩ | ⟨-, f, e⟩ := p.compile_cases t path <;> rw [e]
      exact capacity_keep p t c
    exact result

theorem capacity_serveAll (p : Press) (rs : List Request) :
    (p.serveAll rs).2.capacity = p.capacity := by
  induction rs generalizing p with
  | nil => rfl
  | cons r rs ih => exact (ih _).trans (capacity_serve p r)

/-- The last members of a list with one more: the oldest of them makes room. -/
theorem rtake_concat {α : Type} (l : List α) (a : α) {n : Nat} (room : 0 < n) :
    (l ++ [a]).rtake n =
      (if n ≤ (l.rtake n).length then (l.rtake n).drop 1 else l.rtake n) ++ [a] := by
  obtain ⟨n, rfl⟩ := Nat.exists_eq_succ_of_ne_zero (Nat.pos_iff_ne_zero.mp room)
  rw [List.rtake_concat_succ]
  congr 1
  unfold List.rtake
  rw [List.length_drop]
  split
  · rw [List.drop_drop]
    congr 1
    omega
  · rw [Nat.sub_eq_zero_of_le (by omega), Nat.sub_eq_zero_of_le (by omega)]

/-- What a press keeps are the last of some texts, as many as there is room for. -/
structure Keeps (p : Press) (before : List Text) : Prop where
  genuine : p.Genuine
  last : p.texts = before.rtake p.capacity.toNat
  nodup : p.texts.Nodup

namespace Keeps

variable {before : List Text} (h : p.Keeps before)

include h

theorem keep {c : Compiled} (new : t ∉ p.texts) (read : Template.compile p.dialect t = .ok c) :
    (p.keep t c).Keeps (before ++ [t]) := by
  have last := h.last
  refine ⟨h.genuine.keep read, ?_, ?_⟩
  · rw [texts_keep, capacity_keep]
    split
    · next full =>
      rw [Int.toNat_eq_zero.mpr full] at last ⊢
      rw [last, List.rtake_zero, List.rtake_zero]
    · next room =>
      have size : p.capacity ≤ p.texts.length ↔ p.capacity.toNat ≤ p.texts.length := by omega
      rw [rtake_concat before t (by omega), ← last]
      simp only [size]
  · rw [texts_keep]
    split
    · exact h.nodup
    · have sub :
          (if p.capacity ≤ p.texts.length then p.texts.drop 1 else p.texts).Sublist p.texts := by
        split
        · exact List.drop_sublist 1 _
        · exact List.Sublist.refl _
      rw [← List.concat_eq_append]
      exact (h.nodup.sublist sub).concat fun hm => new (sub.subset hm)

/-- **A request leaves the last texts kept.** -/
theorem serve (r : Request) : (p.serve r).2.Keeps (p.record before r) := by
  cases r with
  | forget => exact ⟨p.genuine_forget, (List.rtake_nil _).symm, List.nodup_nil⟩
  | compile t path =>
    obtain ⟨c, kept, e⟩ | ⟨new, c, read, e⟩ | ⟨new, f, e⟩ := p.compile_cases t path
    · simp only [Press.serve, record, e, kept]
      exact h
    · simp only [Press.serve, record, e, new]
      exact h.keep (find?_eq_none_iff.mp new) read
    · simp only [Press.serve, record, e, new]
      exact h

theorem serveAll (rs : List Request) : (p.serveAll rs).2.Keeps (p.recordAll before rs) := by
  induction rs generalizing p before with
  | nil => exact h
  | cons r rs ih => exact ih (h.serve r)

end Keeps

/-! ### Answers -/

/-- A press without room stays as it is. -/
theorem serve_nothing (d : Dialect) (r : Request) :
    ((⟨d, 0, []⟩ : Press).serve r).2 = ⟨d, 0, []⟩ := by
  cases r with
  | forget => rfl
  | compile t path =>
    have result : ((⟨d, 0, []⟩ : Press).compile t path).2 = ⟨d, 0, []⟩ := by
      obtain ⟨c, -, e⟩ | ⟨-, c, -, e⟩ | ⟨-, f, e⟩ := compile_cases ⟨d, 0, []⟩ t path <;> rw [e]
      rfl
    exact result

/-- A request is answered as if nothing were kept. -/
theorem Genuine.serve (h : p.Genuine) (r : Request) :
    (p.serve r).1 = ((⟨p.dialect, 0, []⟩ : Press).serve r).1 ∧
      (p.serve r).2.Genuine ∧ (p.serve r).2.dialect = p.dialect := by
  have nothing : (⟨p.dialect, 0, []⟩ : Press).Genuine := fun _ he => absurd he List.not_mem_nil
  cases r with
  | forget => exact ⟨rfl, p.genuine_forget, rfl⟩
  | compile t path =>
    obtain ⟨q, answer, genuine, dialect⟩ := h.compile t path
    obtain ⟨_, same, -⟩ := nothing.compile t path
    simp only [Press.serve, deliver, answer, same, true_and]
    exact ⟨genuine, dialect⟩

theorem Genuine.serveAll (h : p.Genuine) (rs : List Request) :
    (p.serveAll rs).1 = ((⟨p.dialect, 0, []⟩ : Press).serveAll rs).1 := by
  induction rs generalizing p with
  | nil => rfl
  | cons r rs ih =>
    obtain ⟨answer, genuine, dialect⟩ := h.serve r
    rw [Press.serveAll, Press.serveAll, answer, serve_nothing, ih genuine, dialect]

/-- **A press answers as if it kept nothing, and keeps the last texts.**  Whatever is asked of a press
that starts empty, every template, every problem and every page of a template is what a press without
room gives.  At every point the texts that are kept are different and are, the oldest first, the last
ones of those compiled since the press last forgot that were not kept already, as many as there is
room for; a text that is kept or that cannot be compiled changes nothing. -/
theorem serveAll_last (d : Dialect) (capacity : Int) (rs : List Request) :
    ((⟨d, capacity, []⟩ : Press).serveAll rs).1 = ((⟨d, 0, []⟩ : Press).serveAll rs).1 ∧
    ∃ p, ((⟨d, capacity, []⟩ : Press).serveAll rs).2 = p ∧ p.texts.Nodup ∧
      p.texts = ((⟨d, capacity, []⟩ : Press).recordAll [] rs).rtake capacity.toNat ∧
      ∀ t path, (t ∈ p.texts ∨ ∃ e, (p.compile t path).1 = .error e) →
        (p.compile t path).2 = p := by
  have genuine : (⟨d, capacity, []⟩ : Press).Genuine := fun _ he => absurd he List.not_mem_nil
  have start : (⟨d, capacity, []⟩ : Press).Keeps [] :=
    ⟨genuine, (List.rtake_nil _).symm, List.nodup_nil⟩
  have kept := start.serveAll rs
  have last := kept.last
  rw [capacity_serveAll] at last
  refine ⟨genuine.serveAll rs, _, rfl, kept.nodup, last, fun t path h => ?_⟩
  obtain ⟨c, -, e⟩ | ⟨new, c, -, e⟩ | ⟨-, f, e⟩ := compile_cases _ t path
  · rw [e]
  · obtain hit | ⟨f, refused⟩ := h
    · exact absurd hit (find?_eq_none_iff.mp new)
    · rw [e] at refused
      cases refused
  · rw [e]

end Press

end Pagewright
