import Pagewright.Proofs.Desk.Run
import Pagewright.Proofs.Lowering.SharedMemo
import Pagewright.Proofs.Template.Press

/-! # Work at two desks

Two desks are related as long as some work cannot tell them apart: it comes to the same at both, and
the desks that it leaves are related again (`Work.CouplesAt`, and `Work.Couples` for work that does
so at all desks).  This composes like the work itself (`CouplesAt.bind`, `CouplesAt.orElse`,
`CouplesAt.within`), so a relation has to be checked for the primitives only (`Asks`, `Coupling`).
With a relation that holds of equal desks only, the same statements say what work preserves
(`Couples.preserves`). -/

namespace Pagewright

/-! ### The nonce is never changed -/

namespace Session

theorem nonce_stash (s : Session) (output : Text) : (s.stash output).2.nonce = s.nonce := by
  unfold stash
  split <;> rfl

theorem nonce_withStack (s : Session) (paths : List Text) (r : Reference) :
    (s.withStack paths r).nonce = s.nonce := by
  cases r <;> rfl

theorem nonce_leave (s : Session) (r : Reference) : (s.leave r).nonce = s.nonce :=
  s.nonce_withStack _ r

end Session

namespace Work

variable {α β : Type} {S : Desk → Desk → Prop}

/-- At a desk and every desk related to it some work comes to the same and leaves related desks. -/
def CouplesAt (S : Desk → Desk → Prop) (w : Work α) (d : Desk) : Prop :=
  ∀ d', S d d' → (w.outcome d').1 = (w.outcome d).1 ∧ S (w.outcome d).2 (w.outcome d').2

/-- Work that cannot tell related desks apart. -/
def Couples (S : Desk → Desk → Prop) (w : Work α) : Prop := ∀ d, CouplesAt S w d

/-- Work that cannot tell a desk from itself preserves what is known of the desk. -/
theorem Couples.preserves {P : Desk → Prop} {w : Work α}
    (h : Couples (fun d d' => d = d' ∧ P d) w) {d : Desk} (hd : P d) : P (w.outcome d).2 :=
  (h d d ⟨rfl, hd⟩).2.2

/-! ### Primitives that only answer -/

theorem Couples.pure (a : α) : Couples S (pure a : Work α) := fun _ _ h => ⟨rfl, h⟩

theorem Couples.problem (p : Problem) : Couples S (problem p : Work α) := fun _ _ h => ⟨rfl, h⟩

/-! ### Composition -/

/-- Work after work: only what the first part comes to has to be gone on from. -/
theorem CouplesAt.bind {w : Work α} {f : α → Work β} {d : Desk} (hw : CouplesAt S w d)
    (hf : ∀ a e, w.outcome d = (.ok a, e) → CouplesAt S (f a) e) : CouplesAt S (w >>= f) d := by
  intro d' h
  obtain ⟨same, related⟩ := hw d' h
  rw [outcome_bind, outcome_bind]
  rcases hd : w.outcome d with ⟨r, e⟩
  rcases hd' : w.outcome d' with ⟨r', e'⟩
  rw [hd, hd'] at same related
  obtain rfl : r' = r := same
  cases r' with
  | ok a => exact hf a e hd e' related
  | error halt => exact ⟨rfl, related⟩

theorem Couples.bind {w : Work α} {f : α → Work β} (hw : Couples S w) (hf : ∀ a, Couples S (f a)) :
    Couples S (w >>= f) := fun d => (hw d).bind fun a e _ => hf a e

/-- Work with an alternative: the alternative is begun at both desks or at neither. -/
theorem CouplesAt.orElse {w : Work α} {handle : Problem → Work α} {d : Desk}
    (hw : CouplesAt S w d) (hh : ∀ p, Couples S (handle p)) : CouplesAt S (w.orElse handle) d := by
  intro d' h
  obtain ⟨same, related⟩ := hw d' h
  rw [outcome_orElse, outcome_orElse]
  rcases hd : w.outcome d with ⟨r, e⟩
  rcases hd' : w.outcome d' with ⟨r', e'⟩
  rw [hd, hd'] at same related
  obtain rfl : r' = r := same
  cases r' with
  | ok a => exact ⟨rfl, related⟩
  | error halt =>
      cases halt with
      | problem p => exact hh p e e' related
      | failure f => exact ⟨rfl, related⟩

theorem Couples.orElse {w : Work α} {handle : Problem → Work α} (hw : Couples S w)
    (hh : ∀ p, Couples S (handle p)) : Couples S (w.orElse handle) := fun d => (hw d).orElse hh

theorem composes_couples : Composes (fun _ => True) fun _ => Couples S where
  pure := Couples.pure
  problem _ := Couples.problem _
  failure _ := fun _ _ h => ⟨rfl, h⟩
  bind := Couples.bind
  orElse hw hh := hw.orElse fun p => hh p trivial

/-! ### Relations that work respects -/

/-- A relation between desks that evaluating expressions and making remarks respect. -/
structure Asks (S : Desk → Desk → Prop) : Prop where
  dialect : ∀ {d d'}, S d d' → d'.press.dialect = d.press.dialect
  remark : ∀ t, Couples S (update fun s => s.remark t)

theorem Asks.evaluate (h : Asks S) (t : Text) (data : List (Value × Value)) (path : Text)
    (b : Bool) : Couples S (evaluate t data path b) := by
  intro d d' hd
  rw [outcome_evaluate, outcome_evaluate, h.dialect hd]
  exact ⟨rfl, hd⟩

theorem Asks.reads (h : Asks S) : Reads (fun _ => True) fun _ => Couples S where
  toComposes := composes_couples
  evaluate := h.evaluate
  remark := h.remark

/-- A relation between desks that all work on a page respects, as long as it rewrites none but the
texts `P`.  Related desks have the same session, and stay related when it is changed in the same way
at both; the nonce of a session is never changed. -/
structure Coupling (ds : Delimiters) (P : Text → Prop) (S : Desk → Desk → Prop) : Prop where
  dialect : ∀ {d d'}, S d d' → d'.press.dialect = d.press.dialect
  session : ∀ {d d'}, S d d' → d'.session = d.session
  change : ∀ {d d'} (f : Session → Session), (∀ s, (f s).nonce = s.nonce) → S d d' →
    S { d with session := f d.session } { d' with session := f d'.session }
  lower : ∀ t, P t → Couples S (lower ds t)
  print : ∀ t data path, Couples S (print t data path)

namespace Coupling

variable {ds : Delimiters} {P : Text → Prop}

theorem update (h : Coupling ds P S) {f : Session → Session} (hf : ∀ s, (f s).nonce = s.nonce) :
    Couples S (update f) := fun _ _ hd => ⟨rfl, h.change f hf hd⟩

theorem asks (h : Coupling ds P S) : Asks S where
  dialect := h.dialect
  remark _ := h.update fun _ => rfl

/-- Both desks have the session that the work goes on with. -/
theorem bind_session (h : Coupling ds P S) {f : Session → Work α} {d : Desk}
    (hf : CouplesAt S (f d.session) d) : CouplesAt S (Work.session >>= f) d := by
  intro d' hd
  rw [outcome_bind_ok (outcome_session d), outcome_bind_ok (outcome_session d'), h.session hd]
  exact hf d' hd

theorem stash (h : Coupling ds P S) (output : Text) : Couples S (stash output) := by
  intro d d' hd
  rw [outcome_stash, outcome_stash, h.session hd]
  have changed := h.change (fun s => (s.stash output).2) (fun s => s.nonce_stash output) hd
  rw [h.session hd] at changed
  exact ⟨rfl, changed⟩

theorem splice (h : Coupling ds P S) (t : Text) : Couples S (splice t) := by
  intro d d' hd
  rw [outcome_splice, outcome_splice, h.session hd]
  exact ⟨rfl, hd⟩

theorem noted (h : Coupling ds P S) (page : Text) (p : Problem) : Couples S (noted page p) :=
  (h.update (f := fun s => s.report (p.metAt page)) fun _ => rfl).bind fun _ => h.stash _

/-- Work on a template is begun at both desks or at neither. -/
theorem within (h : Coupling ds P S) {r : Reference} {path : Text} {work : Int → Work α} {d : Desk}
    (hw : ∀ depth s, d.session.enter? r path = .ok (depth, s) →
      CouplesAt S (work depth) { d with session := s }) : CouplesAt S (within r path work) d := by
  intro d' hd
  have same := h.session hd
  cases he : d.session.enter? r path with
  | error p =>
      have he' : d'.session.enter? r path = .error p := by rw [same, he]
      rw [outcome_within_error he, outcome_within_error he']
      exact ⟨rfl, hd⟩
  | ok entered =>
      obtain ⟨depth, s⟩ := entered
      have he' : d'.session.enter? r path = .ok (depth, s) := by rw [same, he]
      have entering : S { d with session := s } { d' with session := s } := by
        obtain ⟨-, hs⟩ := Session.enter?_ok he
        have entered := h.change (fun s' => s'.withStack (d.session.stack r ++ [path]) r)
          (fun s' => s'.nonce_withStack _ r) hd
        simp only [same, ← hs] at entered
        exact entered
      obtain ⟨result, related⟩ := hw depth s he _ entering
      rw [outcome_within_ok he, outcome_within_ok he']
      exact ⟨result, h.change (fun s' => s'.leave r) (fun s' => s'.nonce_leave r) related⟩

theorem stages (h : Coupling ds P S) : Stages (fun _ => True) fun _ => Couples S where
  toReads := h.asks.reads
  session := by
    intro d d' hd
    rw [outcome_session, outcome_session, h.session hd]
    exact ⟨rfl, hd⟩
  report _ := h.update fun _ => rfl
  stash := h.stash
  splice := h.splice
  print := h.print
  within _ hw := fun d => h.within fun depth s _ => hw depth { d with session := s }

end Coupling

end Work

end Pagewright

/-! ## Desks that work alike

Besides its session a desk has a press and a memo, which other pages have used before.  Both only
keep what can be made again: the press can be trusted whatever it keeps, and the memo with the texts
of which no two have one fingerprint.  Two desks with one session, of which the press and the memo
can be trusted, therefore work alike (`coupling_alike`): what is kept, what had to make room, what
has grown old and what time it is does not show.

Main definitions: `Trusted`, `Alike`. -/

namespace Pagewright

open Lowering

/-- A press for a dialect that keeps only templates of their texts, and a memo that keeps only
rewritten forms as far as some texts are concerned. -/
structure Trusted (dialect : Template.Dialect) (ds : Delimiters) (ts : List Text) (p : Press)
    (m : Memo) : Prop where
  dialect : p.dialect = dialect
  press : p.Genuine
  memo : Recalls ds ts m

/-- Desks with one session, of which the press and the memo can be trusted. -/
structure Alike (dialect : Template.Dialect) (ds : Delimiters) (ts : List Text) (d d' : Desk) :
    Prop where
  session : d'.session = d.session
  left : Trusted dialect ds ts d.press d.memo
  right : Trusted dialect ds ts d'.press d'.memo

variable {dialect : Template.Dialect} {ds : Delimiters} {ts : List Text} {p : Press} {m : Memo}

/-- A text is rewritten as it would be without a memo. -/
theorem Trusted.lower (h : Trusted dialect ds ts p m) (ha : Apart ds ts) (now : Rat) {t : Text}
    (ht : t ∈ ts) :
    ∃ m', transformKept ds now t m = (transform ds t, m') ∧ Trusted dialect ds ts p m' := by
  obtain ⟨m', hm, recalls⟩ := h.memo.transformKept ha now ht
  exact ⟨m', hm, h.dialect, h.press, recalls⟩

/-- A template is printed as it would be by a new press for the dialect. -/
theorem Trusted.print (h : Trusted dialect ds ts p m) (t : Text) (data : List (Value × Value))
    (path : Option Text) :
    ∃ q, p.print t data path = (((Press.mk dialect 0 []).print t data path).1, q) ∧
      Trusted dialect ds ts q m := by
  obtain ⟨q, hq, genuine, kept⟩ := h.press.print t data path
  obtain ⟨r, hr, -, -⟩ := Press.Genuine.print (p := Press.mk dialect 0 []) nofun t data path
  refine ⟨q, ?_, kept.trans h.dialect, genuine, h.memo⟩
  rw [hq, hr, h.dialect]

/-- **Desks that work alike cannot be told apart** by work that rewrites none but the given texts. -/
theorem coupling_alike (ha : Apart ds ts) :
    Work.Coupling ds (· ∈ ts) (Alike dialect ds ts) where
  dialect h := h.right.dialect.trans h.left.dialect.symm
  session h := h.session
  change f _ h := ⟨congrArg f h.session, h.left, h.right⟩
  lower := by
    intro t ht d d' h
    obtain ⟨m, hm, left⟩ := h.left.lower ha d.now ht
    obtain ⟨m', hm', right⟩ := h.right.lower ha d'.now ht
    rw [Work.outcome_lower, Work.outcome_lower, hm, hm']
    exact ⟨rfl, h.session, left, right⟩
  print := by
    intro t data path d d' h
    obtain ⟨q, hq, left⟩ := h.left.print t data (some path)
    obtain ⟨q', hq', right⟩ := h.right.print t data (some path)
    rw [Work.outcome_print, Work.outcome_print, hq, hq']
    exact ⟨rfl, h.session, left, right⟩

end Pagewright
