import Pagewright.Assembly.Inclusion
import Pagewright.Proofs.Desk.Coupled
import Pagewright.Proofs.Desk.Report

/-! # What a tag asks for

Up to the point at which its partial is entered, a tag is only read: expressions are evaluated and
remarks are made, and nothing but mishaps can stop it (`Mishaps`).  So the reading of a tag has
every property that such work has (`reads_partialFor`).  It cannot tell two desks apart at which
expressions mean the same (`couples_partialFor`), and it reports nothing (`quiet_partialFor`).

Main definition: `Mishaps`. -/

namespace Pagewright

open Text

/-- The kind covers every problem that does not come from a stack: an expression that cannot be
evaluated, a directive that cannot be understood, a template that is missing or out of reach. -/
structure Mishaps (P : Problem → Prop) : Prop where
  expression : ∀ wording path phase, P (.expression wording path phase)
  malformed : ∀ wording path hints, P (.malformed wording path hints)
  other : ∀ wording path hints, P (.other wording path hints)
  outside : ∀ path root scope, P (.outside path root scope)
  absent : ∀ path scope near, P (.absent path scope near)

namespace Mishaps

variable {P : Problem → Prop}

theorem all : Mishaps fun _ => True where
  expression _ _ _ := trivial
  malformed _ _ _ := trivial
  other _ _ _ := trivial
  outside _ _ _ := trivial
  absent _ _ _ := trivial

/-- The page at which a problem is met does not change its kind. -/
theorem metAt (h : Mishaps P) {p : Problem} (hp : P p) (page : Text) : P (p.metAt page) := by
  cases p with
  | expression => exact h.expression _ _ _
  | malformed => exact h.malformed _ _ _
  | other => exact h.other _ _ _
  | cycle | tooDeep | outside | absent => exact hp

/-! ### Libraries -/

theorem locate (h : Mishaps P) {l : Library} {scope reference : Text} {p : Problem}
    (hp : l.locate scope reference = .error (.problem p)) : P p := by
  cases l with
  | shelf s =>
      change (Shelf.locate scope reference).mapError Halt.problem = _ at hp
      unfold Shelf.locate at hp
      dsimp only at hp
      split at hp
      · cases hp
        exact h.outside _ _ _
      · cases hp
  | folder f =>
      change f.locate scope reference = _ at hp
      unfold Folder.locate at hp
      dsimp only at hp
      split at hp
      · cases hp
      · split at hp
        · cases hp
          exact h.outside _ _ _
        · cases hp
        · cases hp

theorem read (h : Mishaps P) {l : Library} {path scope : Text} {p : Problem}
    (hp : l.read path scope = .error p) : P p := by
  unfold Library.read at hp
  split at hp
  · cases hp
  · cases hp
    exact h.absent _ _ _

end Mishaps

namespace Assembly

open Session Work

section

variable {P : Problem → Prop} (mishaps : Mishaps P)

include mishaps

theorem firstHeld?_problem {l : Library} {p : Problem} {cs : List Text}
    (hp : firstHeld? l cs = .error (.problem p)) : P p := by
  induction cs with
  | nil => cases hp
  | cons c cs ih =>
      unfold firstHeld? at hp
      cases hc : l.locate "include" c with
      | error e =>
          rw [hc] at hp
          cases hp
          exact mishaps.locate hc
      | ok path =>
          rw [hc] at hp
          by_cases held : l.holds path = true
          · have found : (.ok (some path) : Except Halt (Option Text)) = .error (.problem p) :=
              (if_pos held).symm.trans hp
            cases found
          · exact ih ((if_neg held).symm.trans hp)

theorem locate_problem {l : Library} {src : Text} {others : List Text} {optional : Bool}
    {p : Problem} (hp : locate l src others optional = .error (.problem p)) : P p := by
  unfold locate at hp
  cases hf : firstHeld? l (src :: others) with
  | error e =>
      rw [hf] at hp
      cases hp
      exact firstHeld?_problem mishaps hf
  | ok found =>
      rw [hf] at hp
      cases found with
      | some path => cases hp
      | none =>
          cases optional with
          | true => cases hp
          | false =>
              change (l.locate "include" src >>= fun missing => _) = _ at hp
              cases hl : l.locate "include" src with
              | error e =>
                  rw [hl] at hp
                  cases hp
                  exact mishaps.locate hl
              | ok missing =>
                  rw [hl] at hp
                  cases hp
                  exact mishaps.absent _ _ _

variable {Q : (α : Type) → Work α → Prop} (h : Reads P Q)

include h

omit mishaps in
theorem reads_holdsFor (data : List (Value × Value)) (page : Text) (wanted : Bool) :
    ∀ e : Option Text, Q _ (holdsFor data page wanted e)
  | none => h.pure true
  | some e => h.bind (h.evaluate e data page true) fun _ => h.pure _

omit mishaps in
theorem reads_attributeValue (site : Site) (data : List (Value × Value)) (page : Text)
    (a : Text × Text) : Q _ (attributeValue site data page a) := by
  unfold attributeValue
  split
  · exact h.pure _
  · refine h.bind ?_ fun v => h.pure _
    exact h.orElse (h.evaluate _ _ _ _) fun p _ => h.bind (h.remark _) fun _ => h.pure _

omit mishaps in
theorem reads_localsFor (site : Site) (data : List (Value × Value)) (page target : Text)
    (own : List (Text × Text)) (extra : Option Text) :
    Q _ (localsFor site data page target own extra) := by
  unfold localsFor
  refine h.bind (h.mapM (reads_attributeValue h site data page) own) fun locals => ?_
  split
  · unfold withExtra
    refine h.bind (h.evaluate _ _ _ _) fun v => ?_
    split
    · exact h.pure _
    · exact h.pure _
    · exact h.bind (h.remark _) fun _ => h.pure _
  · exact h.pure _

/-- **What a tag asks for** is only read. -/
theorem reads_partialFor (site : Site) (data : List (Value × Value)) (page : Text)
    (tag : IncludeTag) : Q _ (partialFor site data page tag) := by
  unfold partialFor
  extract_lets attributes src reserved own others found
  have reads_found : ∀ u, Q _ (found u) := by
    intro u
    refine h.bind (reads_holdsFor h data page true _) fun whenHolds => ?_
    split
    · exact h.pure none
    refine h.bind (reads_holdsFor h data page false _) fun unlessHolds => ?_
    split
    · exact h.pure none
    refine h.bind (h.ofExcept fun p hp => locate_problem mishaps hp) fun target? => ?_
    split
    · refine h.bind (reads_localsFor h site data page _ own _) fun locals => ?_
      exact h.bind (h.ofProblem fun p hp => mishaps.read hp) fun text => h.pure _
    · exact h.pure none
  split
  · exact h.bind (h.problem (mishaps.malformed _ _ _)) reads_found
  · exact reads_found ()

end

/-- **What a tag asks for** is the same at related desks. -/
theorem couples_partialFor {S : Desk → Desk → Prop} (h : Asks S) (site : Site)
    (data : List (Value × Value)) (page : Text) (tag : IncludeTag) :
    Couples S (partialFor site data page tag) :=
  reads_partialFor Mishaps.all h.reads site data page tag

/-- A desk of which the session has only been remarked upon. -/
theorem asks_grown (s : Session) : Asks fun d d' => d = d' ∧ Grown [] s d.session where
  dialect := by
    rintro d d' ⟨rfl, -⟩
    rfl
  remark t := by
    rintro d d' ⟨rfl, grown⟩
    exact ⟨rfl, rfl, grown.trans (Grown.remark d.session t)⟩

/-- Up to the point at which the partial is entered, a tag reports nothing. -/
theorem quiet_partialFor (site : Site) (data : List (Value × Value)) (page : Text)
    (tag : IncludeTag) : (partialFor site data page tag).Quiet := fun d =>
  (couples_partialFor (asks_grown d.session) site data page tag).preserves (Grown.refl d.session)

end Assembly

end Pagewright

/-! ## The texts that are rewritten

Of all work on a page only the rewriting of texts looks into the memo.  `rewritten` records which
texts are rewritten while a text is resolved: the text itself, and those of the partials that its
tags enter, at whatever depth.  Desks that are alike in what counts for these texts cannot be told
apart by resolving the text (`couplesAt_resolve`).

Main definitions: `levelTexts`, `textsWithin`, `rewritten`, `Respects`. -/

namespace Pagewright.Assembly

open Work

section record

variable (site : Site) (next : Text → List (Value × Value) → Text → Work Text)
  (inside : Text → List (Value × Value) → Text → Desk → List Text)
  (data : List (Value × Value)) (page : Text)

/-- The texts that are rewritten for a tag; `inside` tells them for the partial that it enters. -/
def tagTexts (tag : IncludeTag) (d : Desk) : List Text :=
  match (partialFor site data page tag).outcome d with
  | (.ok (some p), d') => inside p.text p.data p.path d'
  | _ => []

/-- The texts that are rewritten for some tags, one after the other. -/
def tagsTexts : List IncludeTag → Desk → List Text
  | [], _ => []
  | tag :: tags, d =>
    tagTexts site inside data page tag d ++
      match (expandTag site next data page tag).outcome d with
      | (.ok _, d') => tagsTexts tags d'
      | (.error _, _) => []

/-- The texts that are rewritten for a text. -/
def levelTexts (t : Text) (data : List (Value × Value)) (page : Text) (d : Desk) : List Text :=
  match d.session.enter? .inclusion page with
  | .error _ => []
  | .ok (_, s) =>
    t :: match (Work.lower site.delimiters t).outcome { d with session := s } with
      | (.ok lowered, d') => tagsTexts site next inside data page (includeTags lowered) d'
      | (.error _, _) => []

end record

/-- The texts that are rewritten for a text below which at most `room` partials can be entered. -/
def textsWithin (site : Site) : Nat → Text → List (Value × Value) → Text → Desk → List Text
  | 0 => levelTexts site (fun t _ _ => pure t) fun _ _ _ _ => []
  | room + 1 => levelTexts site (resolveWithin site room) (textsWithin site room)

/-- The texts that are rewritten when a text is resolved at a desk. -/
def rewritten (site : Site) (t : Text) (data : List (Value × Value)) (page : Text) (d : Desk) :
    List Text :=
  textsWithin site (d.session.maxDepth + 1 - d.session.includeStack.length).toNat t data page d

/-! ### One tag, one text -/

section level

variable {site : Site} {P : Text → Prop} {S : Desk → Desk → Prop}
  {next : Text → List (Value × Value) → Text → Work Text}
  {inside : Text → List (Value × Value) → Text → Desk → List Text}

/-- Work that cannot tell related desks apart while it rewrites none but the texts `P`; `inside`
tells which texts it rewrites. -/
def Respects (P : Text → Prop) (S : Desk → Desk → Prop)
    (next : Text → List (Value × Value) → Text → Work Text)
    (inside : Text → List (Value × Value) → Text → Desk → List Text) : Prop :=
  ∀ t data page d, (∀ u ∈ inside t data page d, P u) → CouplesAt S (next t data page) d

variable (h : Coupling site.delimiters P S) (hn : Respects P S next inside)
  (data : List (Value × Value)) (page : Text)

include h hn

theorem couplesAt_renderTag (tag : IncludeTag) (d : Desk)
    (hp : ∀ u ∈ tagTexts site inside data page tag d, P u) :
    CouplesAt S (renderTag site next data page tag) d := by
  unfold renderTag
  refine (couples_partialFor h.asks site data page tag d).bind fun asked d' ha => ?_
  cases asked with
  | none => exact Couples.pure [] d'
  | some p =>
      unfold tagTexts at hp
      rw [ha] at hp
      refine (hn p.text p.data p.path d' hp).bind fun resolved e _ => ?_
      have finish : Couples S (do
          let printed ← Work.print resolved p.data p.path
          let spliced ← Work.splice printed
          Work.stash spliced : Work Text) :=
        (h.print _ _ _).bind fun printed => (h.splice printed).bind fun spliced => h.stash spliced
      exact finish e

theorem couplesAt_expandTag (tag : IncludeTag) (d : Desk)
    (hp : ∀ u ∈ tagTexts site inside data page tag d, P u) :
    CouplesAt S (expandTag site next data page tag) d :=
  (couplesAt_renderTag h hn data page tag d hp).orElse fun p => h.noted page p

theorem couplesAt_expandTags : ∀ (tags : List IncludeTag) (d : Desk),
    (∀ u ∈ tagsTexts site next inside data page tags d, P u) →
    CouplesAt S (tags.mapM (expandTag site next data page)) d
  | [], d, _ => Couples.pure [] d
  | tag :: tags, d, hp => by
      rw [tagsTexts, List.forall_mem_append] at hp
      obtain ⟨first, others⟩ := hp
      rw [List.mapM_cons]
      refine (couplesAt_expandTag h hn data page tag d first).bind fun output d' ho => ?_
      rw [ho] at others
      refine (couplesAt_expandTags tags d' others).bind fun outputs e _ => ?_
      exact Couples.pure (output :: outputs) e

/-- **One level**: the text is rewritten, its tags are expanded, and the outputs of the entry page
are kept. -/
theorem respects_resolveTags : Respects P S (resolveTags site next) (levelTexts site next inside) := by
  intro t data page d hp
  unfold resolveTags
  refine h.within fun depth s he => ?_
  unfold levelTexts at hp
  rw [he] at hp
  obtain ⟨own, inner⟩ := List.forall_mem_cons.mp hp
  refine (h.lower t own _).bind fun lowered d' hl => ?_
  rw [hl] at inner
  refine (couplesAt_expandTags h hn data page (includeTags lowered) d' inner).bind
    fun outputs e _ => ?_
  have finish : Couples S (do
      if depth = 0 then Work.update fun s => { s with entryOutputs := outputs }
      return replaceTags lowered outputs : Work Text) := by
    split
    · exact (h.update (f := fun s => { s with entryOutputs := outputs }) fun _ => rfl).bind
        fun _ => Couples.pure _
    · exact Couples.pure _
  exact finish e

end level

/-! ### All levels -/

section

variable {site : Site} {P : Text → Prop} {S : Desk → Desk → Prop}
  (h : Coupling site.delimiters P S)

include h

theorem respects_resolveWithin : ∀ room : Nat,
    Respects P S (resolveWithin site room) (textsWithin site room)
  | 0 => respects_resolveTags h fun t _ _ d _ => Couples.pure t d
  | room + 1 => respects_resolveTags h (respects_resolveWithin room)

/-- **Resolving a text cannot tell desks apart** that are related as far as the texts that it
rewrites are concerned. -/
theorem couplesAt_resolve (t : Text) (data : List (Value × Value)) (page : Text) (d : Desk)
    (hp : ∀ u ∈ rewritten site t data page d, P u) :
    CouplesAt S (resolve site t data page) d :=
  h.bind_session (respects_resolveWithin h _ t data page d hp)

end

end Pagewright.Assembly
