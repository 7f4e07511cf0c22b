import Mathlib.Data.List.Forall2
import Pagewright.Proofs.Assembly.Asking
import Pagewright.Proofs.Assembly.Expansion
import Pagewright.Proofs.Assembly.Stretch
import Pagewright.Proofs.Desk.Stash

/-! # Finished output stays sealed

The text that resolving gives to the engine consists of the stretches of the rewritten text between
its tags and, in the place of every tag, of nothing or of one token (`resolve_sealed`).  What a tag
comes to (`tagOutput`) is never part of it: its token stands for it until the text is spliced.  So
two runs on one text differ in which tags are empty and in the numbers of the tokens only.

Main definitions: `Session.mark`, `Session.Seals`, `tagOutput`, `levelOutputs`. -/

namespace Pagewright

open Text

/-! ### Marks -/

namespace Session

/-- What stands in a text for the output with a number, or for no output. -/
def mark (s : Session) : Option Nat → Text
  | none => []
  | some n => s.token n

/-- Under a number there is some output that is not empty; no number stands for no output. -/
inductive Seals (s : Session) : Option Nat → Text → Prop where
  | nothing : Seals s none []
  | stored {n : Nat} {output : Text} : output ≠ [] → s.outputs[n]? = some output →
      Seals s (some n) output

variable {s s' : Session} {number : Option Nat} {output : Text}

theorem mark_congr (h : s'.nonce = s.nonce) : s'.mark = s.mark := by
  funext number
  cases number with
  | none => rfl
  | some n => exact token_congr h n

theorem Seals.mark_eq_nil_iff (h : Seals s number output) : s.mark number = [] ↔ output = [] := by
  cases h with
  | nothing => exact iff_of_true rfl rfl
  | @stored n _ full _ => exact iff_of_false (s.token_ne_nil n) full

theorem Seals.stands (h : Seals s number output) : Stands s (s.mark number) output := by
  cases h with
  | nothing => exact Or.inl ⟨rfl, rfl⟩
  | @stored n _ _ kept => exact Or.inr ⟨n, rfl, kept⟩

/-- A mark alone becomes the output that it stands for. -/
theorem Seals.splice (h : Seals s number output) : s.splice (s.mark number) = .ok output := by
  have spliced := splice_stands (t := []) List.not_mem_nil h.stands
  rwa [List.nil_append, List.nil_append] at spliced

/-- Further output changes nothing about what is sealed. -/
theorem Seals.mono (h : Seals s number output) (ho : s.outputs <+: s'.outputs) :
    Seals s' number output := by
  cases h with
  | nothing => exact .nothing
  | @stored n _ full kept =>
      obtain ⟨more, e⟩ := ho
      obtain ⟨inside, -⟩ := List.getElem?_eq_some_iff.mp kept
      exact .stored full (by rw [← e, List.getElem?_append_left inside, kept])

/-- Output that is set aside is sealed, and its mark is what `stash` answers. -/
theorem seals_stash (s : Session) (output : Text) :
    ∃ number, (s.stash output).1 = s.mark number ∧ Seals (s.stash output).2 number output := by
  unfold stash
  split
  · next h =>
    obtain rfl := List.isEmpty_iff.mp h
    exact ⟨none, rfl, .nothing⟩
  · next h =>
    refine ⟨some s.outputs.length, rfl, .stored (fun e => h (List.isEmpty_iff.mpr e)) ?_⟩
    simp

end Session

namespace Assembly

open Session Work

/-! ### What a tag comes to -/

section

variable (site : Site) (next : Text → List (Value × Value) → Text → Work Text)
  (data : List (Value × Value)) (page : Text)

/-- The printed partial of a tag with all output in its place; nothing if the tag is passed over. -/
def printTag (tag : IncludeTag) : Work Text := do
  let some p ← partialFor site data page tag | return []
  let resolved ← next p.text p.data p.path
  Work.splice (← Work.print resolved p.data p.path)

/-- The complete output of a tag, or the comment in its place if it fails. -/
def tagOutput (tag : IncludeTag) : Work Text :=
  (printTag site next data page tag).orElse fun p => do
    Work.update fun s => s.report (p.metAt page)
    return (p.metAt page).placeholder

/-- A tag is rendered by setting its printed partial aside. -/
theorem outcome_renderTag (tag : IncludeTag) (d : Desk) :
    (renderTag site next data page tag).outcome d =
      (printTag site next data page tag >>= Work.stash).outcome d := by
  unfold renderTag printTag
  rw [bind_assoc, outcome_bind, outcome_bind]
  match (partialFor site data page tag).outcome d with
  | (.error e, d') => rfl
  | (.ok none, d') => rfl
  | (.ok (some p), d') =>
      dsimp only
      rw [bind_assoc]
      simp only [bind_assoc]

/-- **A tag is expanded by setting its output aside.** -/
theorem outcome_expandTag (tag : IncludeTag) (d : Desk) :
    (expandTag site next data page tag).outcome d =
      (tagOutput site next data page tag >>= Work.stash).outcome d := by
  unfold expandTag tagOutput
  rw [outcome_orElse, outcome_renderTag, outcome_bind, outcome_bind, outcome_orElse]
  match (printTag site next data page tag).outcome d with
  | (.ok output, d') => rfl
  | (.error (.problem p), d') => rfl
  | (.error (.failure f), d') => rfl

/-- What some tags come to, one after the other. -/
def tagOutputs : List IncludeTag → Desk → List Text
  | [], _ => []
  | tag :: tags, d =>
    match (tagOutput site next data page tag).outcome d with
    | (.ok output, d') =>
      output :: tagOutputs tags { d' with session := (d'.session.stash output).2 }
    | (.error _, _) => []

end

/-- What the tags of a text come to when the text is resolved at a desk. -/
def levelOutputs (site : Site) (t : Text) (data : List (Value × Value)) (page : Text) (d : Desk) :
    List Text :=
  match d.session.enter? .inclusion page with
  | .error _ => []
  | .ok (_, s) =>
    match (Work.lower site.delimiters t).outcome { d with session := s } with
    | (.ok lowered, d') => tagOutputs site (resolve site) data page (includeTags lowered) d'
    | (.error _, _) => []

/-! ### What resolving keeps -/

/-- Work on a page keeps the nonce. -/
theorem coupling_nonce (ds : Delimiters) (nonce : Text) :
    Coupling ds (fun _ => True) fun d d' => d = d' ∧ d.session.nonce = nonce where
  dialect := by
    rintro d d' ⟨rfl, -⟩
    rfl
  session := by
    rintro d d' ⟨rfl, -⟩
    rfl
  change := by
    rintro d d' f hf ⟨rfl, hn⟩
    exact ⟨rfl, (hf d.session).trans hn⟩
  lower := by
    rintro t - d d' ⟨rfl, hn⟩
    rw [outcome_lower]
    exact ⟨rfl, rfl, hn⟩
  print := by
    rintro t data path d d' ⟨rfl, hn⟩
    rw [outcome_print]
    exact ⟨rfl, rfl, hn⟩

section

variable (site : Site) (data : List (Value × Value)) (page : Text)

theorem nonce_expandTags (tags : List IncludeTag) (d : Desk) :
    ((tags.mapM (expandTag site (resolve site) data page)).outcome d).2.session.nonce =
      d.session.nonce := by
  have keeps := coupling_nonce site.delimiters d.session.nonce
  have inside : Respects (fun _ => True) _ (resolve site) (rewritten site) := couplesAt_resolve keeps
  have same := couplesAt_expandTags keeps inside data page tags d (fun _ _ => trivial) d ⟨rfl, rfl⟩
  exact same.2.2

/-- **Tags are expanded to marks of what they come to.**  The mark of an earlier tag still stands for
its output after the later tags, however much these set aside. -/
theorem expandTags_sealed : ∀ (tags : List IncludeTag) (d d' : Desk) (tokens : List Text),
    (tags.mapM (expandTag site (resolve site) data page)).outcome d = (.ok tokens, d') →
    ∃ numbers : List (Option Nat), numbers.length = tags.length ∧
      tokens = numbers.map d'.session.mark ∧
      List.Forall₂ (Seals d'.session) numbers (tagOutputs site (resolve site) data page tags d)
  | [], d, d', tokens, h => by
      obtain rfl : [] = tokens := Except.ok.inj (Prod.mk.inj h).1
      exact ⟨[], rfl, rfl, .nil⟩
  | tag :: tags, d, d', tokens, h => by
      have expanded := outcome_expandTag site (resolve site) data page tag d
      rw [List.mapM_cons] at h
      rw [tagOutputs]
      match ht : (tagOutput site (resolve site) data page tag).outcome d with
      | (.error e, d₁) =>
          rw [outcome_bind_error ht] at expanded
          rw [outcome_bind_error expanded] at h
          cases h
      | (.ok output, d₁) =>
          let d₂ : Desk := { d₁ with session := (d₁.session.stash output).2 }
          rw [outcome_bind_ok ht, outcome_stash] at expanded
          rw [outcome_bind_ok expanded, outcome_bind] at h
          -- Later tags only add output and keep the nonce, so the mark of this tag goes on standing.
          have grown := (expandTags_grown site (faithful_resolve site) data page tags d₂).1
          have nonce := nonce_expandTags site data page tags d₂
          match hr : (tags.mapM (expandTag site (resolve site) data page)).outcome d₂ with
          | (.error e, d₃) =>
              rw [hr] at h
              cases h
          | (.ok others, d₃) =>
              rw [hr] at h grown nonce
              obtain ⟨rfl, rfl⟩ : (d₁.session.stash output).1 :: others = tokens ∧ d₃ = d' := by
                obtain ⟨ho, hd⟩ := Prod.mk.inj h
                exact ⟨Except.ok.inj ho, hd⟩
              obtain ⟨number, token, seals⟩ := seals_stash d₁.session output
              obtain ⟨numbers, length, rfl, rest⟩ := expandTags_sealed tags d₂ d₃ others hr
              refine ⟨number :: numbers, congrArg (· + 1) length, ?_,
                .cons (seals.mono grown.outputs) rest⟩
              have marks := mark_congr (nonce.trans (nonce_stash d₁.session output))
              rw [List.map_cons, token, marks]

end

/-! ### One text -/

variable {site : Site} {t : Text} {data : List (Value × Value)} {page : Text} {d d' : Desk}
  {result : Text}

/-- A text that comes to something has been entered and rewritten, its tags have been expanded in
order and replaced, and nothing has been set aside behind that.  At the entry page it is recorded
what the tags were expanded to. -/
theorem resolveTags_ok {next : Text → List (Value × Value) → Text → Work Text}
    (h : (resolveTags site next t data page).outcome d = (.ok result, d')) :
    ∃ depth s lowered d₁ tokens d₂, d.session.enter? .inclusion page = .ok (depth, s) ∧
      (lower site.delimiters t).outcome { d with session := s } = (.ok lowered, d₁) ∧
      ((includeTags lowered).mapM (expandTag site next data page)).outcome d₁ = (.ok tokens, d₂) ∧
      result = replaceTags lowered tokens ∧ d'.session.outputs = d₂.session.outputs ∧
      d'.session.nonce = d₂.session.nonce ∧ (depth = 0 → d'.session.entryOutputs = tokens) := by
  unfold resolveTags at h
  cases he : d.session.enter? .inclusion page with
  | error p =>
      rw [outcome_within_error he] at h
      cases h
  | ok entered =>
      obtain ⟨depth, s⟩ := entered
      rw [outcome_within_ok he, outcome_bind] at h
      match hl : (lower site.delimiters t).outcome { d with session := s } with
      | (.error e, d₁) =>
          rw [hl] at h
          cases h
      | (.ok lowered, d₁) =>
          rw [hl] at h
          dsimp only at h
          rw [outcome_bind] at h
          match ht : ((includeTags lowered).mapM (expandTag site next data page)).outcome d₁ with
          | (.error e, d₂) =>
              rw [ht] at h
              cases h
          | (.ok tokens, d₂) =>
              rw [ht] at h
              refine ⟨depth, s, lowered, d₁, tokens, d₂, rfl, hl, ht, ?_⟩
              by_cases hd : depth = 0
              · simp only [if_pos hd] at h
                obtain ⟨hr, rfl⟩ := Prod.mk.inj h
                exact ⟨(Except.ok.inj hr).symm, rfl, rfl, fun _ => rfl⟩
              · simp only [if_neg hd] at h
                obtain ⟨hr, rfl⟩ := Prod.mk.inj h
                exact ⟨(Except.ok.inj hr).symm, rfl, rfl, fun entry => absurd entry hd⟩

/-- A text that is resolved is the rewritten text with marks in the place of its tags. -/
theorem resolve_woven (h : (resolve site t data page).outcome d = (.ok result, d')) :
    ∃ lowered, (Lowering.transformKept site.delimiters d.now t d.memo).1 = .ok lowered ∧
      ∃ numbers : List (Option Nat), numbers.length = (includeTags lowered).length ∧
        result = weave (stretches lowered) (numbers.map d'.session.mark) ∧
        List.Forall₂ (Seals d'.session) numbers (levelOutputs site t data page d) ∧
        d'.session.nonce = d.session.nonce := by
  rw [resolve_eq_resolveTags] at h
  obtain ⟨depth, s, lowered, d₁, tokens, d₂, he, hl, ht, rfl, outputs, nonce, -⟩ :=
    resolveTags_ok h
  obtain ⟨numbers, length, rfl, seals⟩ := expandTags_sealed site data page _ d₁ d₂ tokens ht
  have sealed : List.Forall₂ (Seals d'.session) numbers (levelOutputs site t data page d) := by
    unfold levelOutputs
    rw [he]
    dsimp only
    rw [hl]
    exact seals.imp fun _ _ sealing => sealing.mono (outputs ▸ List.prefix_rfl)
  have entered : s.nonce = d.session.nonce := by
    rw [(enter?_ok he).2, nonce_withStack]
  obtain ⟨lowering, same⟩ := outcome_lower_ok hl
  have kept := nonce_expandTags site data page (includeTags lowered) d₁
  rw [ht, same] at kept
  refine ⟨lowered, lowering, numbers, length, ?_, sealed, nonce.trans (kept.trans entered)⟩
  rw [mark_congr nonce]
  exact replaceTags_eq_weave (by rw [List.length_map, length])

/-- **Finished output is sealed.**  A text that is resolved is the rewritten text with each tag
replaced by nothing or by one token.  The token of a tag alone becomes the complete output of the
tag, and there is no token exactly if the output is empty.  Any other run on the same text with the
same nonce, whatever its partials, their data and their output, gives the same text but for which
tags are empty and for the numbers of the tokens. -/
theorem resolve_sealed (h : (resolve site t data page).outcome d = (.ok result, d')) :
    ∃ lowered, (Lowering.transformKept site.delimiters d.now t d.memo).1 = .ok lowered ∧
      (stretches lowered).length = (includeTags lowered).length + 1 ∧
      weave (stretches lowered) ((includeTags lowered).map (·.source lowered)) = lowered ∧
      (∃ numbers : List (Option Nat), numbers.length = (includeTags lowered).length ∧
        result = weave (stretches lowered) (numbers.map d'.session.mark) ∧
        List.Forall₂ (fun number output => (∀ n ∈ number, d'.session.outputs[n]? = some output) ∧
            d'.session.splice (d'.session.mark number) = .ok output ∧
            (d'.session.mark number = [] ↔ output = []))
          numbers (levelOutputs site t data page d)) ∧
      ∀ (other : Site) (data₂ : List (Value × Value)) (page₂ : Text) (d₂ d₂' : Desk)
        (result₂ : Text), d₂.session.nonce = d.session.nonce →
        (Lowering.transformKept other.delimiters d₂.now t d₂.memo).1 = .ok lowered →
        (resolve other t data₂ page₂).outcome d₂ = (.ok result₂, d₂') →
        ∃ numbers : List (Option Nat), numbers.length = (includeTags lowered).length ∧
          result₂ = weave (stretches lowered) (numbers.map d'.session.mark) := by
  obtain ⟨lowered, lowering, numbers, length, woven, seals, nonce⟩ := resolve_woven h
  refine ⟨lowered, lowering, length_stretches lowered, weave_sources lowered,
    ⟨numbers, length, woven, ?_⟩, ?_⟩
  · refine seals.imp fun number output sealing =>
      ⟨fun n hn => ?_, sealing.splice, sealing.mark_eq_nil_iff⟩
    obtain rfl := Option.mem_def.mp hn
    cases sealing with
    | stored _ kept => exact kept
  · intro other data₂ page₂ d₂ d₂' result₂ same again h₂
    obtain ⟨lowered₂, lowering₂, numbers₂, length₂, woven₂, -, nonce₂⟩ := resolve_woven h₂
    obtain rfl : lowered = lowered₂ := Except.ok.inj (again.symm.trans lowering₂)
    have marks := mark_congr (nonce₂.trans (same.trans nonce.symm))
    exact ⟨numbers₂, length₂, by rw [woven₂, marks]⟩

/-- A letter with two tags. -/
def letter : Text := "Dear <include src='name' />,<include src='news' />"

/-- A library in which the second partial of the letter is missing. -/
def greeted : Site := { library := .shelf ⟨[("name", "you")]⟩ }

/-- A library in which the first partial of the letter is empty and the second one has a tag. -/
def informed : Site := {
  library := .shelf ⟨[("name", ""), ("news", "two <include src='name' />")]⟩ }

theorem resolve_sealed_letter :
    ((resolve greeted letter [] "page").outcome {}).1.toOption =
      some "Dear \x00hk:out:0123456789abcdef:0\x00,\x00hk:out:0123456789abcdef:1\x00" ∧
    ((resolve informed letter [] "page").outcome {}).1.toOption =
      some "Dear ,\x00hk:out:0123456789abcdef:0\x00" ∧
    ∃ numbers : List (Option Nat), numbers.length = 2 ∧
      ("Dear ,\x00hk:out:0123456789abcdef:0\x00" : Text) = weave ["Dear ", ",", ""]
        (numbers.map ((resolve greeted letter [] "page").outcome {}).2.session.mark) := by
  have first : ((resolve greeted letter [] "page").outcome {}).1.toOption =
      some "Dear \x00hk:out:0123456789abcdef:0\x00,\x00hk:out:0123456789abcdef:1\x00" := by
    decide +kernel
  have second : ((resolve informed letter [] "page").outcome {}).1.toOption =
      some "Dear ,\x00hk:out:0123456789abcdef:0\x00" := by
    decide +kernel
  have plain : Lowering.mayHoldDirectives letter = false := by decide +kernel
  have cut : stretches letter = ["Dear ", ",", ""] ∧ (includeTags letter).length = 2 := by
    decide +kernel
  have lowering : ∀ ds, (Lowering.transformKept ds 0 letter {}).1 = .ok letter := by
    intro ds
    rw [Lowering.transformKept, plain]
    rfl
  obtain ⟨lowered, e, -, -, -, others⟩ := resolve_sealed (outcome_of_toOption first)
  obtain rfl : letter = lowered := Except.ok.inj ((lowering _).symm.trans e)
  obtain ⟨numbers, length, woven⟩ :=
    others informed [] "page" {} _ _ rfl (lowering _) (outcome_of_toOption second)
  rw [cut.1] at woven
  exact ⟨first, second, numbers, length.trans cut.2, woven⟩

end Assembly

end Pagewright
