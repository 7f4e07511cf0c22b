import Mathlib.Control.Monad.Basic
import Pagewright.Proofs.Desk.Run
import Pagewright.Proofs.Text.Letters
import Pagewright.Proofs.Text.Scan
import Pagewright.Session

/-! # What was set aside comes back

Finished output that was set aside is put back exactly where its token stands.  A text that ends in
a token and has no null character in front of it therefore becomes the text followed by the output
(`splice_stands`), and nothing of it is read again.

A text is put together from pieces of its own and from tokens that were answered when output was set
aside.  Splicing it gives the same pieces with the outputs in the place of their tokens, and an
output is not looked through (`splice_stashed`).  It is not enough that no single piece holds the
nonce: pieces that stand side by side can spell it (`splice_torn`).  Where no piece holds a null
character and whatever is set aside was spliced before, no output and no spliced text holds a token.

Main definitions: `Session.Stands`, `Scrap`, `assembled`, `Session.stashAll`, `Session.Clear`, `Deed`,
`Bench` (what a run of deeds has at hand), `results`. -/

namespace Pagewright

open Text

namespace Session

/-! ### Tokens -/

theorem token?_leads (s : Session) : Leads '\x00' s.token? := by
  intro c r hc
  have hd : dropLead? s.tokenLead (c :: r) = none := dropLead?_cons_of_ne _ r hc.symm
  unfold token?
  rw [hd]
  rfl

/-- A token is recognised by its number, whatever follows it. -/
theorem token?_token (s : Session) (n : Nat) (r : Text) :
    s.token? (s.token n ++ r) = some (n, (s.token n).length) := by
  have hlead : dropLead? s.tokenLead (s.token n ++ r) = some (ofNat n ++ '\x00' :: r) := by
    rw [token, List.append_assoc, List.append_assoc]
    exact dropLead?_append _ _
  have hend : dropLead? ['\x00'] ('\x00' :: r) = some r := dropLead?_append ['\x00'] r
  unfold token?
  rw [hlead]
  simp only [Option.bind_eq_bind, Option.bind_some, takeWhile_ofNat, natOfDigits?_ofNat,
    List.drop_left, hend, List.length_append, Nat.add_sub_cancel]
  rfl

theorem token_ne_nil (s : Session) (n : Nat) : s.token n ≠ [] := by
  simp [token]

theorem token_congr {s s' : Session} (h : s'.nonce = s.nonce) (n : Nat) :
    s'.token n = s.token n := by
  unfold token tokenLead
  rw [h]

/-! ### Splicing -/

theorem splicePieces_char (outputs : List Text) (ps : List (Piece Nat)) : ∀ t : Text,
    splicePieces outputs (t.map .char ++ ps) = (splicePieces outputs ps).map (t ++ ·)
  | [] => by
      change splicePieces outputs ps = _
      cases splicePieces outputs ps <;> rfl
  | c :: t => by
      rw [List.map_cons, List.cons_append, splicePieces, splicePieces_char outputs ps t]
      cases splicePieces outputs ps <;> rfl

/-- A text that stands for output: the token of the output, or nothing for no output. -/
def Stands (s : Session) (t output : Text) : Prop :=
  (t = [] ∧ output = []) ∨ ∃ n, t = s.token n ∧ s.outputs[n]? = some output

/-- What was set aside is what its token stands for. -/
theorem stands_stash (s : Session) (output : Text) :
    Stands (s.stash output).2 (s.stash output).1 output := by
  unfold stash
  split
  · next h => exact Or.inl ⟨rfl, List.isEmpty_iff.mp h⟩
  · refine Or.inr ⟨s.outputs.length, rfl, ?_⟩
    simp

/-- Further output changes nothing about what a text stands for. -/
theorem Stands.mono {s s' : Session} {t output : Text} (h : Stands s t output)
    (hn : s'.nonce = s.nonce) (ho : s.outputs <+: s'.outputs) : Stands s' t output := by
  obtain ⟨ht, hout⟩ | ⟨n, ht, hout⟩ := h
  · exact Or.inl ⟨ht, hout⟩
  · refine Or.inr ⟨n, ?_, ?_⟩
    · exact ht.trans (token_congr hn n).symm
    · obtain ⟨more, e⟩ := ho
      obtain ⟨hlt, -⟩ := List.getElem?_eq_some_iff.mp hout
      rw [← e, List.getElem?_append_left hlt, hout]

theorem mem_token {s : Session} {n : Nat} {c : Char} (h : c ∈ s.token n) :
    c ∈ "\x00hk:out:".toList ∨ c ∈ s.nonce ∨ c.isDigit = true := by
  have colon : ∀ d ∈ ":".toList, d ∈ "\x00hk:out:".toList := forall_mem_text (by decide)
  have null : ∀ d ∈ ['\x00'], d ∈ "\x00hk:out:".toList := forall_mem_text (by decide)
  unfold token tokenLead at h
  obtain h | h := List.mem_append.mp h
  · obtain h | h := List.mem_append.mp h
    · obtain h | h := List.mem_append.mp h
      · obtain h | h := List.mem_append.mp h
        · exact Or.inl h
        · exact Or.inr (Or.inl h)
      · exact Or.inl (colon c h)
    · exact Or.inr (Or.inr (isDigit_of_mem_ofNat h))
  · exact Or.inl (null c h)

/-- A character that is neither in the nonce nor in the frame of tokens is in no token. -/
theorem Stands.not_mem {s : Session} {t output : Text} {c : Char} (h : Stands s t output)
    (hn : c ∉ s.nonce) (hc : c.isDigit = false) (hf : c ∉ "\x00hk:out:".toList) : c ∉ t := by
  obtain ⟨ht, -⟩ | ⟨n, ht, -⟩ := h
  · rw [ht]
    exact List.not_mem_nil
  · rw [ht]
    intro hm
    obtain h | h | h := mem_token hm
    · exact hf h
    · exact hn h
    · exact Bool.false_ne_true (hc.symm.trans h)

/-- **Output comes back where its token stands**, behind a text without null characters. -/
theorem splice_stands {s : Session} {t token output : Text} (ht : '\x00' ∉ t)
    (h : Stands s token output) : s.splice (t ++ token) = .ok (t ++ output) := by
  unfold splice
  split
  · next he =>
    obtain ⟨rfl, rfl⟩ | ⟨n, -, hout⟩ := h
    · rfl
    · rw [List.isEmpty_iff.mp he] at hout
      cases hout
  · have quiet := s.token?_leads.quiet ht token
    have scan : pieces s.token? (t ++ token) =
        t.map .char ++ piecesFrom s.token? (0 + t.length) 0 token :=
      piecesFrom_quiet s.token? 0 t token quiet
    rw [scan, splicePieces_char]
    obtain ⟨rfl, rfl⟩ | ⟨n, rfl, hout⟩ := h
    · rfl
    · have hit := piecesFrom_hit _ (0 + t.length) (s.token_ne_nil n) (s.token?_token n [])
      rw [List.append_nil, piecesFrom] at hit
      rw [hit, splicePieces, hout]
      simp only [splicePieces, Except.map, List.append_nil]

end Session

/-! ### Texts that are put together -/

/-- A part of a text: a piece of its own, or what stands for the output with a number. -/
inductive Scrap where
  | piece (t : Text)
  | output (n : Nat)

/-- A part as text, given what stands under the numbers. -/
def Scrap.shown (outputs : List Text) : Scrap → Text
  | .piece t => t
  | .output n => outputs[n]?.getD []

/-- The text that is put together from parts. -/
def assembled (outputs : List Text) (scraps : List Scrap) : Text :=
  scraps.flatMap (Scrap.shown outputs)

variable {outputs tokens : List Text} {scraps : List Scrap}

@[simp] theorem assembled_nil (outputs : List Text) : assembled outputs [] = [] := rfl

@[simp] theorem assembled_piece (outputs : List Text) (t : Text) (scraps : List Scrap) :
    assembled outputs (.piece t :: scraps) = t ++ assembled outputs scraps := rfl

@[simp] theorem assembled_output (outputs : List Text) (n : Nat) (scraps : List Scrap) :
    assembled outputs (.output n :: scraps) = outputs[n]?.getD [] ++ assembled outputs scraps := rfl

theorem assembled_append (outputs : List Text) (a b : List Scrap) :
    assembled outputs (a ++ b) = assembled outputs a ++ assembled outputs b :=
  List.flatMap_append

theorem assembled_run {run : List Scrap} (h : run <:+: scraps) (outputs : List Text) :
    assembled outputs run <:+: assembled outputs scraps := by
  obtain ⟨a, b, rfl⟩ := h
  rw [assembled_append, assembled_append]
  exact ⟨_, _, rfl⟩

/-- A text holds a character only if a piece or an output of it does. -/
theorem not_mem_assembled {x : Char} (hp : ∀ t, .piece t ∈ scraps → x ∉ t)
    (ho : ∀ t ∈ outputs, x ∉ t) : x ∉ assembled outputs scraps := by
  intro h
  obtain ⟨part, hm, hx⟩ := List.mem_flatMap.mp h
  cases part with
  | piece t => exact hp t hm hx
  | output n =>
      rw [Scrap.shown] at hx
      cases hn : outputs[n]? with
      | none =>
          rw [hn] at hx
          cases hx
      | some t =>
          rw [hn] at hx
          exact ho t (List.mem_of_getElem? hn) hx

namespace Session

variable {s s' : Session}

/-! ### Where tokens stand -/

/-- Only the lead of tokens begins a token. -/
theorem token?_eq_none {t : Text} (h : ¬ s.tokenLead <+: t) : s.token? t = none := by
  unfold token?
  rw [dropLead?_eq_none.mpr h]
  rfl

theorem tokenLead_cons (s : Session) : ∃ l, s.tokenLead = '\x00' :: l ∧
    ('\x00' ∉ s.nonce → '\x00' ∉ l) := by
  refine ⟨"hk:out:" ++ s.nonce ++ ":", rfl, fun h => ?_⟩
  simp only [List.mem_append, not_or]
  exact ⟨⟨by decide, h⟩, by decide⟩

theorem nonce_infix (s : Session) : s.nonce <:+: s.tokenLead := ⟨_, _, rfl⟩

/-- What stands under the numbers of one list stands for what stands under those of another. -/
def Answers (s : Session) (tokens outputs : List Text) : Prop :=
  ∀ n : Nat, s.Stands (tokens[n]?.getD []) (outputs[n]?.getD [])

/-- At no place of a piece a token begins, whatever follows the piece. -/
def Calm (s : Session) (tokens : List Text) : List Scrap → Prop
  | [] => True
  | .piece t :: scraps =>
    (∀ c v, c :: v <:+ t → s.token? (c :: v ++ assembled tokens scraps) = none) ∧
      s.Calm tokens scraps
  | .output _ :: scraps => s.Calm tokens scraps

/-- A calm text is spliced part by part. -/
theorem splicePieces_assembled (h : s.Answers tokens outputs) : ∀ (scraps : List Scrap) (pos : Nat),
    s.Calm tokens scraps →
    splicePieces s.outputs (piecesFrom s.token? pos 0 (assembled tokens scraps)) =
      .ok (assembled outputs scraps)
  | [], pos, _ => rfl
  | .piece t :: scraps, pos, ⟨quiet, calm⟩ => by
      rw [assembled_piece, piecesFrom_quiet s.token? pos t _ quiet, splicePieces_char,
        splicePieces_assembled h scraps _ calm]
      rfl
  | .output n :: scraps, pos, calm => by
      have rest := fun pos => splicePieces_assembled h scraps pos calm
      rw [assembled_output, assembled_output]
      obtain ⟨ht, ho⟩ | ⟨m, ht, ho⟩ := h n
      · rw [ht, ho]
        exact rest pos
      · rw [ht, piecesFrom_hit _ pos (s.token_ne_nil m) (s.token?_token m _), splicePieces, ho, rest]
        rfl

theorem splice_assembled (h : s.Answers tokens outputs) (calm : s.Calm tokens scraps) :
    s.splice (assembled tokens scraps) = .ok (assembled outputs scraps) := by
  unfold splice
  split
  · next none =>
    -- Without output every token is empty.
    have empty : ∀ n : Nat, tokens[n]?.getD [] = outputs[n]?.getD [] := by
      intro n
      obtain ⟨ht, ho⟩ | ⟨m, -, ho⟩ := h n
      · rw [ht, ho]
      · rw [List.isEmpty_iff.mp none] at ho
        cases ho
    have same : Scrap.shown tokens = Scrap.shown outputs := by
      funext part
      cases part with
      | piece t => rfl
      | output n => exact empty n
    rw [assembled, assembled, same]
  · exact splicePieces_assembled h scraps 0 calm

/-! ### Pieces that are calm -/

/-- Pieces without null characters are calm. -/
theorem calm_of_not_mem (s : Session) (tokens : List Text) : ∀ scraps : List Scrap,
    (∀ t, .piece t ∈ scraps → '\x00' ∉ t) → s.Calm tokens scraps
  | [], _ => trivial
  | .piece t :: scraps, h =>
      ⟨s.token?_leads.quiet (h t List.mem_cons_self) _,
        calm_of_not_mem s tokens scraps fun u hu => h u (List.mem_cons_of_mem _ hu)⟩
  | .output _ :: scraps, h =>
      calm_of_not_mem s tokens scraps fun u hu => h u (List.mem_cons_of_mem _ hu)

/-- No stretch of pieces spells the nonce; an output that is empty does not end a stretch. -/
def Clear (s : Session) (outputs : List Text) (scraps : List Scrap) : Prop :=
  ∀ run, run <:+: scraps → (∀ n, .output n ∈ run → outputs[n]?.getD [] = []) →
    ¬ s.nonce <:+: assembled outputs run

/-- If all pieces joined do not spell the nonce, no stretch of them does. -/
theorem clear_of_joined (h : ¬ s.nonce <:+: assembled [] scraps) : s.Clear outputs scraps := by
  intro run hr empty hi
  have same : assembled outputs run = assembled [] run := by
    unfold assembled
    rw [List.flatMap_def, List.flatMap_def, List.map_congr_left fun part hm => ?_]
    cases part with
    | piece t => rfl
    | output n => exact empty n hm
  rw [same] at hi
  exact h (hi.trans (assembled_run hr []))

/-- Every text starts with a stretch of pieces, and behind it comes nothing or a token. -/
theorem exists_stretch (h : s.Answers tokens outputs) : ∀ scraps : List Scrap,
    ∃ run rest, scraps = run ++ rest ∧ (∀ n, .output n ∈ run → outputs[n]?.getD [] = []) ∧
      assembled tokens run = assembled outputs run ∧
      (assembled tokens rest = [] ∨ ∃ r, assembled tokens rest = '\x00' :: r)
  | [] => ⟨[], [], rfl, fun _ hm => absurd hm List.not_mem_nil, rfl, Or.inl rfl⟩
  | .piece t :: scraps => by
      obtain ⟨run, rest, rfl, empty, same, behind⟩ := exists_stretch h scraps
      refine ⟨.piece t :: run, rest, rfl, fun n hm => ?_, ?_, behind⟩
      · exact empty n ((List.mem_cons.mp hm).resolve_left nofun)
      · rw [assembled_piece, assembled_piece, same]
  | .output n :: scraps => by
      obtain ⟨ht, ho⟩ | ⟨m, ht, -⟩ := h n
      · obtain ⟨run, rest, rfl, empty, same, behind⟩ := exists_stretch h scraps
        refine ⟨.output n :: run, rest, rfl, fun k hm => ?_, ?_, behind⟩
        · obtain e | hm := List.mem_cons.mp hm
          · obtain rfl := Scrap.output.inj e
            exact ho
          · exact empty k hm
        · rw [assembled_output, assembled_output, same, ht, ho]
      · refine ⟨[], .output n :: scraps, rfl, fun _ hm => absurd hm List.not_mem_nil, rfl, ?_⟩
        obtain ⟨l, lead, -⟩ := s.tokenLead_cons
        rw [assembled_output, ht, token, lead]
        exact Or.inr ⟨_, rfl⟩

/-- Pieces of which no stretch spells the nonce are calm: the lead of a token starts with a null
character and holds no further one, so it would have to end before the next token. -/
theorem calm_of_clear (null : '\x00' ∉ s.nonce) (h : s.Answers tokens outputs) :
    ∀ scraps : List Scrap, s.Clear outputs scraps → s.Calm tokens scraps
  | [], _ => trivial
  | .output _ :: scraps, clear =>
      calm_of_clear null h scraps fun run hr =>
        clear run (hr.trans (List.suffix_cons _ scraps).isInfix)
  | .piece t :: scraps, clear => by
      refine ⟨fun c v hv => token?_eq_none fun lead => ?_, calm_of_clear null h scraps fun run hr =>
        clear run (hr.trans (List.suffix_cons _ scraps).isInfix)⟩
      obtain ⟨run, rest, rfl, empty, same, behind⟩ := exists_stretch h scraps
      have inside : s.tokenLead <+: c :: v ++ assembled outputs run := by
        rw [assembled_append, same, ← List.append_assoc] at lead
        obtain none | ⟨r, hr⟩ := behind
        · rwa [none, List.append_nil] at lead
        · obtain ⟨l, hl, hm⟩ := s.tokenLead_cons
          rw [hr, hl] at lead
          rw [hl]
          obtain ⟨e, lead⟩ := List.cons_prefix_cons.mp lead
          exact List.cons_prefix_cons.mpr ⟨e, prefix_of_not_mem (hm null) lead⟩
      have spelled : s.nonce <:+: t ++ assembled outputs run := by
        obtain ⟨u, rfl⟩ := hv
        rw [List.append_assoc]
        exact (s.nonce_infix.trans inside.isInfix).trans (List.suffix_append _ _).isInfix
      refine clear (.piece t :: run) ⟨[], rest, rfl⟩ (fun n hm => ?_) spelled
      exact empty n ((List.mem_cons.mp hm).resolve_left nofun)

/-! ### Setting output aside -/

/-- Sets outputs aside, one after the other, and answers their tokens. -/
def stashAll (s : Session) : List Text → List Text × Session
  | [] => ([], s)
  | output :: outputs =>
    let (token, s) := s.stash output
    let (tokens, s) := s.stashAll outputs
    (token :: tokens, s)

theorem extended_stashAll : ∀ (s : Session) (outputs : List Text),
    Extended [] s (s.stashAll outputs).2
  | s, [] => Extended.refl s
  | s, output :: outputs => (Extended.stash s output).trans (extended_stashAll _ outputs)

/-- The tokens stand for the outputs that they were answered for. -/
theorem answers_stashAll : ∀ (s : Session) (outputs : List Text),
    (s.stashAll outputs).2.Answers (s.stashAll outputs).1 outputs
  | s, [] => fun n => Or.inl ⟨rfl, rfl⟩
  | s, output :: outputs => fun n => by
      cases n with
      | zero =>
          have later := extended_stashAll (s.stash output).2 outputs
          exact (stands_stash s output).mono later.nonce later.outputs
      | succ n => exact answers_stashAll (s.stash output).2 outputs n

end Session

/-! ### Runs -/

/-- A text is put together and spliced, and the spliced text is set aside or not. -/
structure Deed where
  scraps : List Scrap
  kept : Bool

/-- A session, the tokens that were answered in it, and the texts that were spliced. -/
structure Bench where
  session : Session
  tokens : List Text := []
  spliced : List Text := []

namespace Bench

/-- Puts a text together from the tokens at hand, and splices it. -/
def step (b : Bench) (d : Deed) : Except Failure Bench :=
  (b.session.splice (assembled b.tokens d.scraps)).map fun t =>
    let (token, s) := b.session.stash t
    if d.kept then ⟨s, b.tokens ++ [token], b.spliced ++ [t]⟩
    else { b with spliced := b.spliced ++ [t] }

/-- Does one deed after the other. -/
def run (b : Bench) (deeds : List Deed) : Except Failure Bench := deeds.foldlM step b

end Bench

/-- The texts that deeds come to if tokens were the outputs themselves; `kept` are the outputs that
were set aside before. -/
def results (kept : List Text) : List Deed → List Text
  | [] => []
  | d :: deeds =>
    let t := assembled kept d.scraps
    t :: results (if d.kept then kept ++ [t] else kept) deeds

/-- The pieces of a deed hold no null character. -/
def Deed.Plain (d : Deed) : Prop := ∀ t, .piece t ∈ d.scraps → '\x00' ∉ t

namespace Bench

/-- The tokens at hand stand for outputs without null characters. -/
structure Holds (b : Bench) (kept : List Text) : Prop where
  answers : b.session.Answers b.tokens kept
  length : b.tokens.length = kept.length
  plain : ∀ t ∈ kept, '\x00' ∉ t

variable {b : Bench} {kept : List Text} {d : Deed}

/-- What was set aside last stands under the next number. -/
theorem Holds.keep (h : b.Holds kept) {t : Text} (ht : '\x00' ∉ t) (spliced : List Text) :
    Holds ⟨(b.session.stash t).2, b.tokens ++ [(b.session.stash t).1], spliced⟩ (kept ++ [t]) where
  answers := by
    intro n
    have later := Session.Extended.stash b.session t
    rcases Nat.lt_trichotomy n kept.length with inside | rfl | outside
    · rw [List.getElem?_append_left inside, List.getElem?_append_left (h.length ▸ inside)]
      exact (h.answers n).mono later.nonce later.outputs
    · rw [List.getElem?_concat_length, ← h.length, List.getElem?_concat_length]
      exact Session.stands_stash b.session t
    · have none : ∀ {l : List Text} {u : Text}, l.length = kept.length → (l ++ [u])[n]? = none :=
        fun hl => List.getElem?_eq_none (by
          rw [List.length_append, hl, List.length_singleton]
          omega)
      rw [none h.length, none rfl]
      exact Or.inl ⟨rfl, rfl⟩
  length := by rw [List.length_append, List.length_append, h.length]; rfl
  plain := List.forall_mem_append.mpr ⟨h.plain, fun u hu => List.mem_singleton.mp hu ▸ ht⟩

/-- The texts that a session sets aside on the way to another one hold no null character. -/
def Adds (s s' : Session) : Prop :=
  ∃ more, s'.outputs = s.outputs ++ more ∧ ∀ t ∈ more, '\x00' ∉ t

theorem adds_stash (s : Session) {t : Text} (ht : '\x00' ∉ t) : Adds s (s.stash t).2 := by
  unfold Session.stash
  split
  · exact ⟨[], (List.append_nil _).symm, fun _ hu => absurd hu List.not_mem_nil⟩
  · exact ⟨[t], rfl, fun u hu => List.mem_singleton.mp hu ▸ ht⟩

theorem Adds.trans {s s' s'' : Session} (h : Adds s s') (h' : Adds s' s'') : Adds s s'' := by
  obtain ⟨more, e, hm⟩ := h
  obtain ⟨more', e', hm'⟩ := h'
  exact ⟨more ++ more', by rw [e', e, List.append_assoc], List.forall_mem_append.mpr ⟨hm, hm'⟩⟩

/-- **One deed** comes to the text with the outputs in the place of the tokens. -/
theorem step_plain (h : b.Holds kept) (hd : d.Plain) :
    ∃ b', b.step d = .ok b' ∧ b'.spliced = b.spliced ++ [assembled kept d.scraps] ∧
      b'.Holds (if d.kept then kept ++ [assembled kept d.scraps] else kept) ∧
      Adds b.session b'.session := by
  have spliced : b.session.splice (assembled b.tokens d.scraps) = .ok (assembled kept d.scraps) :=
    Session.splice_assembled h.answers (b.session.calm_of_not_mem b.tokens d.scraps hd)
  have plain : '\x00' ∉ assembled kept d.scraps := not_mem_assembled hd h.plain
  unfold step
  rw [spliced]
  refine ⟨_, rfl, ?_⟩
  cases d.kept with
  | true => exact ⟨rfl, h.keep plain _, adds_stash b.session plain⟩
  | false =>
      refine ⟨rfl, ⟨h.answers, h.length, h.plain⟩, [], (List.append_nil _).symm, ?_⟩
      exact fun _ hu => absurd hu List.not_mem_nil

/-- **A run** comes to the texts with the outputs in the place of the tokens, all of them and all
that was set aside without null characters. -/
theorem run_plain : ∀ {deeds : List Deed} {b : Bench} {kept : List Text}, b.Holds kept →
    (∀ d ∈ deeds, d.Plain) →
    ∃ b', b.run deeds = .ok b' ∧ b'.spliced = b.spliced ++ results kept deeds ∧
      (∀ t ∈ results kept deeds, '\x00' ∉ t) ∧ Adds b.session b'.session
  | [], b, kept, h, _ =>
      ⟨b, rfl, (List.append_nil _).symm, fun _ hu => absurd hu List.not_mem_nil,
        [], (List.append_nil _).symm, fun _ hu => absurd hu List.not_mem_nil⟩
  | d :: deeds, b, kept, h, hd => by
      obtain ⟨own, others⟩ := List.forall_mem_cons.mp hd
      obtain ⟨b', one, spliced, holds, adds⟩ := step_plain h own
      obtain ⟨b'', all, more, plain, adds'⟩ := run_plain holds others
      refine ⟨b'', ?_, ?_, ?_, adds.trans adds'⟩
      · unfold run at all ⊢
        rw [List.foldlM_cons, one]
        exact all
      · rw [more, spliced, List.append_assoc]
        rfl
      · exact List.forall_mem_cons.mpr ⟨not_mem_assembled own h.plain, plain⟩

end Bench

/-- **What was set aside comes back exactly where its token stands.**  Let any outputs be set aside
in any session, and let a text be put together from pieces and from tokens, in any order and as often
as one likes, so that no stretch of pieces spells the nonce.  Splicing gives the same text with the
outputs in the place of their tokens, whatever the pieces and the outputs look like, and never fails.
A nonce, which is made of hexadecimal digits, holds no null character: tokens cannot overlap.
If pieces hold no null characters and every text is spliced before it is set aside, a whole run comes
to the texts with outputs in the place of tokens, and none of the spliced texts and of the outputs
that were set aside holds a token. -/
theorem splice_stashed (s : Session) (null : '\x00' ∉ s.nonce) :
    (∀ (outputs : List Text) (scraps : List Scrap), s.Clear outputs scraps →
      (s.stashAll outputs).2.splice (assembled (s.stashAll outputs).1 scraps) =
        .ok (assembled outputs scraps)) ∧
    ∀ deeds : List Deed, (∀ d ∈ deeds, d.Plain) →
      ∃ b, (Bench.mk s [] []).run deeds = .ok b ∧ b.spliced = results [] deeds ∧
        ∀ t ∈ b.spliced ++ b.session.outputs.drop s.outputs.length, ∀ n, ¬ s.token n <:+: t := by
  constructor
  · intro outputs scraps clear
    have answers := Session.answers_stashAll s outputs
    have nonce := (Session.extended_stashAll s outputs).nonce
    refine Session.splice_assembled answers (Session.calm_of_clear (nonce ▸ null) answers scraps ?_)
    unfold Session.Clear at clear ⊢
    rwa [nonce]
  · intro deeds plain
    have none : s.Answers [] [] := fun n => Or.inl ⟨rfl, rfl⟩
    have fresh : Bench.Holds ⟨s, [], []⟩ [] := ⟨none, rfl, fun _ hu => absurd hu List.not_mem_nil⟩
    obtain ⟨b, all, spliced, clean, more, outputs, kept⟩ := Bench.run_plain fresh plain
    refine ⟨b, all, spliced, fun t ht n hi => ?_⟩
    have null : '\x00' ∉ t := by
      rw [spliced, outputs, List.drop_left, List.nil_append] at ht
      exact (List.mem_append.mp ht).elim (clean t) (kept t)
    obtain ⟨l, lead, -⟩ := s.tokenLead_cons
    rw [Session.token, lead] at hi
    exact null (hi.subset List.mem_cons_self)

/-- Two pieces without the nonce that spell a token together. -/
def torn : List Scrap := [.piece "\x00hk:out:01234567", .piece "89abcdef:7\x00"]

theorem splice_torn :
    (∀ t, .piece t ∈ torn → ¬ ({} : Session).nonce <:+: t) ∧
      (({} : Session).stashAll ["A"]).2.splice
          (assembled (({} : Session).stashAll ["A"]).1 torn) = .error .noSuchPlace := by
  refine ⟨fun t ht => ?_, by decide +kernel⟩
  simp only [torn, List.mem_cons, Scrap.piece.injEq, List.not_mem_nil, or_false] at ht
  obtain rfl | rfl := ht <;> decide +kernel

/-- Output of which one looks like a token. -/
def disguised : List Text := ["A", "", "\x00hk:out:0123456789abcdef:0\x00"]

/-- Tokens among pieces that look like parts of tokens. -/
def lookalikes : List Scrap :=
  [.piece "\x00hk:out:", .output 0, .output 0, .piece "0123456789abcde\x00", .output 2,
    .piece "\x00hk:out:ffff:1\x00", .output 1]

/-- Texts that are made of the ones before them. -/
def nested : List Deed :=
  [⟨[.piece "a"], true⟩, ⟨[.output 0, .piece "b", .output 0], true⟩,
    ⟨[.output 1, .piece "0123456789abcdef"], false⟩]

theorem splice_lookalikes :
    (({} : Session).stashAll disguised).2.splice
        (assembled (({} : Session).stashAll disguised).1 lookalikes) =
      .ok ("\x00hk:out:AA0123456789abcde\x00" ++ "\x00hk:out:0123456789abcdef:0\x00" ++
        "\x00hk:out:ffff:1\x00") ∧
    ∃ b, (Bench.mk {} [] []).run nested = .ok b ∧
      b.spliced = ["a".toList, "aba".toList, "aba0123456789abcdef".toList] ∧
      ∀ t ∈ b.spliced ++ b.session.outputs, ∀ n, ¬ ({} : Session).token n <:+: t := by
  obtain ⟨back, runs⟩ := splice_stashed {} (by decide +kernel)
  have clear : ({} : Session).Clear disguised lookalikes :=
    Session.clear_of_joined (by decide +kernel)
  have text : assembled disguised lookalikes = "\x00hk:out:AA0123456789abcde\x00" ++
      "\x00hk:out:0123456789abcdef:0\x00" ++ "\x00hk:out:ffff:1\x00" := by decide +kernel
  have plain : ∀ d ∈ nested, d.Plain := by
    intro d hd t ht
    simp only [nested, List.mem_cons, List.not_mem_nil, or_false] at hd
    obtain rfl | rfl | rfl := hd <;> simp at ht <;> subst ht <;> decide +kernel
  obtain ⟨b, run, spliced, clean⟩ := runs nested plain
  have texts : results [] nested =
      ["a".toList, "aba".toList, "aba0123456789abcdef".toList] := by decide +kernel
  exact ⟨text ▸ back disguised lookalikes clear, b, run, spliced.trans texts, clean⟩

end Pagewright
