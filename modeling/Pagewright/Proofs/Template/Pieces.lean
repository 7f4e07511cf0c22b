import Pagewright.Proofs.Template.Data
import Pagewright.Proofs.Template.Opening

/-! # Pieces of data

Tokens that are pieces of data are parsed as nodes one after the other, in front of whatever can be
read behind them (`nodesFrom_data`), and are printed as the text that they make up
(`render_pieces`).

Main definitions: `onePiece`, `Spells`, `Readable`. -/

namespace Pagewright.Template

open Text

/-! ### Tokens -/

/-- A text as one piece, if there is any. -/
def onePiece (t : Text) : List Text := if t.isEmpty then [] else [t]

theorem flatten_onePiece (t : Text) : (onePiece t).flatten = t := by
  cases t with
  | nil => rfl
  | cons c r => exact List.flatten_singleton

/-- Tokens that are the given pieces of data. -/
def Spells (ts : List Token) (texts : List Text) : Prop := ts.map Token.lexeme = texts.map .data

theorem spells_dataToken (line : Nat) (t : Text) : Spells (dataToken line t) (onePiece t) := by
  cases t <;> rfl

theorem Spells.append {ts ts' : List Token} {texts texts' : List Text} (h : Spells ts texts)
    (h' : Spells ts' texts') : Spells (ts ++ ts') (texts ++ texts') := by
  unfold Spells at h h' ⊢
  rw [List.map_append, List.map_append, h, h']

theorem Spells.length_eq {ts : List Token} {texts : List Text} (h : Spells ts texts) :
    texts.length = ts.length := by
  have e := congrArg List.length h
  rw [List.length_map, List.length_map] at e
  exact e.symm

theorem Spells.lexeme {ts : List Token} {texts : List Text} (h : Spells ts texts) {t : Token}
    (ht : t ∈ ts) : ∃ u, t.lexeme = .data u := by
  have hm : t.lexeme ∈ texts.map Lexeme.data := h ▸ List.mem_map_of_mem ht
  obtain ⟨u, -, e⟩ := List.mem_map.mp hm
  exact ⟨u, e.symm⟩

/-- The end is placed behind tokens of which none is an end. -/
theorem placeEnd_append (last : Nat) : ∀ (line : Nat) (ts : List Token),
    (∀ t ∈ ts, t.lexeme ≠ .eof) →
      ∃ line', placeEnd line (ts ++ [⟨last, .eof⟩]) = ts ++ [⟨line', .eof⟩]
  | line, [], _ => ⟨line, rfl⟩
  | line, t :: ts, h => by
      obtain ⟨line', ih⟩ := placeEnd_append last t.line ts fun u hu =>
        h u (List.mem_cons_of_mem t hu)
      refine ⟨line', ?_⟩
      rw [List.cons_append, placeEnd, ih]
      split
      · next e => exact absurd e (h t List.mem_cons_self)
      · rfl

/-! ### Nodes -/

/-- The tokens of a text without carriage returns are what is read from its beginning. -/
theorem tokenize_of_scan {d : Dialect} (hd : Usual d) {t : Text} (hr : '\r' ∉ t) {ts : List Token}
    {last : Nat} (scanned : scan d (t.length + 1) .outside ⟨0, 1, none, true, t⟩ =
      ts ++ [⟨last, .eof⟩]) (full : ∀ t ∈ ts, t.lexeme ≠ .eof) :
    ∃ line, tokenize d t = ts ++ [⟨line, .eof⟩] := by
  have source : sourceText d t = t := by
    simp only [sourceText, normalizeLines_of_not_mem hr, hd.2, if_true]
  obtain ⟨line, placed⟩ := placeEnd_append last 1 ts full
  refine ⟨line, ?_⟩
  unfold tokenize
  simp only [source, scanned, placed]

/-- A reader goes on with what the first part answers. -/
theorem read_bind {α β : Type} {x : Reader α} {f : α → Reader β} {s s' : ReadState} {a : α}
    (h : x s = .ok (a, s')) : (x >>= f) s = f a s' := by
  change Except.bind (x s) (fun p => f p.1 p.2) = f a s'
  rw [h]
  rfl

/-- Tokens that can be read on: what comes next is not broken. -/
def Readable (ts : List Token) : Prop := ∀ t w, ts.head? = some t → t.lexeme ≠ .broken w

theorem readable_cons {line : Nat} {x : Lexeme} (h : ∀ w, x ≠ .broken w) (ts : List Token) :
    Readable (⟨line, x⟩ :: ts) := by
  rintro t w e
  obtain rfl := Option.some.inj e
  exact h w

theorem checkReadable_ok {ts : List Token} (h : Readable ts) (tags : List Text)
    (ends : List (List Text)) : checkReadable ⟨ts, tags, ends⟩ = .ok ((), ⟨ts, tags, ends⟩) := by
  cases ts with
  | nil => rfl
  | cons t ts =>
      obtain ⟨line, lexeme⟩ := t
      cases lexeme with
      | broken w => exact absurd rfl (h _ w rfl)
      | _ => rfl

theorem next_ok {t : Token} (ht : t.lexeme ≠ .eof) {ts : List Token} (h : Readable ts)
    (tags : List Text) (ends : List (List Text)) :
    next ⟨t :: ts, tags, ends⟩ = .ok (t, ⟨ts, tags, ends⟩) := by
  have passed : next ⟨t :: ts, tags, ends⟩ =
      (do checkReadable; return t : Reader Token) ⟨ts, tags, ends⟩ := by
    obtain ⟨line, lexeme⟩ := t
    cases lexeme with
    | eof => exact absurd rfl ht
    | _ => rfl
  rw [passed]
  exact read_bind (checkReadable_ok h tags ends)

theorem Spells.readable {ts rest : List Token} {texts : List Text} (h : Spells ts texts)
    (hr : Readable rest) : Readable (ts ++ rest) := by
  cases ts with
  | nil => exact hr
  | cons t ts =>
      rintro t' w e
      obtain rfl : t = t' := Option.some.inj e
      obtain ⟨u, hu⟩ := h.lexeme List.mem_cons_self
      rw [hu]
      nofun

/-- Pieces of data become nodes, one after the other. -/
theorem nodesFrom_data (g : Grammar) (ends : Option (List Text)) (fuel : Nat)
    {rest : List Token} (hr : Readable rest) (tags : List Text) (waiting : List (List Text)) :
    ∀ {texts : List Text} {ts : List Token}, Spells ts texts →
      nodesFrom g ends (fuel + texts.length) ⟨ts ++ rest, tags, waiting⟩ =
        (nodesFrom g ends fuel ⟨rest, tags, waiting⟩).map fun (ns, s) => (texts.map .data ++ ns, s)
  | [], ts, h => by
      obtain rfl := List.map_eq_nil_iff.mp h
      simp only [List.length_nil, Nat.add_zero, List.nil_append, List.map_nil]
      cases nodesFrom g ends fuel ⟨rest, tags, waiting⟩ <;> rfl
  | t :: texts, [], h => by cases h
  | t :: texts, ⟨line, lexeme⟩ :: ts, h => by
      obtain ⟨rfl, e⟩ := List.cons.inj h
      have behind : Spells ts texts := e
      have ih := nodesFrom_data g ends fuel hr tags waiting behind
      have read := next_ok (t := ⟨line, .data t⟩) nofun (behind.readable hr) tags waiting
      have step : nodesFrom g ends (fuel + texts.length + 1)
          ⟨⟨line, .data t⟩ :: (ts ++ rest), tags, waiting⟩ =
            (do
              let _ ← next
              return Node.data t :: (← nodesFrom g ends (fuel + texts.length)) : Reader (List Node))
              ⟨⟨line, .data t⟩ :: (ts ++ rest), tags, waiting⟩ := rfl
      rw [List.length_cons, ← Nat.add_assoc, List.cons_append, step, read_bind read]
      change Except.bind (nodesFrom g ends (fuel + texts.length) ⟨ts ++ rest, tags, waiting⟩) _ = _
      rw [ih]
      cases nodesFrom g ends fuel ⟨rest, tags, waiting⟩ <;> rfl

/-- A template is parsed as the nodes that are read from its tokens. -/
theorem parse_of_nodesFrom {d : Dialect} {t : Text} {ts : List Token} (ht : tokenize d t = ts)
    (hr : Readable ts) {nodes : List Node} {s : ReadState}
    (hn : nodesFrom (grammar ts.length) none (ts.length + 1) ⟨ts, [], []⟩ = .ok (nodes, s)) :
    parse d t = .ok nodes := by
  have remains : remaining ⟨ts, [], []⟩ = .ok (ts.length + 1, ⟨ts, [], []⟩) := rfl
  have read : (grammar (ts.length + 1)).nodes none ⟨ts, [], []⟩ = .ok (nodes, s) :=
    (read_bind remains).trans hn
  have whole : (do
      checkReadable
      (grammar (ts.length + 1)).nodes none : Reader (List Node)) ⟨ts, [], []⟩ = .ok (nodes, s) :=
    (read_bind (checkReadable_ok hr [] [])).trans read
  unfold parse
  rw [ht]
  exact congrArg (fun r => Except.bind r fun p => .ok p.1) whole

theorem readable_eof (line : Nat) : Readable [⟨line, .eof⟩] := readable_cons (by nofun) []

/-- Tokens of data are parsed as nodes of data. -/
theorem parse_spells {d : Dialect} {t : Text} {ts : List Token} {texts : List Text} {line : Nat}
    (ht : tokenize d t = ts ++ [⟨line, .eof⟩]) (h : Spells ts texts) :
    parse d t = .ok (texts.map .data) := by
  have last := readable_eof line
  have length : (ts ++ [(⟨line, .eof⟩ : Token)]).length = ts.length + 1 := List.length_append
  refine parse_of_nodesFrom ht (h.readable last) (s := ⟨[⟨line, .eof⟩], [], []⟩) ?_
  have read := nodesFrom_data (grammar (ts.length + 1)) none 2 last [] [] h
  rw [h.length_eq, Nat.add_comm 2] at read
  rw [length, read]
  exact congrArg (fun ns => Except.ok (ns, _)) (List.append_nil _)

theorem checkNodes_data_append (v : Vocabulary) (p : Place) (extended : Bool) (ns : List Node) :
    ∀ texts : List Text,
      checkNodes v p extended (texts.map .data ++ ns) = checkNodes v p extended ns
  | [] => rfl
  | _ :: texts => checkNodes_data_append v p extended ns texts

theorem checkNodes_data (v : Vocabulary) (p : Place) (extended : Bool) (texts : List Text) :
    checkNodes v p extended (texts.map .data) = .ok () := by
  have checked := checkNodes_data_append v p extended [] texts
  rwa [List.append_nil] at checked

theorem blocksOf_data_append (ns : List Node) : ∀ texts : List Text,
    blocksOf (texts.map .data ++ ns) = blocksOf ns
  | [] => rfl
  | _ :: texts => blocksOf_data_append ns texts

theorem blocksOf_data (texts : List Text) : blocksOf (texts.map .data) = [] := by
  have blocks := blocksOf_data_append [] texts
  rwa [List.append_nil] at blocks

/-! ### Running -/

theorem runNodes_data_append (g : Program) (m : Machine) (s : Setting) {ns : List Node} {t : Text}
    {st st' : Store} (hn : runNodes g m s ns st = .ok (t, st')) : ∀ texts : List Text,
      runNodes g m s (texts.map .data ++ ns) st = .ok (texts.flatten ++ t, st')
  | [] => hn
  | u :: texts => by
      have ih := runNodes_data_append g m s hn texts
      have head : runNode g m s (.data u) st = .ok (u, st) := rfl
      rw [List.flatten_cons, List.append_assoc]
      exact (run_bind head).trans ((run_bind ih).trans rfl)

theorem runNodes_data (g : Program) (m : Machine) (s : Setting) (st : Store) (texts : List Text) :
    runNodes g m s (texts.map .data) st = .ok (texts.flatten, st) := by
  have ran : runNodes g m s (texts.map .data ++ []) st = .ok (texts.flatten ++ [], st) :=
    runNodes_data_append g m s rfl texts
  rwa [List.append_nil, List.append_nil] at ran

theorem mentionsAllOf_data_append (ns : List Node) : ∀ texts : List Text,
    mentionsAllOf (texts.map .data ++ ns) = mentionsAllOf ns
  | [] => rfl
  | _ :: texts => mentionsAllOf_data_append ns texts

theorem mentionsAllOf_data (texts : List Text) : mentionsAllOf (texts.map .data) = [] := by
  have mentions := mentionsAllOf_data_append [] texts
  rwa [List.append_nil] at mentions

theorem noteNodes_data_append (s : Scope) (ns : List Node) : ∀ texts : List Text,
    noteNodes s (texts.map .data ++ ns) = noteNodes s ns
  | [] => rfl
  | _ :: texts => noteNodes_data_append s ns texts

theorem noteNodes_data (s : Scope) (texts : List Text) : noteNodes s (texts.map .data) = s := by
  have noted := noteNodes_data_append s [] texts
  rwa [List.append_nil] at noted

/-- Pieces of data are printed one after the other. -/
theorem render_pieces (texts : List Text) (guarded : Bool) {data : List (Value × Value)}
    (hn : Named data) :
    (Compiled.mk (texts.map .data) [] guarded).render data = .ok texts.flatten := by
  obtain ⟨named, hd⟩ := namedData_ok hn
  refine withData_ok hd fun kept s _ _ => ?_
  have top : ∃ set s', topSetting (mentionsAllOf (texts.map .data))
      (Scope.ofBody [] [] (texts.map .data)) s = .ok (set, s') := by
    rw [mentionsAllOf_data]
    exact ⟨_, _, rfl⟩
  obtain ⟨set, s', ht⟩ := top
  exact ⟨s', (run_bind ht).trans (runNodes_data _ _ _ s' texts)⟩

end Pagewright.Template

/-! ## Raw stretches print as they are

In a dialect that drops no white space, a template may alternate between open text, in which no
delimiter stands, and stretches in raw blocks, in which no closing tag stands (`interleaved`).  It
is read as pieces of data only (`tokenize_interleaved`), so it is compiled to the text between the
tags (`compile_interleaved`).

Main definitions: `interleaved`, `Parted`, `spelt`. -/

namespace Pagewright.Template

open Text
open Lowering (rawOpen rawClose)

/-! ### Stretches -/

/-- Open text, and raw stretches with the open text behind each of them, as a template. -/
def interleaved (u : Text) : List (Text × Text) → Text
  | [] => u
  | (x, v) :: rest => u ++ (rawOpen ++ (x ++ (rawClose ++ interleaved v rest)))

/-- Open text and raw stretches that can be told apart: no delimiter opens in open text or runs into
a raw tag, and no raw stretch is closed before its end. -/
def Parted (d : Dialect) (u : Text) : List (Text × Text) → Prop
  | [] => Unopened u
  | (x, v) :: rest =>
    Unopened u ∧ u.getLast? ≠ some '\x7b' ∧ Nowhere (rawEnd? d) x ∧ Parted d v rest

/-- The pieces that open text and raw stretches are printed as. -/
def spelt (u : Text) : List (Text × Text) → List Text
  | [] => onePiece u
  | (x, v) :: rest => onePiece u ++ (onePiece x ++ spelt v rest)

/-! ### Reading -/

/-- **A raw stretch is read as it is**, behind the open text in front of it. -/
theorem scan_raw {d : Dialect} (hd : Exact d) {u x r : Text} (hu : Unopened u)
    (hl : u.getLast? ≠ some '\x7b') (hx : Nowhere (rawEnd? d) x) (fuel : Nat) (c : Cursor)
    (hc : c.rest = u ++ (rawOpen ++ (x ++ (rawClose ++ r)))) :
    ∃ line c', c'.rest = r ∧ scan d (fuel + 2) .outside c =
      dataToken c.line u ++ (dataToken line x ++ scan d fuel .outside c') := by
  have outside := scan_outside (fuel + 1) c hc (List.append_ne_nil_of_left_ne_nil (by decide) _)
    (opening?_rawOpen d _) (hu.quiet hd.usual hl _)
  rw [hd.trimmedData, scanOpened] at outside
  obtain ⟨c₁, e⟩ : ∃ c₁, c₁ = c.advance (u.length + rawOpen.length) := ⟨_, rfl⟩
  have hc₁ : c₁.rest = x ++ (rawClose ++ r) := by
    rw [e, ← List.length_append]
    exact rest_advance (by rw [hc, List.append_assoc])
  rw [← e] at outside
  have closed := firstHit?_append (u := x) (rawEnd?_rawClose hd r) fun a v hv =>
    rawEnd?_parted (hx.quiet a v hv) _
  have given : (x ++ (rawClose ++ r)).isEmpty = false := isEmpty_eq_false
    (List.append_ne_nil_of_right_ne_nil x (List.append_ne_nil_of_left_ne_nil (by decide) r))
  refine ⟨c₁.line, c₁.advance (x.length + rawClose.length), ?_, ?_⟩
  · rw [← List.length_append]
    exact rest_advance (by rw [hc₁, List.append_assoc])
  · rw [outside, scan.eq_def]
    simp only [hc₁, given, Bool.false_eq_true, if_false, closed, List.take_left, hd.trimmedData]

/-- The reader takes open text and raw stretches as pieces of data. -/
theorem scan_interleaved {d : Dialect} (hd : Exact d) : ∀ {rest : List (Text × Text)} {u : Text}
    (fuel : Nat) (c : Cursor), Parted d u rest → c.rest = interleaved u rest →
    (interleaved u rest).length < fuel →
      ∃ ts line, scan d fuel .outside c = ts ++ [⟨line, .eof⟩] ∧ Spells ts (spelt u rest)
  | [], u, fuel, c, h, hc, hf => by
      obtain ⟨line, read⟩ := scan_open hd.usual h fuel c hc hf
      exact ⟨dataToken c.line u, line, read, spells_dataToken c.line u⟩
  | (x, v) :: rest, u, fuel + 1, c, h, hc, hf => by
      obtain ⟨hu, hl, hx, hv⟩ := h
      have long : rawOpen.length = 9 := rfl
      simp only [interleaved, List.length_append] at hf
      obtain ⟨fuel, rfl⟩ : ∃ k, fuel = k + 1 := Nat.exists_eq_succ_of_ne_zero (by omega)
      obtain ⟨line, c', hc', step⟩ := scan_raw hd hu hl hx fuel c hc
      obtain ⟨ts, last, behind, spells⟩ := scan_interleaved hd fuel c' hv hc' (by omega)
      refine ⟨dataToken c.line u ++ (dataToken line x ++ ts), last, ?_, ?_⟩
      · rw [step, behind, List.append_assoc, List.append_assoc]
      · exact (spells_dataToken _ u).append ((spells_dataToken _ x).append spells)

/-- **Open text and raw stretches are read as pieces of data** and nothing else. -/
theorem tokenize_interleaved {d : Dialect} (hd : Exact d) {u : Text} {rest : List (Text × Text)}
    (h : Parted d u rest) (hr : '\r' ∉ interleaved u rest) :
    ∃ ts line, tokenize d (interleaved u rest) = ts ++ [⟨line, .eof⟩] ∧
      Spells ts (spelt u rest) := by
  obtain ⟨ts, last, scanned, spells⟩ := scan_interleaved hd ((interleaved u rest).length + 1)
    ⟨0, 1, none, true, interleaved u rest⟩ h rfl (Nat.lt_succ_self _)
  obtain ⟨line, tokens⟩ := tokenize_of_scan hd.usual hr scanned fun t ht e => by
    obtain ⟨w, hw⟩ := spells.lexeme ht
    rw [hw] at e
    cases e
  exact ⟨ts, line, tokens, spells⟩

/-- **Open text and raw stretches are compiled** to the pieces of data that they are. -/
theorem compile_interleaved {d : Dialect} (hd : Exact d) {u : Text} {rest : List (Text × Text)}
    (h : Parted d u rest) (hr : '\r' ∉ interleaved u rest) :
    compile d (interleaved u rest) = .ok ⟨(spelt u rest).map .data, [], d.sandbox⟩ := by
  obtain ⟨ts, line, ht, spells⟩ := tokenize_interleaved hd h hr
  have checked : check vocabulary ((spelt u rest).map .data) = .ok () := by
    unfold check
    simp only [blocksOf_data]
    exact (congrArg (fun r => Except.bind r fun _ => _) (checkNodes_data _ _ _ _)).trans rfl
  unfold compile
  rw [parse_spells ht spells]
  change Except.bind (check vocabulary _) _ = _
  rw [checked, blocksOf_data]
  rfl

end Pagewright.Template
