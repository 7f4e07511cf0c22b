import Pagewright.Proofs.Text.Scan
import Pagewright.Template.Press

/-! # Text without tags prints as itself

Every opening delimiter starts with a curly bracket, so a text that holds none is one piece of data:
it is read as one token (`tokenize_data`), parsed as one node (`parse_data`), passes all checks, and
is printed as it is with any data under names (`render_data`).  Carriage returns are excluded, as
line breaks are rewritten before anything else. -/

namespace Pagewright.Template

open Text

/-- A dialect in which text stays as it is between tags: the usual delimiters, and no line break is
dropped at the end. -/
def Usual (d : Dialect) : Prop := d.delimiters = {} ∧ d.keepTrailingNewline = true

/-- A text that is data to the engine: without curly brackets that open a tag, and without carriage
returns. -/
def IsData (t : Text) : Prop := '\x7b' ∉ t ∧ '\r' ∉ t

/-! ### Tokens -/

theorem normalizeLines_of_not_mem : ∀ {t : Text}, '\r' ∉ t → normalizeLines t = t
  | [], _ => rfl
  | c :: r, h => by
      have hc : c ≠ '\r' := fun e => h (e ▸ List.mem_cons_self)
      have hr := normalizeLines_of_not_mem fun hm => h (List.mem_cons_of_mem c hm)
      rw [normalizeLines, if_neg hc, hr]
      rintro r' rfl -
      exact hc rfl

theorem sourceText_data {d : Dialect} (hd : Usual d) {t : Text} (ht : IsData t) :
    sourceText d t = t := by
  simp only [sourceText, normalizeLines_of_not_mem ht.2, hd.2, if_true]

theorem rawOpening?_eq_none {t : Text} (h : t.head? ≠ some '\x7b') : rawOpening? t = none := by
  have hd : dropLead? "\x7b%" t = none := dropLead?_eq_none_of_head? h
  unfold rawOpening?
  rw [hd]
  rfl

/-- No delimiter opens where no curly bracket stands. -/
theorem opening?_eq_none {d : Dialect} (hd : Usual d) {t : Text} (h : t.head? ≠ some '\x7b') :
    opening? d t = none := by
  have ho : openings d = [(.output, "\x7b\x7b".toList), (.comment, "\x7b#".toList),
      (.tag, "\x7b%".toList)] := by
    rw [openings, hd.1]
    rfl
  have houtput : dropLead? "\x7b\x7b" t = none := dropLead?_eq_none_of_head? h
  have hcomment : dropLead? "\x7b#" t = none := dropLead?_eq_none_of_head? h
  have htag : dropLead? "\x7b%" t = none := dropLead?_eq_none_of_head? h
  unfold opening?
  rw [rawOpening?_eq_none h, ho]
  simp only [List.findSome?_cons, houtput, hcomment, htag, Option.map_none, List.findSome?_nil]

theorem opening?_leads {d : Dialect} (hd : Usual d) : Leads '\x7b' (opening? d) :=
  fun _ _ hc => opening?_eq_none hd fun e => hc (Option.some.inj e)

theorem scan_nil (d : Dialect) (fuel : Nat) (mode : Mode) (c : Cursor) (h : c.rest = []) :
    scan d (fuel + 1) mode c = [⟨c.line, .eof⟩] := by
  rw [scan.eq_def]
  simp only [h, List.isEmpty_nil, if_true]

theorem scan_data {d : Dialect} (fuel : Nat) (c : Cursor) (hc : c.rest ≠ [])
    (h : firstHit? (opening? d) c.rest = none) :
    scan d (fuel + 2) .outside c = dataToken c.line c.rest ++
      [⟨(c.advance c.rest.length).line, .eof⟩] := by
  have he : c.rest.isEmpty = false := by
    rw [Bool.eq_false_iff, Ne, List.isEmpty_iff]
    exact hc
  rw [scan.eq_def]
  simp only [he, Bool.false_eq_true, if_false, h]
  rw [scan_nil d fuel .outside _ List.drop_length]

/-- The tokens of data: the data, if there is any, and the end. -/
theorem tokenize_data {d : Dialect} (hd : Usual d) {t : Text} (ht : IsData t) :
    tokenize d t = dataToken 1 t ++ [⟨1, .eof⟩] := by
  unfold tokenize
  rw [sourceText_data hd ht]
  cases t with
  | nil => rfl
  | cons c r =>
      have hnone : firstHit? (opening? d) (c :: r) = none :=
        firstHit?_of_leads (opening?_leads hd) (opening?_eq_none hd (by simp)) ht.1
      simp only [List.length_cons]
      rw [scan_data r.length ⟨0, 1, none, true, c :: r⟩ (List.cons_ne_nil c r) hnone]
      rfl

/-! ### Nodes -/

/-- The nodes of data. -/
def dataNodes (t : Text) : List Node := if t.isEmpty then [] else [.data t]

theorem parse_data {d : Dialect} (hd : Usual d) {t : Text} (ht : IsData t) :
    parse d t = .ok (dataNodes t) := by
  unfold parse
  rw [tokenize_data hd ht]
  cases t with
  | nil => rfl
  | cons c r => rfl

theorem compile_data {d : Dialect} (hd : Usual d) {t : Text} (ht : IsData t) :
    compile d t = .ok ⟨dataNodes t, [], d.sandbox⟩ := by
  unfold compile
  rw [parse_data hd ht]
  cases t with
  | nil => rfl
  | cons c r => rfl

/-! ### Running -/

/-- A computation goes on with what the first part answers. -/
theorem run_bind {α β : Type} {x : Run α} {f : α → Run β} {s s' : Store} {a : α}
    (h : x s = .ok (a, s')) : (x >>= f) s = f a s' := by
  change Except.bind (x s) (fun p => f p.1 p.2) = f a s'
  rw [h]
  rfl

mutual

/-- Values are moved into the store without fail, and nothing but the cells of the store change. -/
theorem keep_ok : ∀ (v : Value) (s : Store), ∃ w cells, keep v s = .ok (w, { s with cells })
  | .list xs, s => by
      obtain ⟨ws, cells, h⟩ := keepAll_ok xs s
      exact ⟨_, _, (run_bind h).trans rfl⟩
  | .tuple xs, s => by
      obtain ⟨ws, cells, h⟩ := keepAll_ok xs s
      exact ⟨_, _, (run_bind h).trans rfl⟩
  | .set xs, s => ⟨_, _, rfl⟩
  | .dict es, s => by
      obtain ⟨ws, cells, h⟩ := keepEntries_ok es s
      exact ⟨_, _, (run_bind h).trans rfl⟩
  | .row item place, s => by
      obtain ⟨w, cells, h⟩ := keep_ok item s
      exact ⟨_, _, (run_bind h).trans rfl⟩
  | .none, s | .bool _, s | .int _, s | .float _, s | .str _, s | .markup _, s
  | .undefined _ _ _, s | .position _ _ _ _, s | .range _ _ _, s | .cell _, s | .view _ _, s
  | .function _, s | .method _ _, s | .type _, s | .block _ _, s | .self, s => ⟨_, s.cells, rfl⟩

theorem keepAll_ok : ∀ (vs : List Value) (s : Store),
    ∃ ws cells, keepAll vs s = .ok (ws, { s with cells })
  | [], s => ⟨_, s.cells, rfl⟩
  | v :: vs, s => by
      obtain ⟨w, cells, h⟩ := keep_ok v s
      obtain ⟨ws, cells', h'⟩ := keepAll_ok vs { s with cells }
      refine ⟨w :: ws, cells', ?_⟩
      exact (run_bind h).trans ((run_bind h').trans rfl)

theorem keepEntries_ok : ∀ (es : List (Value × Value)) (s : Store),
    ∃ ws cells, keepEntries es s = .ok (ws, { s with cells })
  | [], s => ⟨_, s.cells, rfl⟩
  | (k, v) :: es, s => by
      obtain ⟨w, cells, h⟩ := keep_ok v s
      obtain ⟨ws, cells', h'⟩ := keepEntries_ok es { s with cells }
      refine ⟨(k, w) :: ws, cells', ?_⟩
      exact (run_bind h).trans ((run_bind h').trans rfl)

end

/-- Data of which every key is a text. -/
def Named (data : List (Value × Value)) : Prop := ∀ kv ∈ data, ∃ n, kv.1.text? = some n

theorem namedData_cons {k v : Value} {n : Text} (hk : k.text? = some n)
    {data : List (Value × Value)} {named : List (Text × Value)} (hd : namedData data = .ok named) :
    namedData ((k, v) :: data) = .ok ((n, v) :: named) := by
  unfold namedData at hd ⊢
  rw [List.mapM_cons]
  simp only [hk, hd]
  rfl

theorem namedData_ok : ∀ {data : List (Value × Value)}, Named data →
    ∃ named, namedData data = .ok named
  | [], _ => ⟨[], rfl⟩
  | (k, v) :: data, h => by
      obtain ⟨n, hn⟩ := h (k, v) List.mem_cons_self
      obtain ⟨named, hd⟩ := namedData_ok fun kv hm => h kv (List.mem_cons_of_mem _ hm)
      exact ⟨(n, v) :: named, namedData_cons hn hd⟩

/-- A value that is what it is outside the store, too. -/
def Stays (v : Value) : Prop := ∀ s : Store, keep v s = .ok (v, s)

theorem stays_str (t : Text) : Stays (.str t) := fun _ => rfl

theorem stays_bool (x : Bool) : Stays (.bool x) := fun _ => rfl

/-- Data can always be moved into the store. -/
theorem keepNamed_ok : ∀ (named : List (Text × Value)) (s : Store), ∃ kept cells,
    (named.mapM fun (n, v) => do return (n, ← keep v) : Run (List (Text × Value))) s =
      .ok (kept, { s with cells }) ∧
    ∀ n v, Stays v → named? n named = some v → named? n kept = some v
  | [], s => ⟨_, s.cells, rfl, fun _ _ _ h => h⟩
  | (n, v) :: named, s => by
      obtain ⟨w, cells, h⟩ := keep_ok v s
      obtain ⟨ws, cells', h', values⟩ := keepNamed_ok named { s with cells }
      have hn : (do return (n, ← keep v) : Run (Text × Value)) s = .ok ((n, w), { s with cells }) :=
        (run_bind h).trans rfl
      refine ⟨(n, w) :: ws, cells', ?_, fun m x hx hm => ?_⟩
      · rw [List.mapM_cons]
        exact (run_bind hn).trans ((run_bind h').trans rfl)
      · unfold named? at hm values ⊢
        rw [List.find?_cons] at hm ⊢
        split at hm
        · next e =>
          obtain rfl : v = x := Option.some.inj hm
          obtain ⟨rfl, -⟩ := Prod.mk.inj (Except.ok.inj ((hx s).symm.trans h))
          rw [e]
          rfl
        · next e =>
          rw [e]
          exact values m x hx hm

/-- A computation gives the same with any data under names if it does so for whatever the data are
in a store without anything set, as far as the values that stay what they are have their names. -/
theorem withData_ok {α : Type} {data : List (Value × Value)} {named : List (Text × Value)}
    (hd : namedData data = .ok named) {run : List (Text × Value) → Run α} {a : α}
    (h : ∀ kept (s : Store), s.exported = [] →
      (∀ n v, Stays v → named? n named = some v → named? n kept = some v) →
      ∃ s', run kept s = .ok (a, s')) : withData data run = .ok a := by
  obtain ⟨kept, cells, hk, values⟩ := keepNamed_ok named {}
  obtain ⟨s', hr⟩ := h kept { cells } rfl values
  let all : Run α := do run (← named.mapM fun (n, v) => do return (n, ← keep v))
  have hall : all {} = .ok (a, s') := (run_bind hk).trans hr
  unfold withData
  rw [hd]
  exact congrArg (fun r => Except.bind r fun p => .ok p.1) hall

/-- **Data is printed as it is**, with any data under names. -/
theorem render_data (t : Text) (guarded : Bool) {data : List (Value × Value)} (hn : Named data) :
    (Compiled.mk (dataNodes t) [] guarded).render data = .ok t := by
  obtain ⟨named, hd⟩ := namedData_ok hn
  refine withData_ok hd fun kept s _ _ => ?_
  cases t with
  | nil => exact ⟨_, rfl⟩
  | cons c r =>
      obtain ⟨s', h⟩ : ∃ s', (do
          let g : Program := { guarded, data := kept }
          let s ← topSetting [] (Scope.ofBody [] [] [.data (c :: r)])
          runNodes g (machine g runDepth) s [.data (c :: r)] : Run Text) s =
            .ok (c :: r ++ [], s') := ⟨_, rfl⟩
      rw [List.append_nil] at h
      exact ⟨s', h⟩

end Pagewright.Template
