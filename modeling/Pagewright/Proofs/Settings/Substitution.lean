import Pagewright.Proofs.Settings.Override
import Pagewright.Proofs.Text.Parted
import Pagewright.Settings.Substitution

/-! # Replacing references to environment variables

A reference can be written in four ways (`Written`), and a text is read from left to right as references
and characters at which none begins (`Reads`).  Replacing goes over this reading once (`filled`), so
what is put in is never read.  It fails exactly if some text of the tree, at whatever depth, has a
reference that is missing (`Missing`), and otherwise leaves everything but the texts as it is
(`Substituted`, `substitute_spec`).

Main definitions: `Written`, `Reads`, `Missing`, `filled`, `HasText`, `Substituted`. -/

/-! ## References as they are written

Main definitions: `VariableName`, `Written`. -/

namespace Pagewright.Substitution

open Text

/-- A letter, a digit or an underscore. -/
def isNameChar (c : Char) : Bool := isAsciiLetter c || isAsciiDigit c || c == '_'

/-- The name of a variable: it does not start with a digit. -/
structure VariableName (n : Text) : Prop where
  start : ∃ c, n.head? = some c ∧ (isAsciiLetter c || c == '_') = true
  chars : ∀ c ∈ n, isNameChar c = true

/-- A reference with a name and what stands behind the name. -/
def spelt (n tail : Text) : Text := "$\x7b" ++ n ++ tail ++ "\x7d"

/-- References as they can be written, and what they say about a variable that is not set. -/
inductive Written : VariableReference → Prop
  /-- Nothing is said, and the reference stays. -/
  | plain {n : Text} (hn : VariableName n) : Written ⟨n, .keep, spelt n []⟩
  /-- A default behind a colon. -/
  | colon {n d : Text} (hn : VariableName n) (closed : '\x7d' ∉ d)
      (bare : d.head? ≠ some '-' ∧ d.head? ≠ some '?') : Written ⟨n, .default d, spelt n (':' :: d)⟩
  /-- A default behind a colon and a hyphen. -/
  | hyphen {n d : Text} (hn : VariableName n) (closed : '\x7d' ∉ d) :
      Written ⟨n, .default d, spelt n (':' :: '-' :: d)⟩
  /-- The variable has to be set, with a message if it is not. -/
  | question {n m : Text} (hn : VariableName n) (closed : '\x7d' ∉ m) :
      Written ⟨n, .fail (if m.isEmpty then n ++ " is required" else m), spelt n (':' :: '?' :: m)⟩

/-! ### The recogniser -/

/-- A reference with a text behind a colon. -/
def tailed (n body : Text) : VariableReference := ⟨n, unsetOf n body, spelt n (':' :: body)⟩

theorem written_tailed {n body : Text} (hn : VariableName n) (closed : '\x7d' ∉ body) :
    Written (tailed n body) := by
  unfold tailed unsetOf
  split
  · exact .question hn fun h => closed (List.mem_cons_of_mem _ h)
  · exact .hyphen hn fun h => closed (List.mem_cons_of_mem _ h)
  · next question hyphen =>
    refine .colon hn closed ⟨fun h => ?_, fun h => ?_⟩
    · obtain ⟨d, rfl⟩ := List.head?_eq_some_iff.mp h
      exact hyphen d rfl
    · obtain ⟨d, rfl⟩ := List.head?_eq_some_iff.mp h
      exact question d rfl

/-- A reference ends with its name, or has a text behind a colon. -/
theorem Written.cases {r : VariableReference} (h : Written r) :
    (∃ n, VariableName n ∧ r = ⟨n, .keep, spelt n []⟩) ∨
      ∃ n body, VariableName n ∧ '\x7d' ∉ body ∧ r = tailed n body := by
  cases h with
  | @plain n hn => exact Or.inl ⟨n, hn, rfl⟩
  | @colon n d hn closed bare =>
    have unset : unsetOf n d = .default d := by
      unfold unsetOf
      split
      · exact absurd rfl bare.2
      · exact absurd rfl bare.1
      · rfl
    exact Or.inr ⟨n, d, hn, closed, by rw [tailed, unset]⟩
  | @hyphen n d hn closed =>
    exact Or.inr ⟨n, '-' :: d, hn, List.not_mem_cons_of_ne_of_not_mem (by decide) closed, rfl⟩
  | @question n m hn closed =>
    exact Or.inr ⟨n, '?' :: m, hn, List.not_mem_cons_of_ne_of_not_mem (by decide) closed, rfl⟩

theorem shown_ne_nil {r : VariableReference} (h : Written r) : r.shown ≠ [] := by
  cases h <;> exact List.cons_ne_nil _ _

theorem takeWhile_name {n : Text} (hn : VariableName n) {c : Char} (hc : isNameChar c = false)
    (r : Text) : (n ++ c :: r).takeWhile isNameChar = n := by
  rw [List.takeWhile_append_of_pos hn.chars,
    List.takeWhile_cons_of_neg (Bool.eq_false_iff.mp hc), List.append_nil]

theorem variableName_takeWhile {t : Text} {c : Char} (hc : t.head? = some c)
    (start : (isAsciiLetter c || c == '_') = true) : VariableName (t.takeWhile isNameChar) where
  start := by
    obtain ⟨r, rfl⟩ := List.head?_eq_some_iff.mp hc
    have first : isNameChar c = true := by
      simp only [isNameChar, Bool.or_eq_true] at start ⊢
      exact start.imp_left Or.inl
    exact ⟨c, by rw [List.takeWhile_cons_of_pos first, List.head?_cons], start⟩
  chars := fun d hd => List.all_eq_true.mp List.all_takeWhile d hd

theorem length_spelt (n tail : Text) : (spelt n tail).length = n.length + tail.length + 3 := by
  simp only [spelt, List.length_append]
  have opening : ("$\x7b".toList).length = 2 := rfl
  have closing : ("\x7d".toList).length = 1 := rfl
  omega

theorem spelt_append (n tail r : Text) :
    spelt n tail ++ r = "$\x7b" ++ (n ++ (tail ++ '\x7d' :: r)) := by
  simp only [spelt, List.append_assoc]
  rfl

theorem take_spelt (n tail r : Text) :
    ("$\x7b" ++ (n ++ (tail ++ '\x7d' :: r))).take (n.length + tail.length + 3) = spelt n tail := by
  rw [← spelt_append, ← length_spelt, List.take_left]

/-- What can be written is recognised. -/
theorem reference?_shown {r : VariableReference} (h : Written r) (rest : Text) :
    reference? (r.shown ++ rest) = some (r, r.shown.length) := by
  have guard {n : Text} (hn : VariableName n) (tail : Text) : ∃ c, (n ++ tail).head? = some c ∧
      (!(isAsciiLetter c || c == '_')) = false := by
    obtain ⟨c, hc, start⟩ := hn.start
    exact ⟨c, by rw [List.head?_append, hc]; rfl, by rw [start]; rfl⟩
  obtain ⟨n, hn, rfl⟩ | ⟨n, body, hn, closed, rfl⟩ := h.cases
  · obtain ⟨c, hc, start⟩ := guard hn ('\x7d' :: rest)
    have name := takeWhile_name hn (by decide : isNameChar '\x7d' = false) rest
    have taken := take_spelt n [] rest
    unfold isNameChar at name
    rw [List.nil_append] at taken
    rw [spelt_append, reference?, dropLead?_append, List.nil_append]
    simp only [Option.bind_eq_bind, Option.bind_some, hc, start, name, List.drop_left,
      Bool.false_eq_true, if_false]
    rw [length_spelt, ← taken]
    rfl
  · obtain ⟨c, hc, start⟩ := guard hn (':' :: (body ++ '\x7d' :: rest))
    have name := takeWhile_name hn (by decide : isNameChar ':' = false) (body ++ '\x7d' :: rest)
    have taken := take_spelt n (':' :: body) rest
    have cut : cutAt? "\x7d" (body ++ '\x7d' :: rest) = some (body, rest) := cutAt?_char rest closed
    unfold isNameChar at name
    rw [tailed, spelt_append, reference?, dropLead?_append, List.cons_append]
    simp only [Option.bind_eq_bind, Option.bind_some, hc, start, name, List.drop_left,
      Bool.false_eq_true, if_false, cut]
    have length : n.length + body.length + 4 = n.length + (':' :: body).length + 3 := by
      rw [List.length_cons]
      omega
    rw [length_spelt, ← taken, length]
    rfl

/-- Where something is recognised, something stands as it can be written. -/
theorem exists_written {t : Text} {found : VariableReference × Nat} (h : reference? t = some found) :
    ∃ r, Written r ∧ r.shown <+: t := by
  obtain ⟨rest, lead, opened⟩ := Option.bind_eq_some_iff.mp h
  obtain ⟨c, hc, named⟩ := Option.bind_eq_some_iff.mp opened
  obtain rfl := eq_append_of_dropLead? lead
  cases start : isAsciiLetter c || c == '_' with
  | false =>
    rw [start] at named
    cases named
  | true =>
    have hn : VariableName (rest.takeWhile isNameChar) := variableName_takeWhile hc start
    obtain ⟨behind, parts⟩ : rest.takeWhile isNameChar <+: rest := List.takeWhile_prefix _
    rw [start] at named
    have name : (rest.takeWhile fun c => isAsciiLetter c || isAsciiDigit c || c == '_') =
        rest.takeWhile isNameChar := rfl
    simp only [Bool.not_true, Bool.false_eq_true, if_false, name] at named
    generalize rest.takeWhile isNameChar = n at hn parts named
    obtain rfl := parts
    rw [List.drop_left] at named
    split at named
    · next after => exact ⟨_, .plain hn, after, spelt_append n [] after⟩
    · next after =>
      obtain ⟨cut, e, -⟩ := Option.bind_eq_some_iff.mp named
      have closing : '\x7d' ∈ after := by rw [eq_of_cutAt? e]; simp
      obtain ⟨body, r, rfl, closed⟩ := List.eq_append_cons_of_mem closing
      exact ⟨_, written_tailed hn closed, r, spelt_append n (':' :: body) r⟩
    · cases named

/-- **What is recognised is what can be written**, from its beginning to its end. -/
theorem reference?_eq_some {t : Text} {r : VariableReference} {k : Nat} :
    reference? t = some (r, k) ↔ Written r ∧ r.shown <+: t ∧ k = r.shown.length := by
  constructor
  · intro h
    obtain ⟨r', written, rest, rfl⟩ := exists_written h
    rw [reference?_shown written] at h
    obtain ⟨rfl, rfl⟩ := Prod.mk.inj (Option.some.inj h)
    exact ⟨written, List.prefix_append _ _, rfl⟩
  · rintro ⟨written, ⟨rest, rfl⟩, rfl⟩
    exact reference?_shown written rest

theorem reference?_eq_none {t : Text} :
    reference? t = none ↔ ∀ r, Written r → ¬ r.shown <+: t := by
  constructor
  · rintro h r written shown
    have found := reference?_eq_some.mpr ⟨written, shown, rfl⟩
    rw [h] at found
    cases found
  · intro h
    refine Option.eq_none_iff_forall_ne_some.mpr fun found e => ?_
    obtain ⟨r, written, shown⟩ := exists_written e
    exact h r written shown

end Pagewright.Substitution

/-! ## Reading a text

Main definitions: `Reads`, `filled`. -/

namespace Pagewright.Substitution

open Text

/-- A text as references and other characters, from left to right: where a reference begins, it is read
whole, and what follows it is read on. -/
inductive Reads : Text → List (Char ⊕ VariableReference) → Prop
  | nil : Reads [] []
  | char {c : Char} {t : Text} {ps : List (Char ⊕ VariableReference)}
      (other : ∀ r, Written r → ¬ r.shown <+: c :: t) (rest : Reads t ps) :
      Reads (c :: t) (.inl c :: ps)
  | reference {r : VariableReference} {t : Text} {ps : List (Char ⊕ VariableReference)}
      (written : Written r) (rest : Reads t ps) : Reads (r.shown ++ t) (.inr r :: ps)

/-- What is put in for a reference: the value of the variable, or the default, or the reference. -/
def value (env : List (Text × Text)) (r : VariableReference) : Text :=
  match env.lookup r.name, r.unset with
  | some t, _ => t
  | none, .default t => t
  | none, _ => r.shown

/-- A text that was read, with what is put in for the references. -/
def filled (env : List (Text × Text)) (ps : List (Char ⊕ VariableReference)) : Text :=
  ps.flatMap fun
    | .inl c => [c]
    | .inr r => value env r

/-! ### The scan -/

/-- A piece of a scan, as a part of the text. -/
def part : Piece VariableReference → Char ⊕ VariableReference
  | .char c => .inl c
  | .hit r _ _ => .inr r

/-- What the scan finds is the reading of a text. -/
theorem reads_piecesFrom (pos : Nat) (t : Text) :
    Reads t ((piecesFrom reference? pos 0 t).map part) := by
  -- A reference is stepped over whole, so the induction is on the length of what is left.
  induction hn : t.length using Nat.strong_induction_on generalizing pos t with
  | _ n ih =>
    cases t with
    | nil => exact .nil
    | cons c t =>
      cases found : reference? (c :: t) with
      | none =>
        rw [piecesFrom_char pos found]
        exact .char (reference?_eq_none.mp found) (ih t.length (by rw [← hn]; simp) (pos + 1) t rfl)
      | some hit =>
        obtain ⟨r, k⟩ := hit
        obtain ⟨written, ⟨rest, whole⟩, rfl⟩ := reference?_eq_some.mp found
        have given := shown_ne_nil written
        have shorter : rest.length < n := by
          have longer := List.length_pos_iff.mpr given
          rw [← hn, ← whole, List.length_append]
          omega
        rw [← whole] at found ⊢
        rw [piecesFrom_hit reference? pos given found]
        exact .reference written (ih rest.length shorter _ rest rfl)

/-- There is one reading of a text. -/
theorem Reads.eq_pieces {t : Text} {ps : List (Char ⊕ VariableReference)} (h : Reads t ps) :
    ∀ pos, ps = (piecesFrom reference? pos 0 t).map part := by
  induction h with
  | nil => exact fun _ => rfl
  | char other rest ih =>
    intro pos
    rw [piecesFrom_char pos (reference?_eq_none.mpr other), List.map_cons, ← ih]
    rfl
  | reference written rest ih =>
    intro pos
    rw [piecesFrom_hit reference? pos (shown_ne_nil written) (reference?_shown written _),
      List.map_cons, ← ih]
    rfl

theorem reads_unique {t : Text} {ps qs : List (Char ⊕ VariableReference)} (h : Reads t ps)
    (h' : Reads t qs) : ps = qs :=
  (h.eq_pieces 0).trans (h'.eq_pieces 0).symm

/-- A reference alone is read as such. -/
theorem reads_shown {r : VariableReference} (h : Written r) : Reads r.shown [.inr r] := by
  have alone := Reads.reference h .nil
  rwa [List.append_nil] at alone

theorem Reads.eq_shown {r : VariableReference} {t : Text} (h : Reads t [.inr r]) :
    Written r ∧ t = r.shown := by
  cases h with
  | reference written rest =>
    cases rest
    exact ⟨written, List.append_nil _⟩

/-- A text without references is filled with itself. -/
theorem Reads.filled_eq {env : List (Text × Text)} {t : Text} {ps : List (Char ⊕ VariableReference)}
    (h : Reads t ps) (chars : ∀ r, .inr r ∉ ps) : filled env ps = t := by
  induction h with
  | nil => rfl
  | char other rest ih =>
    exact congrArg (_ :: ·) (ih fun r hr => chars r (List.mem_cons_of_mem _ hr))
  | reference written rest ih => exact absurd List.mem_cons_self (chars _)

end Pagewright.Substitution

/-! ## Replacing

Main definitions: `Missing`, `HasText`, `Substituted`. -/

namespace Pagewright.Substitution

open Text

variable {env : List (Text × Text)} {strict : Bool}

/-- A reference to a variable that is not set, although it has to be: it says so itself, or every
variable has to be. -/
def Missing (env : List (Text × Text)) (strict : Bool) (r : VariableReference) : Prop :=
  env.lookup r.name = none ∧ (strict = true ∨ ∃ m, r.unset = .fail m)

/-- A text with a reference that is missing. -/
def Broken (env : List (Text × Text)) (strict : Bool) (t : Text) : Prop :=
  ∃ ps r, Reads t ps ∧ .inr r ∈ ps ∧ Missing env strict r

/-! ### One reference -/

theorem resolve_ok {r : VariableReference} (h : ¬ Missing env strict r) :
    resolve env strict r = .ok (value env r) := by
  unfold resolve value
  cases found : env.lookup r.name with
  | some t => rfl
  | none =>
    have lax : strict = false := by
      rw [Bool.eq_false_iff]
      exact fun hs => h ⟨found, Or.inl hs⟩
    cases hu : r.unset with
    | keep => simp [lax]
    | default t => simp [lax]
    | fail m => exact absurd ⟨found, Or.inr ⟨m, hu⟩⟩ h

theorem resolve_error {r : VariableReference} (h : Missing env strict r) :
    ∃ f, resolve env strict r = .error f := by
  obtain ⟨found, required⟩ := h
  unfold resolve
  rw [found]
  cases hu : r.unset with
  | keep => exact ⟨.unset r.name, by simpa [hu] using required⟩
  | default t => exact ⟨.noDefaults r.name, by simpa [hu] using required⟩
  | fail m => exact ⟨.required r.name m, rfl⟩

/-! ### One text -/

theorem resolvePieces_ok : ∀ {ps : List (Piece VariableReference)},
    (∀ r, .inr r ∈ ps.map part → ¬ Missing env strict r) →
      resolvePieces env strict ps = .ok (filled env (ps.map part))
  | [], _ => rfl
  | .char c :: ps, h => by
    rw [resolvePieces, resolvePieces_ok fun r hr => h r (List.mem_cons_of_mem _ hr)]
    rfl
  | .hit r _ _ :: ps, h => by
    rw [resolvePieces, resolve_ok (h r List.mem_cons_self),
      resolvePieces_ok fun r hr => h r (List.mem_cons_of_mem _ hr)]
    rfl

theorem resolvePieces_error {r : VariableReference} (missing : Missing env strict r) :
    ∀ {ps : List (Piece VariableReference)}, .inr r ∈ ps.map part →
      ∃ f, resolvePieces env strict ps = .error f
  | .char c :: ps, h => by
    obtain e | h := List.mem_cons.mp h
    · cases e
    · obtain ⟨f, e⟩ := resolvePieces_error missing h
      exact ⟨f, by rw [resolvePieces, e]; rfl⟩
  | .hit r' _ _ :: ps, h => by
    cases first : resolve env strict r' with
    | error f => exact ⟨f, by rw [resolvePieces, first]; rfl⟩
    | ok t =>
      obtain e | h := List.mem_cons.mp h
      · obtain ⟨f, hf⟩ := resolve_error missing
        cases e
        rw [first] at hf
        cases hf
      · obtain ⟨f, e⟩ := resolvePieces_error missing h
        exact ⟨f, by rw [resolvePieces, first, e]; rfl⟩

theorem isReference_iff {t : Text} : isReference t = true ↔ ∃ r, Written r ∧ t = r.shown := by
  unfold isReference
  constructor
  · intro h
    split at h
    · next r k found =>
      obtain ⟨written, ⟨rest, rfl⟩, rfl⟩ := reference?_eq_some.mp found
      have nothing : rest = [] := by simpa using h
      exact ⟨r, written, by rw [nothing, List.append_nil]⟩
    · cases h
  · rintro ⟨r, written, rfl⟩
    have found := reference?_shown written []
    rw [List.append_nil] at found
    rw [found]
    simp

/-- What becomes of the values of a tree.  Keys, and values without texts, stay as they are. -/
inductive Substituted (env : List (Text × Text)) : Value → Value → Prop
  /-- A text without references. -/
  | plain {t : Text} {ps : List (Char ⊕ VariableReference)} (h : Reads t ps)
      (chars : ∀ r, .inr r ∉ ps) : Substituted env (.str t) (.str t)
  /-- A text with references, unless it is a single one and changes. -/
  | text {t : Text} {ps : List (Char ⊕ VariableReference)} (h : Reads t ps)
      (reference : ∃ r, .inr r ∈ ps) (same : ∀ r, ps = [.inr r] → value env r = t) :
      Substituted env (.str t) (.str (filled env ps))
  /-- A single reference, whose text may look like a truth value or a number. -/
  | single {r : VariableReference} (written : Written r) (changed : value env r ≠ r.shown) :
      Substituted env (.str r.shown) (coerce (value env r))
  | list {xs ys : List Value} (h : List.Forall₂ (Substituted env) xs ys) :
      Substituted env (.list xs) (.list ys)
  | dict {es fs : List (Value × Value)} (keys : fs.map Prod.fst = es.map Prod.fst)
      (values : List.Forall₂ (Substituted env) (es.map Prod.snd) (fs.map Prod.snd)) :
      Substituted env (.dict es) (.dict fs)
  | other {v : Value} (no_str : ∀ t, v ≠ .str t) (no_list : ∀ xs, v ≠ .list xs)
      (no_dict : ∀ es, v ≠ .dict es) : Substituted env v v

theorem inText_error_iff {t : Text} :
    (∃ f, inText env strict t = .error f) ↔ Broken env strict t := by
  have reading : Reads t ((pieces reference? t).map part) := reads_piecesFrom 0 t
  constructor
  · rintro ⟨f, h⟩
    by_contra whole
    have resolved : ∀ r, .inr r ∈ (pieces reference? t).map part → ¬ Missing env strict r :=
      fun r hr missing => whole ⟨_, r, reading, hr, missing⟩
    rw [inText, resolvePieces_ok resolved] at h
    cases h
  · rintro ⟨ps, r, h, hr, missing⟩
    obtain rfl := reads_unique h reading
    obtain ⟨f, e⟩ := resolvePieces_error missing hr
    exact ⟨f, by rw [inText, e]; rfl⟩

theorem inText_ok {t : Text} {w : Value} (h : inText env strict t = .ok w) :
    Substituted env (.str t) w := by
  have reading : Reads t ((pieces reference? t).map part) := reads_piecesFrom 0 t
  have resolved : ∀ r, .inr r ∈ (pieces reference? t).map part → ¬ Missing env strict r := by
    intro r hr missing
    obtain ⟨f, e⟩ := inText_error_iff.mpr ⟨_, r, reading, hr, missing⟩
    rw [h] at e
    cases e
  rw [inText, resolvePieces_ok resolved] at h
  generalize (pieces reference? t).map part = ps at reading h
  obtain rfl := Except.ok.inj h
  cases alone : isReference t with
  | true =>
    obtain ⟨r, written, rfl⟩ := isReference_iff.mp alone
    obtain rfl := reads_unique reading (reads_shown written)
    have put : filled env [.inr r] = value env r := List.append_nil _
    rw [put]
    by_cases changed : value env r = r.shown
    · have same : Substituted env (.str r.shown) (.str (filled env [.inr r])) :=
        .text reading ⟨r, List.mem_cons_self⟩ fun r' e => by
          cases e
          exact changed
      rw [put] at same
      simpa [changed] using same
    · simpa [changed] using Substituted.single written changed
  | false =>
    by_cases reference : ∃ r, .inr r ∈ ps
    · refine .text reading reference fun r e => ?_
      obtain ⟨written, shown⟩ := (e ▸ reading).eq_shown
      rw [isReference_iff.mpr ⟨r, written, shown⟩] at alone
      cases alone
    · have chars : ∀ r, .inr r ∉ ps := fun r hr => reference ⟨r, hr⟩
      rw [reading.filled_eq chars]
      exact .plain reading chars

end Pagewright.Substitution

namespace Pagewright

open Text Substitution

variable {env : List (Text × Text)} {strict : Bool}

/-! ### Trees -/

/-- A text stands somewhere in a tree, but not in a key. -/
inductive HasText (t : Text) : Value → Prop
  | here : HasText t (.str t)
  | item {x : Value} {xs : List Value} (h : x ∈ xs) (ht : HasText t x) : HasText t (.list xs)
  | entry {e : Value × Value} {es : List (Value × Value)} (h : e ∈ es) (ht : HasText t e.2) :
      HasText t (.dict es)

theorem substituteAll_error_iff : ∀ {xs : List Value},
    (∃ f, substituteAll env strict xs = .error f) ↔ ∃ x ∈ xs, ∃ f, substitute env strict x = .error f
  | [] => iff_of_false (fun ⟨f, e⟩ => by cases e) (by simp)
  | x :: xs => by
    simp only [List.mem_cons, exists_eq_or_imp]
    rw [substituteAll, ← substituteAll_error_iff]
    cases substitute env strict x with
    | error f => exact iff_of_true ⟨f, rfl⟩ (Or.inl ⟨f, rfl⟩)
    | ok w => cases substituteAll env strict xs <;> simp [bind, Except.bind, pure, Except.pure]

theorem substituteAll_ok : ∀ {xs ys : List Value},
    (∀ x ∈ xs, ∀ y, substitute env strict x = .ok y → Substituted env x y) →
      substituteAll env strict xs = .ok ys → List.Forall₂ (Substituted env) xs ys
  | [], ys, _, h => by
    cases h
    exact .nil
  | x :: xs, ys, each, h => by
    obtain ⟨first, others⟩ := List.forall_mem_cons.mp each
    rw [substituteAll] at h
    obtain ⟨y, hy, h⟩ := bind_eq_ok.mp h
    obtain ⟨rest, hrest, h⟩ := bind_eq_ok.mp h
    cases h
    exact .cons (first y hy) (substituteAll_ok others hrest)

/-- The entries of a mapping keep their keys. -/
theorem substituteEntries_eq : ∀ es : List (Value × Value), substituteEntries env strict es =
    (substituteAll env strict (es.map Prod.snd)).map ((es.map Prod.fst).zip ·)
  | [] => rfl
  | (k, v) :: es => by
    rw [substituteEntries, substituteEntries_eq es]
    simp only [List.map_cons, substituteAll]
    cases substitute env strict v with
    | error f => rfl
    | ok w => cases substituteAll env strict (es.map Prod.snd) <;> rfl

theorem substituteEntries_error_iff {es : List (Value × Value)} :
    (∃ f, substituteEntries env strict es = .error f) ↔
      ∃ e ∈ es, ∃ f, substitute env strict e.2 = .error f := by
  have values : (∃ f, substituteAll env strict (es.map Prod.snd) = .error f) ↔
      ∃ e ∈ es, ∃ f, substitute env strict e.2 = .error f := by
    simp only [substituteAll_error_iff, List.mem_map, exists_exists_and_eq_and]
  rw [substituteEntries_eq]
  rw [← values]
  cases substituteAll env strict (es.map Prod.snd) <;> simp [Except.map]

/-- A tree is replaced exactly if each of its parts is. -/
theorem substitute_list_error_iff {xs : List Value} :
    (∃ f, substitute env strict (.list xs) = .error f) ↔
      ∃ x ∈ xs, ∃ f, substitute env strict x = .error f := by
  rw [← substituteAll_error_iff, substitute]
  cases substituteAll env strict xs <;> simp [bind, Except.bind, pure, Except.pure]

theorem substitute_dict_error_iff {es : List (Value × Value)} :
    (∃ f, substitute env strict (.dict es) = .error f) ↔
      ∃ e ∈ es, ∃ f, substitute env strict e.2 = .error f := by
  rw [← substituteEntries_error_iff, substitute]
  cases substituteEntries env strict es <;> simp [bind, Except.bind, pure, Except.pure]

theorem substituteEntries_ok {es fs : List (Value × Value)}
    (each : ∀ e ∈ es, ∀ y, substitute env strict e.2 = .ok y → Substituted env e.2 y)
    (h : substituteEntries env strict es = .ok fs) : fs.map Prod.fst = es.map Prod.fst ∧
      List.Forall₂ (Substituted env) (es.map Prod.snd) (fs.map Prod.snd) := by
  rw [substituteEntries_eq] at h
  obtain ⟨ys, hys, rfl⟩ := map_eq_ok.mp h
  have values := substituteAll_ok (List.forall_mem_map.mpr each) hys
  have length : (es.map Prod.fst).length = ys.length := by
    rw [← values.length_eq, List.length_map, List.length_map]
  rw [List.map_fst_zip length.le, List.map_snd_zip length.ge]
  exact ⟨rfl, values⟩

/-- What holds of texts and values without parts, and of lists and mappings of values of which it holds,
holds of every tree. -/
theorem tree_induction {P : Value → Prop} (text : ∀ t, P (.str t))
    (list : ∀ xs, (∀ x ∈ xs, P x) → P (.list xs))
    (dict : ∀ es : List (Value × Value), (∀ e ∈ es, P e.2) → P (.dict es))
    (other : ∀ v, (∀ t, v ≠ .str t) → (∀ xs, v ≠ .list xs) → (∀ es, v ≠ .dict es) → P v) (v : Value) :
    P v := by
  induction hn : sizeOf v using Nat.strong_induction_on generalizing v with
  | _ n ih =>
    cases v with
    | str t => exact text t
    | list xs =>
      refine list xs fun x hx => ih (sizeOf x) ?_ x rfl
      have smaller := List.sizeOf_lt_of_mem hx
      rw [← hn, Value.list.sizeOf_spec]
      omega
    | dict es =>
      refine dict es fun e he => ih (sizeOf e.2) ?_ e.2 rfl
      have smaller := List.sizeOf_lt_of_mem he
      obtain ⟨k, w⟩ := e
      rw [Prod.mk.sizeOf_spec] at smaller
      rw [← hn, Value.dict.sizeOf_spec]
      change sizeOf w < 1 + sizeOf es
      omega
    | _ => exact other _ nofun nofun nofun

theorem substitute_other {v : Value} (no_str : ∀ t, v ≠ .str t) (no_list : ∀ xs, v ≠ .list xs)
    (no_dict : ∀ es, v ≠ .dict es) : substitute env strict v = .ok v := by
  cases v with
  | str t => exact absurd rfl (no_str t)
  | list xs => exact absurd rfl (no_list xs)
  | dict es => exact absurd rfl (no_dict es)
  | _ => rfl

/-- Replacing fails exactly if a reference of some text is missing. -/
theorem substitute_error_iff (v : Value) : (∃ f, substitute env strict v = .error f) ↔
    ∃ t, HasText t v ∧ Broken env strict t := by
  induction v using tree_induction with
  | text t =>
    rw [substitute, inText_error_iff]
    constructor
    · exact fun h => ⟨t, .here, h⟩
    · rintro ⟨u, ht, h⟩
      cases ht
      exact h
  | list xs ih =>
    rw [substitute_list_error_iff]
    constructor
    · rintro ⟨x, hx, h⟩
      obtain ⟨t, ht, broken⟩ := (ih x hx).mp h
      exact ⟨t, .item hx ht, broken⟩
    · rintro ⟨t, ht, broken⟩
      cases ht with
      | item hx ht => exact ⟨_, hx, (ih _ hx).mpr ⟨t, ht, broken⟩⟩
  | dict es ih =>
    rw [substitute_dict_error_iff]
    constructor
    · rintro ⟨e, he, h⟩
      obtain ⟨t, ht, broken⟩ := (ih e he).mp h
      exact ⟨t, .entry he ht, broken⟩
    · rintro ⟨t, ht, broken⟩
      cases ht with
      | entry he ht => exact ⟨_, he, (ih _ he).mpr ⟨t, ht, broken⟩⟩
  | other v no_str no_list no_dict =>
    refine iff_of_false ?_ ?_
    · rintro ⟨f, h⟩
      rw [substitute_other no_str no_list no_dict] at h
      cases h
    · rintro ⟨t, ht, -⟩
      cases ht with
      | here => exact no_str t rfl
      | item => exact no_list _ rfl
      | entry => exact no_dict _ rfl

theorem substitute_ok (v : Value) : ∀ {w}, substitute env strict v = .ok w → Substituted env v w := by
  induction v using tree_induction with
  | text t =>
    intro w h
    rw [substitute] at h
    exact inText_ok h
  | list xs ih =>
    intro w h
    rw [substitute] at h
    obtain ⟨ys, hys, h⟩ := bind_eq_ok.mp h
    cases h
    exact .list (substituteAll_ok (fun x hx y => ih x hx) hys)
  | dict es ih =>
    intro w h
    rw [substitute] at h
    obtain ⟨fs, hfs, h⟩ := bind_eq_ok.mp h
    cases h
    obtain ⟨keys, values⟩ := substituteEntries_ok (fun e he y => ih e he) hfs
    exact .dict keys values
  | other v no_str no_list no_dict =>
    intro w h
    rw [substitute_other no_str no_list no_dict] at h
    cases h
    exact .other no_str no_list no_dict

/-- **References are replaced throughout a tree, once each.**  It fails exactly if a text somewhere in
the tree has a reference to a variable that is not set although it has to be; otherwise the tree keeps
its shape and its keys, and only texts with references change. -/
theorem substitute_spec (env : List (Text × Text)) (strict : Bool) (v : Value) :
    ((∃ f, substitute env strict v = .error f) ↔ ∃ t, HasText t v ∧ Broken env strict t) ∧
      ∀ w, substitute env strict v = .ok w → Substituted env v w :=
  ⟨substitute_error_iff v, fun _ => substitute_ok v⟩

example : substitute [("A".toList, "$\x7bB\x7d".toList)] false
    (.list [.str "$\x7bA\x7d, $\x7bB:-2\x7d", .str "$\x7bB:-2\x7d"]) =
      .ok (.list [.str "$\x7bB\x7d, 2", .int 2]) := by
  rfl

end Pagewright
