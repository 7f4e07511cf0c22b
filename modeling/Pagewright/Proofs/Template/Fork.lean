import Pagewright.Proofs.Template.Press
import Pagewright.Proofs.Template.Statement

/-! # A fork

A template that forks to one of two texts by the value of a name is compiled to one conditional with
data in front of it, in both branches and behind it (`compile_fork`), and prints the text in front,
that of the branch, and the text behind (`render_forkNodes`).

Main definitions: `fork`, `forkNodes`. -/

namespace Pagewright.Template

open Text

/-- Open text, one of two open texts by the value named `c`, and open text. -/
def fork (p a b q : Text) : Text :=
  statements p [(["if", "c"], a), (["else"], b), (["endif"], q)]

/-- Open texts of which none in front of a tag runs into it make a fork. -/
theorem stated_fork {p a b q : Text} (opened : ∀ t ∈ [p, a, b, q], Unopened t)
    (closed : ∀ t ∈ [p, a, b], t.getLast? ≠ some '\x7b') :
    Stated p [(["if", "c"], a), (["else"], b), (["endif"], q)] := by
  simp only [List.forall_mem_cons, List.not_mem_nil, false_implies, implies_true, and_true]
    at opened closed
  obtain ⟨hp, ha, hb, hq⟩ := opened
  obtain ⟨lp, la, lb⟩ := closed
  have condition : Wording ["if", "c"] := ⟨by decide, _, _, rfl, by decide⟩
  have otherwise : Wording ["else"] := ⟨by decide, _, _, rfl, by decide⟩
  have last : Wording ["endif"] := ⟨by decide, _, _, rfl, by decide⟩
  exact ⟨hp, lp, condition, ha, la, otherwise, hb, lb, last, hq⟩

/-! ### Reading -/

/-- Behind the opening of a tag comes a statement, or the end of the nodes. -/
theorem nodesFrom_tagOpen (g : Grammar) (ends : Option (List Text)) (fuel l : Nat) {us : List Token}
    (hr : Readable us) (tags : List Text) (waiting : List (List Text)) :
    nodesFrom g ends (fuel + 1) ⟨⟨l, .tagOpen⟩ :: us, tags, waiting⟩ = (do
        if ← atEnd ends then return []
        let nodes ← statement g
        expectTagClose
        return nodes ++ (← nodesFrom g ends fuel) : Reader (List Node)) ⟨us, tags, waiting⟩ := by
  have passed := next_ok (t := ⟨l, .tagOpen⟩) nofun hr tags waiting
  exact (show _ = (next >>= fun _ => _ : Reader (List Node)) _ from rfl).trans (read_bind passed)

/-- Pieces of data in front of a tag that ends them. -/
theorem nodesUntil_data (g : Grammar) {ends : List Text} {texts : List Text} {ts : List Token}
    (h : Spells ts texts) (rest : List Token) (l l' : Nat) {n : Text} (hn : n ∈ ends)
    (tags : List Text) (waiting : List (List Text)) :
    nodesUntil g (some ends) ⟨ts ++ (⟨l, .tagOpen⟩ :: ⟨l', .name n⟩ :: rest), tags, waiting⟩ =
      .ok (texts.map .data, ⟨⟨l', .name n⟩ :: rest, tags, waiting⟩) := by
  obtain ⟨tail, htail⟩ : ∃ tail : List Token, tail = ⟨l', .name n⟩ :: rest := ⟨_, rfl⟩
  have readable : Readable tail := htail ▸ readable_cons (by nofun) rest
  have opened : Readable (⟨l, .tagOpen⟩ :: tail) := readable_cons (by nofun) tail
  have ended : nodesFrom g (some ends) (rest.length + 3)
      ⟨⟨l, .tagOpen⟩ :: tail, tags, ends :: waiting⟩ = .ok ([], ⟨tail, tags, ends :: waiting⟩) := by
    have found : atEnd (some ends) ⟨tail, tags, ends :: waiting⟩ =
        .ok (true, ⟨tail, tags, ends :: waiting⟩) := by
      rw [htail, ← List.contains_iff_mem.mpr hn]
      rfl
    rw [nodesFrom_tagOpen g (some ends) _ l readable]
    exact (read_bind found).trans rfl
  have length : (ts ++ ⟨l, .tagOpen⟩ :: tail).length + 1 = rest.length + 3 + texts.length := by
    rw [List.length_append, htail, h.length_eq, List.length_cons, List.length_cons]
    omega
  have data := nodesFrom_data g (some ends) (rest.length + 3) opened tags (ends :: waiting) h
  rw [ended, ← length] at data
  rw [← htail]
  have waited : (modify fun s => { s with ends := ends :: s.ends } : Reader Unit)
      ⟨ts ++ ⟨l, .tagOpen⟩ :: tail, tags, waiting⟩ =
        .ok ((), ⟨ts ++ ⟨l, .tagOpen⟩ :: tail, tags, ends :: waiting⟩) := rfl
  have remains : remaining ⟨ts ++ ⟨l, .tagOpen⟩ :: tail, tags, ends :: waiting⟩ =
      .ok ((ts ++ ⟨l, .tagOpen⟩ :: tail).length + 1,
        ⟨ts ++ ⟨l, .tagOpen⟩ :: tail, tags, ends :: waiting⟩) := rfl
  refine (read_bind waited).trans ((read_bind remains).trans ((read_bind data).trans ?_))
  rw [List.append_nil]
  rfl

/-- The body of a statement that holds pieces of data, up to a tag that ends it. -/
theorem body_data (k : Nat) {ends : List Text} {texts : List Text} {ts rest : List Token}
    (h : Spells ts texts) (l l' l'' : Nat) {n : Text} (hn : n ∈ ends) (hr : Readable rest)
    (tags : List Text) (waiting : List (List Text)) (drop : Bool) :
    body (grammar (k + 1)) ends drop
        ⟨⟨l, .tagClose⟩ :: (ts ++ (⟨l', .tagOpen⟩ :: ⟨l'', .name n⟩ :: rest)), tags, waiting⟩ =
      .ok (texts.map .data, ⟨if drop then rest else ⟨l'', .name n⟩ :: rest, tags, waiting⟩) := by
  have nodes := nodesUntil_data (grammar k) h rest l' l'' hn tags waiting
  obtain ⟨inside, hinside⟩ : ∃ inside : List Token,
    inside = ts ++ (⟨l', .tagOpen⟩ :: ⟨l'', .name n⟩ :: rest) := ⟨_, rfl⟩
  rw [← hinside] at nodes ⊢
  have readable : Readable inside := hinside ▸ h.readable (readable_cons (by nofun) _)
  have colon : skipOperator ":" ⟨⟨l, .tagClose⟩ :: inside, tags, waiting⟩ =
      .ok (false, ⟨⟨l, .tagClose⟩ :: inside, tags, waiting⟩) := rfl
  have passed := next_ok (t := ⟨l, .tagClose⟩) nofun readable tags waiting
  have close : expectTagClose ⟨⟨l, .tagClose⟩ :: inside, tags, waiting⟩ =
      .ok ((), ⟨inside, tags, waiting⟩) :=
    (show _ = (next >>= fun _ => pure () : Reader Unit) _ from rfl).trans
      ((read_bind passed).trans rfl)
  refine (read_bind colon).trans ((read_bind close).trans ((read_bind nodes).trans ?_))
  cases drop with
  | false => rfl
  | true =>
      have dropped := next_ok (t := ⟨l'', .name n⟩) nofun hr tags waiting
      exact (show _ = (next >>= fun _ => pure (texts.map Node.data) : Reader (List Node)) _
        from rfl).trans ((read_bind dropped).trans rfl)

/-- The tokens from the condition of a fork to its end. -/
def forkTokens (l : Nat → Nat) (A B rest : List Token) : List Token :=
  ⟨l 0, .name "c"⟩ :: ⟨l 1, .tagClose⟩ :: (A ++
    (⟨l 2, .tagOpen⟩ :: ⟨l 3, .name "else"⟩ :: ⟨l 4, .tagClose⟩ :: (B ++
      (⟨l 5, .tagOpen⟩ :: ⟨l 6, .name "endif"⟩ :: rest))))

/-- Both branches of a fork. -/
theorem branches_fork (k fuel : Nat) (l : Nat → Nat) {a b : List Text} {A B rest : List Token}
    (hA : Spells A a) (hB : Spells B b) (hr : Readable rest) (tags : List Text)
    (waiting : List (List Text)) :
    branches (grammar (k + 1)) (fuel + 1) ⟨forkTokens l A B rest, tags, waiting⟩ =
      .ok (([(.name "c" (l 0), a.map .data)], b.map .data), ⟨rest, tags, waiting⟩) := by
  obtain ⟨behind, hbehind⟩ : ∃ behind : List Token, behind = ⟨l 4, .tagClose⟩ :: (B ++
    (⟨l 5, .tagOpen⟩ :: ⟨l 6, .name "endif"⟩ :: rest)) := ⟨_, rfl⟩
  have readable : Readable behind := hbehind ▸ readable_cons (by nofun) _
  have other : "else".toList ∈ ["elif".toList, "else".toList, "endif".toList] := by decide
  have last : "endif".toList ∈ ["endif".toList] := by decide
  have first := body_data k hA (l 1) (l 2) (l 3) other readable tags waiting false
  have passed := next_ok (t := ⟨l 3, .name "else"⟩) nofun readable tags waiting
  have second := body_data k hB (l 4) (l 5) (l 6) last hr tags waiting true
  rw [← hbehind] at second
  obtain ⟨inside, hinside⟩ : ∃ inside : List Token, inside =
    A ++ (⟨l 2, .tagOpen⟩ :: ⟨l 3, .name "else"⟩ :: behind) := ⟨_, rfl⟩
  rw [← hinside] at first
  have condition : tuple (grammar (k + 1)) { conditional := false }
      ⟨⟨l 0, .name "c"⟩ :: ⟨l 1, .tagClose⟩ :: inside, tags, waiting⟩ =
        .ok (.name "c" (l 0), ⟨⟨l 1, .tagClose⟩ :: inside, tags, waiting⟩) := rfl
  rw [forkTokens, ← hbehind, ← hinside]
  exact (read_bind condition).trans ((read_bind first).trans ((read_bind passed).trans
    ((read_bind second).trans rfl)))

/-- A fork is one statement. -/
theorem statement_fork (k l' : Nat) (l : Nat → Nat) {a b : List Text} {A B rest : List Token}
    (hA : Spells A a) (hB : Spells B b) (hr : Readable rest) (tags : List Text)
    (waiting : List (List Text)) :
    statement (grammar (k + 1)) ⟨⟨l', .name "if"⟩ :: forkTokens l A B rest, tags, waiting⟩ =
      .ok ([.ifElse [(.name "c" (l 0), a.map .data)] (b.map .data)], ⟨rest, tags, waiting⟩) := by
  have readable : Readable (forkTokens l A B rest) := readable_cons (by nofun) _
  have passed := next_ok (t := ⟨l', .name "if"⟩) nofun readable ("if" :: tags) waiting
  have remains : remaining ⟨forkTokens l A B rest, "if".toList :: tags, waiting⟩ =
    .ok ((forkTokens l A B rest).length + 1,
      ⟨forkTokens l A B rest, "if".toList :: tags, waiting⟩) := rfl
  have both := branches_fork k (forkTokens l A B rest).length l hA hB hr ("if" :: tags) waiting
  have marked : (modify fun s => { s with tags := "if" :: s.tags } : Reader Unit)
      ⟨⟨l', .name "if"⟩ :: forkTokens l A B rest, tags, waiting⟩ = .ok ((),
        ⟨⟨l', .name "if"⟩ :: forkTokens l A B rest, "if".toList :: tags, waiting⟩) := rfl
  have inner : (do return [← (do
      let _ ← next
      let read ← branches (grammar (k + 1)) (← remaining)
      return Node.ifElse read.1 read.2 : Reader Node)] : Reader (List Node))
      ⟨⟨l', .name "if"⟩ :: forkTokens l A B rest, "if".toList :: tags, waiting⟩ =
      .ok ([.ifElse [(.name "c" (l 0), a.map .data)] (b.map .data)],
        ⟨rest, "if".toList :: tags, waiting⟩) :=
    (read_bind ((read_bind passed).trans ((read_bind remains).trans
      ((read_bind both).trans rfl)))).trans rfl
  exact (show _ = (do
      modify fun s => { s with tags := "if" :: s.tags }
      let nodes ← (do return [← (do
        let _ ← next
        let read ← branches (grammar (k + 1)) (← remaining)
        return Node.ifElse read.1 read.2 : Reader Node)] : Reader (List Node))
      modify fun s => { s with tags := s.tags.drop 1 }
      return nodes : Reader (List Node)) _ from rfl).trans
    ((read_bind marked).trans ((read_bind inner).trans rfl))

/-- Tokens that begin with a given lexeme. -/
theorem of_map_lexeme_cons {ts : List Token} {x : Lexeme} {more : List Lexeme}
    (h : ts.map Token.lexeme = x :: more) :
    ∃ line us, ts = ⟨line, x⟩ :: us ∧ us.map Token.lexeme = more := by
  obtain ⟨⟨line, lexeme⟩, us, rfl, rfl, behind⟩ := List.map_eq_cons_iff.mp h
  exact ⟨line, us, rfl, behind⟩

/-- Tokens of open text and statements begin with the text and the first statement. -/
theorem of_map_lexeme_statement {ts : List Token} {u v : Text} {ws : List Text}
    {rest : List (List Text × Text)} (h : ts.map Token.lexeme = lexemes u ((ws, v) :: rest)) :
    ∃ U opened us, ts = U ++ (⟨opened, .tagOpen⟩ :: us) ∧ Spells U (onePiece u) ∧
      us.map Token.lexeme = ws.map .name ++ (.tagClose :: lexemes v rest) := by
  have read : lexemes u ((ws, v) :: rest) = (onePiece u).map .data ++
      (.tagOpen :: (ws.map .name ++ (.tagClose :: lexemes v rest))) := by
    rw [lexemes, List.cons_append, List.append_assoc]
    rfl
  obtain ⟨U, _, rfl, hU, behind⟩ := List.map_eq_append_iff.mp (h.trans read)
  obtain ⟨opened, us, rfl, inside⟩ := of_map_lexeme_cons behind
  exact ⟨U, opened, us, rfl, hU, inside⟩

/-- The tokens of a fork between its two outer texts. -/
theorem exists_forkTokens {ts : List Token} {p a b q : Text}
    (h : ts.map Token.lexeme = lexemes p [(["if", "c"], a), (["else"], b), (["endif"], q)]) :
    ∃ P A B Q opened word closed l, ts = P ++ (⟨opened, .tagOpen⟩ :: ⟨word, .name "if"⟩ ::
        forkTokens l A B (⟨closed, .tagClose⟩ :: Q)) ∧
      Spells P (onePiece p) ∧ Spells A (onePiece a) ∧ Spells B (onePiece b) ∧
      Spells Q (onePiece q) := by
  obtain ⟨P, opened, _, rfl, hP, e₁⟩ := of_map_lexeme_statement h
  obtain ⟨word, _, rfl, e₂⟩ := of_map_lexeme_cons e₁
  obtain ⟨l₀, _, rfl, e₃⟩ := of_map_lexeme_cons e₂
  obtain ⟨l₁, _, rfl, e₄⟩ := of_map_lexeme_cons e₃
  obtain ⟨A, l₂, _, rfl, hA, e₅⟩ := of_map_lexeme_statement e₄
  obtain ⟨l₃, _, rfl, e₆⟩ := of_map_lexeme_cons e₅
  obtain ⟨l₄, _, rfl, e₇⟩ := of_map_lexeme_cons e₆
  obtain ⟨B, l₅, _, rfl, hB, e₈⟩ := of_map_lexeme_statement e₇
  obtain ⟨l₆, _, rfl, e₉⟩ := of_map_lexeme_cons e₈
  obtain ⟨closed, Q, rfl, hQ⟩ := of_map_lexeme_cons e₉
  exact ⟨P, A, B, Q, opened, word, closed, fun n => [l₀, l₁, l₂, l₃, l₄, l₅, l₆].getD n 0, rfl,
    hP, hA, hB, hQ⟩

/-- What a fork is parsed as. -/
def forkNodes (line : Nat) (p a b q : Text) : List Node :=
  (onePiece p).map .data ++
    (.ifElse [(.name "c" line, (onePiece a).map .data)] ((onePiece b).map .data) ::
      (onePiece q).map .data)

/-- Behind a fork, the text and the end are read. -/
theorem nodesFrom_end (g : Grammar) (fuel : Nat) {Q : List Token} {texts : List Text}
    (hQ : Spells Q texts) (last : Nat) :
    nodesFrom g none (fuel + 1 + texts.length) ⟨Q ++ [⟨last, .eof⟩], [], []⟩ =
      .ok (texts.map .data, ⟨[⟨last, .eof⟩], [], []⟩) := by
  rw [nodesFrom_data g none (fuel + 1) (readable_eof last) [] [] hQ]
  exact congrArg (fun ns => Except.ok (ns, _)) (List.append_nil _)

/-- The nodes of a fork. -/
theorem nodesFrom_fork (k fuel : Nat) (l : Nat → Nat) {p a b q : Text} {P A B Q : List Token}
    (hP : Spells P (onePiece p)) (hA : Spells A (onePiece a)) (hB : Spells B (onePiece b))
    (hQ : Spells Q (onePiece q)) (opened word closed last : Nat) :
    nodesFrom (grammar (k + 1)) none
        (fuel + 1 + (onePiece q).length + 1 + (onePiece p).length)
        ⟨P ++ (⟨opened, .tagOpen⟩ :: ⟨word, .name "if"⟩ ::
          forkTokens l A B (⟨closed, .tagClose⟩ :: (Q ++ [⟨last, .eof⟩]))), [], []⟩ =
      .ok (forkNodes (l 0) p a b q, ⟨[⟨last, .eof⟩], [], []⟩) := by
  have behind := nodesFrom_end (grammar (k + 1)) fuel hQ last
  have readable : Readable (Q ++ [⟨last, .eof⟩]) := hQ.readable (readable_eof last)
  obtain ⟨more, hmore⟩ : ∃ more : List Token, more = Q ++ [⟨last, .eof⟩] := ⟨_, rfl⟩
  rw [← hmore] at behind readable ⊢
  have inside : Readable (⟨closed, .tagClose⟩ :: more) := readable_cons (by nofun) more
  have one := statement_fork k word l hA hB inside [] []
  obtain ⟨tokens, htokens⟩ : ∃ tokens : List Token, tokens =
    ⟨word, .name "if"⟩ :: forkTokens l A B (⟨closed, .tagClose⟩ :: more) := ⟨_, rfl⟩
  rw [← htokens] at one ⊢
  have lead : Readable tokens := htokens ▸ readable_cons (by nofun) _
  have close : expectTagClose ⟨⟨closed, .tagClose⟩ :: more, [], []⟩ = .ok ((), ⟨more, [], []⟩) :=
    (show _ = (next >>= fun _ => pure () : Reader Unit) _ from rfl).trans
      ((read_bind (next_ok (t := ⟨closed, .tagClose⟩) nofun readable [] [])).trans rfl)
  have open_ : atEnd none ⟨tokens, [], []⟩ = .ok (false, ⟨tokens, [], []⟩) := rfl
  have inner : nodesFrom (grammar (k + 1)) none (fuel + 1 + (onePiece q).length + 1)
      ⟨⟨opened, .tagOpen⟩ :: tokens, [], []⟩ =
        .ok (.ifElse [(.name "c" (l 0), (onePiece a).map .data)] ((onePiece b).map .data) ::
          (onePiece q).map .data, ⟨[⟨last, .eof⟩], [], []⟩) := by
    rw [nodesFrom_tagOpen (grammar (k + 1)) none _ opened lead]
    exact (read_bind open_).trans ((read_bind one).trans ((read_bind close).trans
      ((read_bind behind).trans rfl)))
  rw [nodesFrom_data (grammar (k + 1)) none _ (readable_cons (by nofun) tokens) [] [] hP, inner]
  rfl

/-- **A fork is parsed as one conditional** between two texts. -/
theorem parse_fork {d : Dialect} (hd : Exact d) {p a b q : Text}
    (h : Stated p [(["if", "c"], a), (["else"], b), (["endif"], q)]) (hr : '\r' ∉ fork p a b q) :
    ∃ line, parse d (fork p a b q) = .ok (forkNodes line p a b q) := by
  obtain ⟨ts, last, tokens, read⟩ := tokenize_statements hd h hr
  obtain ⟨P, A, B, Q, opened, word, closed, l, rfl, hP, hA, hB, hQ⟩ := exists_forkTokens read
  have whole : tokenize d (fork p a b q) = P ++ (⟨opened, .tagOpen⟩ :: ⟨word, .name "if"⟩ ::
      forkTokens l A B (⟨closed, .tagClose⟩ :: (Q ++ [⟨last, .eof⟩]))) := by
    refine Eq.trans tokens ?_
    simp only [forkTokens, List.append_assoc, List.cons_append]
  have long : P.length + Q.length + 6 ≤ (P ++ (⟨opened, .tagOpen⟩ :: ⟨word, .name "if"⟩ ::
      forkTokens l A B (⟨closed, .tagClose⟩ :: (Q ++ [⟨last, .eof⟩])))).length := by
    simp only [forkTokens, List.length_append, List.length_cons]
    omega
  refine ⟨l 0, parse_of_nodesFrom whole (hP.readable (readable_cons (by nofun) _))
    (s := ⟨[⟨last, .eof⟩], [], []⟩) ?_⟩
  obtain ⟨n, hn⟩ : ∃ n, n = (P ++ (⟨opened, .tagOpen⟩ :: ⟨word, .name "if"⟩ ::
    forkTokens l A B (⟨closed, .tagClose⟩ :: (Q ++ [⟨last, .eof⟩])))).length := ⟨_, rfl⟩
  rw [← hn] at long ⊢
  have fuel : n + 1 =
      n - 1 - Q.length - P.length + 1 + (onePiece q).length + 1 + (onePiece p).length := by
    rw [hQ.length_eq, hP.length_eq]
    omega
  obtain ⟨k, rfl⟩ : ∃ k, n = k + 1 := ⟨n - 1, by omega⟩
  rw [fuel]
  exact nodesFrom_fork k _ l hP hA hB hQ opened word closed last

/-- **A fork is compiled** to one conditional between two texts. -/
theorem compile_fork {d : Dialect} (hd : Exact d) {p a b q : Text}
    (h : Stated p [(["if", "c"], a), (["else"], b), (["endif"], q)]) (hr : '\r' ∉ fork p a b q) :
    ∃ line, compile d (fork p a b q) = .ok ⟨forkNodes line p a b q, [], d.sandbox⟩ := by
  obtain ⟨line, parsed⟩ := parse_fork hd h hr
  have none : blocksOf (forkNodes line p a b q) = [] := by
    rw [forkNodes, blocksOf_data_append, blocksOf, Node.blocks, blocksOfBranches, blocksOf_data,
      blocksOf_data, blocksOf_data]
    rfl
  have checked : checkNodes vocabulary { top := true } false (forkNodes line p a b q) = .ok () := by
    rw [forkNodes, checkNodes_data_append, checkNodes, Node.check, checkBranches, checkNodes_data,
      checkNodes_data]
    exact checkNodes_data _ _ _ _
  have whole : check vocabulary (forkNodes line p a b q) = .ok () := by
    unfold check
    rw [none]
    exact (congrArg (fun r => Except.bind r fun _ => _) checked).trans rfl
  refine ⟨line, ?_⟩
  unfold compile
  rw [parsed]
  refine (congrArg (fun r => Except.bind r fun _ => _) whole).trans ?_
  rw [← none]
  rfl

/-! ### Running -/

/-- A fork reads one name. -/
theorem mentionsAllOf_fork (line : Nat) (p a b q : Text) :
    mentionsAllOf (forkNodes line p a b q) = [.reads "c"] := by
  rw [forkNodes, mentionsAllOf_data_append, mentionsAllOf, Node.mentionsAll, mentionsAllBranches,
    mentionsAllOf_data, mentionsAllOf_data, mentionsAllOf_data]
  rfl

theorem noteNodes_fork (line : Nat) (p a b q : Text) :
    noteNodes {} (forkNodes line p a b q) = { mentioned := ["c"] } := by
  rw [forkNodes, noteNodes_data_append, noteNodes, noteNodes_data, Node.noteIn, noteNodes_data,
    noteNodes_data]
  rfl

theorem topSetting_fork (line : Nat) (p a b q : Text) (s : Store) :
    topSetting (mentionsAllOf (forkNodes line p a b q))
        (Scope.ofBody [] [] (forkNodes line p a b q)) s =
      .ok (bare s "c", { s with frames := s.frames.push [] }) := by
  rw [mentionsAllOf_fork]
  have scope : Scope.ofBody [] [] (forkNodes line p a b q) = { mentioned := ["c"] } :=
    noteNodes_fork line p a b q
  rw [scope]
  rfl

/-- **A fork prints the branch that the value of its name picks**, between its two outer texts. -/
theorem render_forkNodes (line : Nat) (p a b q : Text) (guarded : Bool)
    {data : List (Value × Value)} {named : List (Text × Value)} {x : Bool}
    (hd : namedData data = .ok named)
    (hv : named? "c" named = some (.bool x)) :
    (Compiled.mk (forkNodes line p a b q) [] guarded).render data =
      .ok (p ++ ((if x then a else b) ++ q)) := by
  refine withData_ok hd fun kept s hs values => ?_
  let g : Program := { guarded, data := kept }
  let opened : Store := { s with frames := s.frames.push [] }
  let set := bare s "c"
  have value : (machine g runDepth).expr set (.name "c" line) opened = .ok (.bool x, opened) :=
    readName_data (g := g) hs (values "c" _ (stays_bool x) hv)
  have truth : truthOf (.bool x) opened = .ok (x, opened) := rfl
  have branch : runBranches (machine g runDepth) set ((onePiece b).map .data)
      [(.name "c" line, (onePiece a).map .data)] opened =
        .ok (if x then a else b, opened) := by
    refine (run_bind value).trans ((run_bind truth).trans ?_)
    cases x with
    | true =>
        have text := runNodes_data g (machine g (runDepth - 1)) set opened (onePiece a)
        rw [flatten_onePiece] at text
        exact text
    | false =>
        have text := runNodes_data g (machine g (runDepth - 1)) set opened (onePiece b)
        rw [flatten_onePiece] at text
        exact text
  have behind := runNodes_data g (machine g runDepth) set opened (onePiece q)
  have inner : runNodes g (machine g runDepth) set
      (.ifElse [(.name "c" line, (onePiece a).map .data)] ((onePiece b).map .data) ::
        (onePiece q).map .data) opened = .ok ((if x then a else b) ++ q, opened) := by
    rw [flatten_onePiece] at behind
    exact (run_bind branch).trans ((run_bind behind).trans rfl)
  have ran := runNodes_data_append g (machine g runDepth) set inner (onePiece p)
  rw [flatten_onePiece] at ran
  exact ⟨opened, (run_bind (topSetting_fork line p a b q s)).trans ran⟩

end Pagewright.Template
