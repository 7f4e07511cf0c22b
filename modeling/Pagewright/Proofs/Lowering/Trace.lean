import Pagewright.Proofs.Directive.Span
import Pagewright.Proofs.Lowering.Placeholder
import Pagewright.Proofs.Lowering.Twice

/-! # What the rewriting carries over

The rewriting is a row of revisions: comments, doubled at signs and regions give way, then each pass
replaces its directives, and in the end placeholders and sentinels are replaced.  Followed on a text of
which every character is marked as authored, all revisions up to the last two touch nothing but
comments, doubled at signs, regions and directives (`revisedBy_draft`).  The last two find their
placeholders and sentinels in the text as it then reads.  The rewriting gives a text if and only if
every placeholder has the number of a region (`transform_ok`); and where no placeholder and no
sentinel is read over an authored character, every other character is carried over into that text
(`carried_of_transform`).

Main definitions: `draft`, `restored`, `Carried`. -/

namespace Pagewright.Lowering

open Text Directive

/-! ### Recognisers cover something -/

theorem spanning_comment? : Spanning comment? := by
  intro v a n h
  refine ⟨?_, length_of_comment? h⟩
  unfold comment? at h
  obtain ⟨rest, -, h⟩ := Option.bind_eq_some_iff.mp h
  obtain ⟨⟨body, behind⟩, -, h⟩ := Option.bind_eq_some_iff.mp h
  obtain rfl : body.length + 8 = n := by simpa using h
  omega

theorem spanning_region? : Spanning region? := by
  intro v a n h
  obtain ⟨r, rfl, rfl, full⟩ := region?_source h
  rw [List.length_append]
  exact ⟨List.length_pos_iff.mpr full, Nat.le_add_right _ _⟩

theorem spanning_guardToken? : Spanning guardToken? := by
  intro v a n h
  obtain ⟨u, r, rfl, rfl⟩ := exists_of_guardToken? h
  rw [List.length_append]
  exact ⟨Nat.succ_pos _, Nat.le_add_right _ _⟩

/-! ### The revisions -/

/-- The edits that take comments away. -/
def commentEdits (t : Text) : List Edit := hitEdits (fun _ _ => []) 0 (pieces comment? t)

/-- The edits that swap doubled at signs for sentinels. -/
def escapeEdits (t : Text) : List Edit :=
  hitEdits (fun _ _ => atSentinel) 0 (pieces (occurrence? "@@") t)

/-- The edits that put numbered placeholders for regions. -/
def guardEdits (t : Text) : List Edit := hitEdits (fun n _ => guardToken n) 0 (pieces region? t)

/-- The edits that put regions for their placeholders. -/
def placeEdits (regions : List Text) (t : Text) : List Edit :=
  hitEdits (fun _ n => (regions[n]?).getD []) 0 (pieces guardToken? t)

/-- The edits that turn sentinels into at signs which the engine emits literally. -/
def sentinelEdits (t : Text) : List Edit :=
  hitEdits (fun _ _ => protect "@") 0 (pieces (occurrence? atSentinel) t)

/-- A text after its revisions, of which each sees what the one before has left. -/
def reviseAll (revisions : List (Text → List Edit)) (m : Marked) : Marked :=
  revisions.foldl (fun m edits => revise (edits (textOf m)) m) m

/-- What is revised before regions are restored. -/
def revisions (ds : Delimiters) : List (Text → List Edit) :=
  [commentEdits, escapeEdits, guardEdits,
    passEdits conditionalNames (fun (_ : Unit) d => (conditionalTag? d, ())) (),
    passEdits switchNames switchTag? {},
    passEdits loopNames loopTag? {},
    passEdits helperNames (fun (_ : Unit) d => (helperTag? ds.start ds.stop d, ())) (),
    fun t => passEdits stackNames (stackMarker? t) [] t,
    passEdits includeNames (fun (_ : Unit) d => (includeTag? d, ())) ()]

/-- The final forms of the regions of a text. -/
def regionsOf (t : Text) : List Text := (guardRegions (escapeMarkers (stripComments t))).2

/-- A text as it is before regions are restored, with what is still the author's. -/
def draft (ds : Delimiters) (t : Text) : Marked := reviseAll (revisions ds) (authored t)

/-- The draft with its regions in their places. -/
def restored (ds : Delimiters) (t : Text) : Marked :=
  revise (placeEdits (regionsOf t) (textOf (draft ds t))) (draft ds t)

theorem placedHits_comments (ps : List (Piece Unit)) (n : Nat) :
    placedHits (fun _ _ => []) n ps = ps.flatMap (Piece.replaced fun _ => []) := by
  induction ps generalizing n with
  | nil => rfl
  | cons p ps ih =>
    cases p with
    | char c => exact congrArg (c :: ·) (ih n)
    | hit a start stop => exact ih (n + 1)

theorem applyEdits_comments (t : Text) : applyEdits t (commentEdits t) = stripComments t := by
  rw [commentEdits, applyEdits_hits spanning_comment?, placedHits_comments]
  exact (replaceHits_eq _ t).symm

theorem textOf_stripped (t : Text) :
    textOf (revise (commentEdits (textOf (authored t))) (authored t)) = stripComments t := by
  rw [textOf_revise, textOf_authored, applyEdits_comments]

theorem applyEdits_escapes (t : Text) : applyEdits t (escapeEdits t) = escapeMarkers t := by
  have doubled : "@@".toList ≠ [] := by decide
  rw [escapeEdits, applyEdits_hits (spanning_occurrence? doubled)]
  exact placedHits_occurrence doubled atSentinel t 0 0

theorem placedHits_regions (ps : List (Piece Region)) (n : Nat) :
    placedHits (fun n _ => guardToken n) n ps = guardPieces n ps := by
  induction ps generalizing n with
  | nil => rfl
  | cons p ps ih =>
    cases p with
    | char c => exact congrArg (c :: ·) (ih n)
    | hit a start stop => exact congrArg (guardToken n ++ ·) (ih (n + 1))

theorem applyEdits_guards (t : Text) : applyEdits t (guardEdits t) = (guardRegions t).1 := by
  rw [guardEdits, applyEdits_hits spanning_region?, placedHits_regions]
  rfl

theorem applyEdits_sentinels (t : Text) : applyEdits t (sentinelEdits t) = restoreMarkers t := by
  have given : atSentinel ≠ [] := by decide
  rw [sentinelEdits, applyEdits_hits (spanning_occurrence? given)]
  exact placedHits_occurrence given (protect "@") t 0 0

/-- The edits of a pass make what the pass makes. -/
theorem applyEdits_pass {σ : Type} (names : List Text) (handler : σ → Directive → Option Text × σ)
    (s : σ) (t : Text) :
    applyEdits t (passEdits names handler s t) = (replaceWith names handler s t).1 := rfl

/-- **The draft is what the passes leave.** -/
theorem textOf_draft (ds : Delimiters) (t : Text) : textOf (draft ds t) = rewritten ds t := by
  simp only [draft, reviseAll, revisions, List.foldl_cons, List.foldl_nil, textOf_revise,
    textOf_authored, applyEdits_comments, applyEdits_escapes, applyEdits_guards, applyEdits_pass]
  simp only [rewritten, rewriteAll, rewriteIncludes, rewriteStackMarkers, rewriteHelpers,
    rewriteLoops, rewriteSwitches, rewriteConditionals, replace]

/-! ### Restoring -/

/-- **Restoring fails at a placeholder whose number no region has**, and only there. -/
theorem restorePieces_ok (regions : List Text) (ps : List (Piece Nat)) :
    (∃ u, restorePieces regions ps = .ok u) ↔
      ∀ n ∈ ps.filterMap Piece.value?, n < regions.length := by
  have goes : ∀ (e : Except Failure Text) (f : Text → Text),
      (∃ u, e.map f = .ok u) ↔ ∃ u, e = .ok u := by
    intro e f
    cases e with
    | error failure =>
      constructor <;>
      · rintro ⟨u, hu⟩
        cases hu
    | ok v => exact ⟨fun _ => ⟨v, rfl⟩, fun _ => ⟨f v, rfl⟩⟩
  induction ps with
  | nil => simp [restorePieces]
  | cons p ps ih =>
    cases p with
    | char c =>
      exact (goes _ _).trans ih
    | hit n start stop =>
      have numbers : ((Piece.hit n start stop :: ps).filterMap Piece.value?) =
          n :: ps.filterMap Piece.value? := rfl
      rw [restorePieces, numbers, List.forall_mem_cons]
      split
      · next region found =>
        rw [and_iff_right (List.getElem?_eq_some_iff.mp found).1]
        exact (goes _ _).trans ih
      · next none =>
        have out := List.getElem?_eq_none_iff.mp none
        constructor
        · rintro ⟨u, hu⟩
          cases hu
        · intro h
          omega

/-- Where restoring succeeds, every region is in the place of its placeholder. -/
theorem restorePieces_eq {regions : List Text} {ps : List (Piece Nat)} {u : Text} (k : Nat)
    (h : restorePieces regions ps = .ok u) :
    u = placedHits (fun _ n => (regions[n]?).getD []) k ps := by
  induction ps generalizing u k with
  | nil => exact (Except.ok.inj h).symm
  | cons p ps ih =>
    cases p with
    | char c =>
      rw [restorePieces] at h
      obtain ⟨v, hv, rfl⟩ := map_eq_ok h
      rw [placedHits, ← ih k hv]
    | hit n start stop =>
      rw [restorePieces] at h
      split at h
      · next region found =>
        obtain ⟨v, hv, rfl⟩ := map_eq_ok h
        rw [placedHits, ← ih (k + 1) hv, found, Option.getD_some]
      · cases h

/-- **The rewriting fails at a placeholder whose number no region has**, and only there. -/
theorem transform_ok (ds : Delimiters) (t : Text) : (∃ u, transform ds t = .ok u) ↔
    (mayHoldDirectives t = true →
      ∀ n ∈ hits guardToken? (rewritten ds t), n < (regionsOf t).length) := by
  unfold transform
  split
  · next h =>
    rw [hits_eq, forall_prop_of_true h, ← restorePieces_ok]
    constructor
    · rintro ⟨u, hu⟩
      obtain ⟨v, hv, -⟩ := map_eq_ok hu
      exact ⟨v, hv⟩
    · rintro ⟨v, hv⟩
      exact ⟨restoreMarkers v, congrArg (Except.map restoreMarkers) hv⟩
  · next h => exact ⟨fun _ hm => absurd hm h, fun _ => ⟨t, rfl⟩⟩

/-! ### What is carried over -/

/-- Which stretch may give way to which text, in front of what follows it. -/
abbrev Change := Marked → Marked → Text → Prop

/-- The second text is the first one after revisions by the given changes, one after the other. -/
def RevisedBy : List Change → Marked → Marked → Prop
  | [], m, k => m = k
  | P :: Ps, m, k => ∃ n, Revised P m n ∧ RevisedBy Ps n k

theorem RevisedBy.refl : ∀ (Ps : List Change) (m : Marked), RevisedBy Ps m m
  | [], _ => rfl
  | _ :: Ps, m => ⟨m, Revised.refl m, RevisedBy.refl Ps m⟩

theorem RevisedBy.append {Qs : List Change} {n k : Marked} (h : RevisedBy Qs n k) :
    ∀ {Ps : List Change} {m : Marked}, RevisedBy Ps m n → RevisedBy (Ps ++ Qs) m k
  | [], _, rfl => h
  | _ :: _, _, ⟨m', first, rest⟩ => ⟨m', first, h.append rest⟩

theorem revisedBy_reviseAll {revisions : List (Text → List Edit)} {Ps : List Change}
    (h : List.Forall₂ (fun edits P => ∀ m, Revised P m (revise (edits (textOf m)) m)) revisions Ps)
    (m : Marked) : RevisedBy Ps m (reviseAll revisions m) := by
  induction h generalizing m with
  | nil => rfl
  | cons first _ ih => exact ⟨_, first m, ih _⟩

/-- The changes that are made before regions are restored: comments, doubled at signs and regions
give way, and the directives of each pass. -/
def drafting (ds : Delimiters) : List Change :=
  [Found comment? fun _ _ => [],
    Found (occurrence? "@@") fun _ _ => atSentinel,
    Found region? fun n _ => guardToken n,
    Answered conditionalNames (fun (_ : Unit) d => (conditionalTag? d, ())) (),
    Answered switchNames switchTag? {},
    Answered loopNames loopTag? {},
    Answered helperNames (fun (_ : Unit) d => (helperTag? ds.start ds.stop d, ())) (),
    fun old m new => ∃ t, Answered stackNames (stackMarker? t) [] old m new,
    Answered includeNames (fun (_ : Unit) d => (includeTag? d, ())) ()]

theorem revisedBy_draft (ds : Delimiters) (t : Text) :
    RevisedBy (drafting ds) (authored t) (draft ds t) := by
  apply revisedBy_reviseAll
  refine .cons (revised_hits spanning_comment? _) <|
    .cons (revised_hits (spanning_occurrence? (by decide)) _) <|
    .cons (revised_hits spanning_region? _) <| .cons (revised_pass _ _ ()) <|
    .cons (revised_pass _ switchTag? {}) <| .cons (revised_pass _ loopTag? {}) <|
    .cons (revised_pass _ _ ()) <| .cons (fun m => ?_) <| .cons (revised_pass _ _ ()) .nil
  exact (revised_pass _ _ [] m).mono fun _ _ _ answered => ⟨_, answered⟩

/-- A stretch that no author wrote. -/
def Generated (m : Marked) : Prop := ∀ c ∈ m, c.2 = false

/-- Replacing hits that no author wrote changes nothing else. -/
theorem revised_generated {α : Type} {find : Recogniser α} (spanning : Spanning find)
    (new : Nat → α → Text) {m : Marked}
    (own : ∀ e ∈ hitEdits new 0 (pieces find (textOf m)), Generated (stretch m e.start e.stop)) :
    Revised (fun old n v => Generated old ∧ Found find new old n v) m
      (revise (hitEdits new 0 (pieces find (textOf m))) m) :=
  revised_revise (inOrder_hits spanning new m) fun e he =>
    ⟨own e he, found_hitEdits spanning new m e he⟩

/-- The changes that are made when regions are restored: placeholders and sentinels give way, of
which no author wrote a character. -/
def restoring (regions : List Text) : List Change :=
  [fun old m new => Generated old ∧ Found guardToken? (fun _ n => (regions[n]?).getD []) old m new,
    fun old m new => Generated old ∧
      Found (occurrence? atSentinel) (fun _ _ => protect "@") old m new]

/-- The second text is what the rewriting makes of the first one, which an author wrote: comments,
doubled at signs, regions and directives have given way, and every other character is where it was. -/
def Carried (ds : Delimiters) (t u : Text) : Prop :=
  ∃ m, RevisedBy (drafting ds ++ restoring (regionsOf t)) (authored t) m ∧ textOf m = u

/-- **Where no placeholder and no sentinel is read over what an author wrote, everything outside of
comments, doubled at signs, regions and directives is carried over.** -/
theorem carried_of_transform {ds : Delimiters} {t u : Text} (h : transform ds t = .ok u)
    (places : ∀ e ∈ placeEdits (regionsOf t) (textOf (draft ds t)),
      Generated (stretch (draft ds t) e.start e.stop))
    (sentinels : ∀ e ∈ sentinelEdits (textOf (restored ds t)),
      Generated (stretch (restored ds t) e.start e.stop)) : Carried ds t u := by
  have given : atSentinel ≠ [] := by decide
  by_cases may : mayHoldDirectives t = true
  · rw [transform_eq may] at h
    obtain ⟨v, hv, rfl⟩ := map_eq_ok h
    have placed : textOf (restored ds t) = v := by
      rw [restored, textOf_revise, textOf_draft, placeEdits, applyEdits_hits spanning_guardToken?]
      exact (restorePieces_eq 0 hv).symm
    have first := revised_generated spanning_guardToken? _ places
    have second := revised_generated (spanning_occurrence? given) _ sentinels
    have last : RevisedBy (restoring (regionsOf t)) (draft ds t)
        (revise (sentinelEdits (textOf (restored ds t))) (restored ds t)) :=
      ⟨_, first, _, second, rfl⟩
    refine ⟨_, last.append (revisedBy_draft ds t), ?_⟩
    rw [← placed, textOf_revise]
    exact applyEdits_sentinels _
  · rw [transform, if_neg may] at h
    exact ⟨authored t, RevisedBy.refl _ _, (textOf_authored t).trans (Except.ok.inj h)⟩

end Pagewright.Lowering
