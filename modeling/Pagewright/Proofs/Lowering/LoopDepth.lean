import Pagewright.Lowering.Loop

/-! # How deep loops are

Every loop is told its depth and whether there is a loop around it.  Both are counted over the loops
that are open in the source, where a loop is open in its empty branch, too; but there its position is
no longer bound.  What the pass for loops writes is read back here as what it is made of
(`rewriteLoops_eq`), and at each opening the blocks that bind a position are counted, and apart from
them the empty branches (`rewriteLoops_depth`): the depth of a loop is one more than both together, so
depth and position agree outside of all empty branches and nowhere else.

The induction is on the directives; `Reading.of` is what it carries: open blocks and branches are the
open loops of the pass, divided by whether the empty branch has begun.

Main definitions: `LoopBit`, `loopBits`, `Reading`, `Nested`. -/

namespace Pagewright.Lowering

open Text Directive

/-! ### What is written -/

/-- A stretch of rewritten text: what stood there, or the tags at the opening of a loop, where its
empty branch begins, and where it ends. -/
inductive LoopBit where
  | kept (t : Text)
  | opening (n outer : Nat) (h : LoopHeader)
  | turn
  | closing (emptied : Bool)
  deriving DecidableEq, Repr

/-- A stretch as it is written. -/
def LoopBit.shown : LoopBit → Text
  | .kept t => t
  | .opening n outer h => loopOpening n outer h
  | .turn => tag "endwith" ++ tag "else"
  | .closing true => tag "endfor"
  | .closing false => tag "endwith" ++ tag "endfor"

/-- The header of a directive that opens a loop. -/
def headerOf? (d : Directive) : Option LoopHeader :=
  match d.args with
  | none | some [] => none
  | some args => loopHeader? args

/-- The number of open loops with a header that was understood. -/
def validLoops (fs : List OpenLoop) : Nat := (fs.filter OpenLoop.valid).length

/-- What is written in the place of a directive of a loop, and the loops that are open behind it. -/
def loopBit? (s : Loops) (d : Directive) : Option LoopBit × Loops :=
  if d.name = "foreach" ∨ d.name = "forelse" then
    let frame : OpenLoop := { mayBeEmpty := d.name = "forelse", valid := (headerOf? d).isSome }
    match headerOf? d with
    | none => (none, ⟨s.count, frame :: s.frames⟩)
    | some h => (some (.opening (s.count + 1) (validLoops s.frames) h), ⟨s.count + 1, frame :: s.frames⟩)
  else if d.name = "empty" then
    match d.args, s.frames with
    | none, frame :: outer =>
      if frame.mayBeEmpty ∧ frame.valid then
        (some .turn, ⟨s.count, { frame with emptied := true } :: outer⟩)
      else (none, s)
    | _, _ => (none, s)
  else
    match s.frames with
    | [] => (none, s)
    | frame :: outer =>
      (if frame.valid then some (.closing frame.emptied) else none, ⟨s.count, outer⟩)

/-- The handler of loops writes stretches. -/
theorem loopTag?_eq (s : Loops) (d : Directive) :
    loopTag? s d = ((loopBit? s d).1.map LoopBit.shown, (loopBit? s d).2) := by
  unfold loopTag? loopBit?
  split
  · rcases ha : d.args with _ | (_ | ⟨c, r⟩)
    · simp [headerOf?, ha]
    · simp [headerOf?, ha]
    · cases hh : loopHeader? (c :: r) <;> simp [headerOf?, ha, hh, LoopBit.shown, validLoops]
  · split
    · cases d.args with
      | some args => rfl
      | none =>
        cases s.frames with
        | nil => rfl
        | cons frame outer =>
          simp only [Option.isSome_none, Bool.false_eq_true, if_false]
          split <;> rfl
    · cases s.frames with
      | nil => rfl
      | cons frame outer =>
        cases hv : frame.valid <;> cases he : frame.emptied <;> simp [hv, he, LoopBit.shown]

/-- What is written in the place of a directive; a malformed one is passed over. -/
def readLoop (s : Loops) (d : Directive) : Option LoopBit × Loops :=
  if d.malformed then (none, s) else loopBit? s d

/-- The stretches of a text from an offset on, with the directives behind it. -/
def loopBitsFrom (t : Text) : Nat → Loops → List Directive → List LoopBit
  | last, _, [] => [.kept (t.drop last)]
  | last, s, d :: ds =>
    match readLoop s d with
    | (none, s') => loopBitsFrom t last s' ds
    | (some b, s') => .kept (slice t last d.start) :: b :: loopBitsFrom t d.stop s' ds

/-- The stretches that a text becomes. -/
def loopBits (t : Text) : List LoopBit := loopBitsFrom t 0 {} (named loopNames (directives t))

theorem editFrom_loops (t : Text) (last : Nat) (s : Loops) (ds : List Directive) :
    editFrom t last (editsOf loopTag? s ds).1 = (loopBitsFrom t last s ds).flatMap LoopBit.shown := by
  induction ds generalizing last s with
  | nil => simp [editsOf, editFrom, loopBitsFrom, LoopBit.shown]
  | cons d ds ih =>
    rw [editsOf, loopBitsFrom, readLoop]
    split
    · exact ih last s
    · rw [loopTag?_eq]
      cases h : loopBit? s d with
      | mk b s' =>
        cases b with
        | none => exact ih last s'
        | some b =>
          simp only [Option.map_some, editFrom, List.flatMap_cons, ih d.stop s', LoopBit.shown,
            List.append_assoc]

/-- **The rewritten text is its stretches**, one behind the other. -/
theorem rewriteLoops_eq (t : Text) : rewriteLoops t = (loopBits t).flatMap LoopBit.shown :=
  editFrom_loops t 0 {} _

/-! ### What one directive does -/

/-- What may be written for a directive, and how it changes the open loops: it leaves them, or opens or
ends one that was not understood, and nothing is written; or it opens, turns or ends one that was. -/
inductive LoopStep : List OpenLoop → Option LoopBit → List OpenLoop → Prop
  | stay {fs : List OpenLoop} : LoopStep fs none fs
  | push {fs : List OpenLoop} {f : OpenLoop} : f.valid = false → LoopStep fs none (f :: fs)
  | pop {fs : List OpenLoop} {f : OpenLoop} : f.valid = false → LoopStep (f :: fs) none fs
  | opening {fs : List OpenLoop} {f : OpenLoop} {n : Nat} {h : LoopHeader} : f.valid = true →
      f.emptied = false → LoopStep fs (some (.opening n (validLoops fs) h)) (f :: fs)
  | turn {fs : List OpenLoop} {f : OpenLoop} : f.valid = true → f.mayBeEmpty = true →
      LoopStep (f :: fs) (some .turn) ({ f with emptied := true } :: fs)
  | closing {fs : List OpenLoop} {f : OpenLoop} : f.valid = true →
      LoopStep (f :: fs) (some (.closing f.emptied)) fs

theorem loopStep_loopBit? (s : Loops) (d : Directive) :
    LoopStep s.frames (loopBit? s d).1 (loopBit? s d).2.frames := by
  unfold loopBit?
  split
  · cases headerOf? d with
    | none => exact .push rfl
    | some h => exact .opening rfl rfl
  · split
    · split
      · next frame outer _ e =>
        rw [e]
        split
        · next may => exact .turn may.2 may.1
        · rw [← e]
          exact .stay
      · exact .stay
    · split
      · exact .stay
      · next frame outer e =>
        rw [e]
        cases hv : frame.valid with
        | true => exact .closing hv
        | false => exact .pop hv

theorem loopStep_readLoop (s : Loops) (d : Directive) :
    LoopStep s.frames (readLoop s d).1 (readLoop s d).2.frames := by
  unfold readLoop
  split
  · exact .stay
  · exact loopStep_loopBit? s d

/-- A loop opens inside of all valid ones. -/
theorem LoopStep.outer_eq {fs fs' : List OpenLoop} {n outer : Nat} {h : LoopHeader}
    (step : LoopStep fs (some (.opening n outer h)) fs') : outer = validLoops fs := by
  cases step
  rfl

/-! ### What is open -/

/-- What is open at a place of a rewritten text: the depths of the loops in whose block it stands, where
a position is bound, and of those in whose empty branch it stands, innermost first. -/
structure Reading where
  blocks : List Nat := []
  branches : List Nat := []
  deriving DecidableEq

/-- What is open behind a stretch. -/
def Reading.over (r : Reading) : LoopBit → Reading
  | .kept _ => r
  | .opening _ outer _ => ⟨(outer + 1) :: r.blocks, r.branches⟩
  | .turn => ⟨r.blocks.tail, r.blocks.headD 0 :: r.branches⟩
  | .closing true => ⟨r.blocks, r.branches.tail⟩
  | .closing false => ⟨r.blocks.tail, r.branches⟩

/-- What is open behind stretches. -/
def reading (bs : List LoopBit) : Reading := bs.foldl Reading.over {}

/-- The depths of the valid loops whose empty branch has begun, or of those where it has not. -/
def depthsOf (emptied : Bool) : List OpenLoop → List Nat
  | [] => []
  | f :: fs =>
    if f.valid = true ∧ f.emptied = emptied then (validLoops fs + 1) :: depthsOf emptied fs
    else depthsOf emptied fs

/-- The open loops as blocks and empty branches. -/
def Reading.of (fs : List OpenLoop) : Reading := ⟨depthsOf false fs, depthsOf true fs⟩

theorem validLoops_cons (f : OpenLoop) (fs : List OpenLoop) :
    validLoops (f :: fs) = if f.valid then validLoops fs + 1 else validLoops fs := by
  unfold validLoops
  rw [List.filter_cons]
  split <;> rfl

theorem headD_depthsOf_le (emptied : Bool) (fs : List OpenLoop) :
    (depthsOf emptied fs).headD 0 ≤ validLoops fs := by
  induction fs with
  | nil => exact Nat.le_refl 0
  | cons f fs ih =>
    rw [depthsOf, validLoops_cons]
    split
    · next h => simp [h.1]
    · split <;> omega

/-- Every valid loop is open in its block or in its empty branch. -/
theorem validLoops_eq (fs : List OpenLoop) :
    validLoops fs = (depthsOf false fs).length + (depthsOf true fs).length := by
  induction fs with
  | nil => rfl
  | cons f fs ih =>
    rw [validLoops_cons, depthsOf, depthsOf]
    cases f.valid <;> cases f.emptied <;> simp [ih] <;> omega

/-- The innermost valid loop is the deepest. -/
theorem validLoops_eq_max (fs : List OpenLoop) :
    validLoops fs = max ((depthsOf false fs).headD 0) ((depthsOf true fs).headD 0) := by
  induction fs with
  | nil => rfl
  | cons f fs ih =>
    have block := headD_depthsOf_le false fs
    have branch := headD_depthsOf_le true fs
    rw [validLoops_cons, depthsOf, depthsOf]
    cases f.valid <;> cases f.emptied <;> simp [ih] <;> omega

/-- **One directive keeps the reading in step with the open loops**, if it does not begin an empty
branch for a second time. -/
theorem over_loopStep {fs fs' : List OpenLoop} {b : Option LoopBit} (h : LoopStep fs b fs')
    (once : b = some .turn → ∀ f ∈ fs.head?, f.emptied = false) :
    b.elim (Reading.of fs) (Reading.over (Reading.of fs)) = Reading.of fs' := by
  cases h with
  | stay => rfl
  | push hv => simp [Reading.of, depthsOf, hv]
  | pop hv => simp [Reading.of, depthsOf, hv]
  | opening hv he => simp [Reading.of, Reading.over, depthsOf, hv, he]
  | @turn fs f hv _ =>
    have fresh : f.emptied = false := once rfl f rfl
    have same : validLoops (f :: fs) = validLoops ({ f with emptied := true } :: fs) := by
      rw [validLoops_cons, validLoops_cons]
    simp [Reading.of, Reading.over, depthsOf, hv, fresh]
  | @closing fs f hv =>
    cases he : f.emptied <;> simp [Reading.of, Reading.over, depthsOf, hv, he]

/-! ### Runs -/

/-- No empty branch is begun twice. -/
def BegunOnce : Loops → List Directive → Prop
  | _, [] => True
  | s, d :: ds =>
    ((readLoop s d).1 = some .turn → ∀ f ∈ s.frames.head?, f.emptied = false) ∧
      BegunOnce (readLoop s d).2 ds

/-- **Along the directives, each loop opens inside of as many as are read to be open.** -/
theorem exists_of_opening {t : Text} {n outer : Nat} {h : LoopHeader} {post : List LoopBit}
    (ds : List Directive) : ∀ (last : Nat) (s : Loops) (pre : List LoopBit), BegunOnce s ds →
      loopBitsFrom t last s ds = pre ++ .opening n outer h :: post →
        ∃ fs, pre.foldl Reading.over (Reading.of s.frames) = Reading.of fs ∧ outer = validLoops fs := by
  induction ds with
  | nil =>
    intro last s pre _ e
    rw [loopBitsFrom] at e
    cases pre with
    | nil => cases e
    | cons b pre => simp at e
  | cons d ds ih =>
    intro last s pre once e
    obtain ⟨first, later⟩ := once
    have step := loopStep_readLoop s d
    have keeps := over_loopStep step first
    rw [loopBitsFrom] at e
    cases hr : readLoop s d with
    | mk b s' =>
      rw [hr] at e step keeps later
      cases b with
      | none =>
        rw [Option.elim_none] at keeps
        rw [keeps]
        exact ih last s' pre later e
      | some b =>
        rw [Option.elim_some] at keeps
        match pre, e with
        | [_], e =>
          obtain ⟨text, others⟩ := List.cons.inj e
          obtain ⟨here, -⟩ := List.cons.inj others
          rw [here] at step
          rw [← text]
          exact ⟨s.frames, rfl, step.outer_eq⟩
        | _ :: _ :: pre, e =>
          obtain ⟨text, others⟩ := List.cons.inj e
          obtain ⟨same, others⟩ := List.cons.inj others
          rw [← text, ← same, List.foldl_cons, List.foldl_cons, Reading.over, keeps]
          exact ih d.stop s' pre later others

/-! ### Nested loops -/

/-- A directive that opens a loop with a header. -/
structure Opens (d : Directive) : Prop where
  sound : d.malformed = false
  name : d.name = "foreach" ∨ d.name = "forelse"
  header : (headerOf? d).isSome = true

/-- A bare `@empty`. -/
structure Turns (d : Directive) : Prop where
  sound : d.malformed = false
  name : d.name = "empty"
  bare : d.args = none

/-- A directive that ends what another one opens. -/
structure Closes (d e : Directive) : Prop where
  sound : e.malformed = false
  name : e.name = "end" ++ d.name

/-- The directives of loops are well nested, with valid headers and at most one bare `@empty` for each
loop that may have an empty branch; `inside` says that such a loop is the innermost one. -/
inductive Nested : Bool → List Directive → Prop
  | done {inside : Bool} : Nested inside []
  | pass {inside : Bool} {d : Directive} {ds : List Directive} :
      d.malformed = true ∨ (d.name = "empty" ∧ d.args ≠ none) → Nested inside ds → Nested inside (d :: ds)
  | stray {d : Directive} {ds : List Directive} : Turns d → Nested false ds → Nested false (d :: ds)
  | loop {inside : Bool} {d e : Directive} {body rest : List Directive} : Opens d →
      Nested (d.name = "forelse") body → Closes d e → Nested inside rest →
        Nested inside (d :: (body ++ e :: rest))
  | forelse {inside : Bool} {d m e : Directive} {body branch rest : List Directive} : Opens d →
      d.name = "forelse" → Nested true body → Turns m → Nested true branch → Closes d e →
        Nested inside rest → Nested inside (d :: (body ++ m :: (branch ++ e :: rest)))

/-- The open loops behind directives. -/
def behind (s : Loops) (ds : List Directive) : Loops := ds.foldl (fun s d => (readLoop s d).2) s

/-- Directives begin no empty branch twice and leave certain loops open. -/
def Leaves (s : Loops) (ds : List Directive) (fs : List OpenLoop) : Prop :=
  BegunOnce s ds ∧ (behind s ds).frames = fs

theorem Leaves.cons {s : Loops} {d : Directive} {ds : List Directive} {fs : List OpenLoop}
    (once : (readLoop s d).1 = some .turn → ∀ f ∈ s.frames.head?, f.emptied = false)
    (h : Leaves (readLoop s d).2 ds fs) : Leaves s (d :: ds) fs := ⟨⟨once, h.1⟩, h.2⟩

theorem Leaves.append {xs ys : List Directive} {fs gs : List OpenLoop} {s : Loops}
    (h : Leaves s xs gs) (later : ∀ s', s'.frames = gs → Leaves s' ys fs) : Leaves s (xs ++ ys) fs := by
  induction xs generalizing s with
  | nil => exact later s h.2
  | cons d xs ih => exact .cons h.1.1 (ih ⟨h.1.2, h.2⟩)

section Single

variable {d e : Directive} {s : Loops}

theorem readLoop_opens (h : Opens d) :
    (readLoop s d).1 ≠ some .turn ∧
      (readLoop s d).2.frames = ⟨d.name = "forelse", true, false⟩ :: s.frames := by
  obtain ⟨header, hh⟩ := Option.isSome_iff_exists.mp h.header
  have opened : readLoop s d = (some (.opening (s.count + 1) (validLoops s.frames) header),
      ⟨s.count + 1, ⟨d.name = "forelse", true, false⟩ :: s.frames⟩) := by
    rw [readLoop, h.sound, loopBit?, if_pos h.name, hh]
    rfl
  rw [opened]
  exact ⟨nofun, rfl⟩

theorem readLoop_closes (h : Closes d e) (opens : Opens d) {f : OpenLoop} {fs : List OpenLoop}
    (top : s.frames = f :: fs) :
    (readLoop s e).1 ≠ some .turn ∧ (readLoop s e).2.frames = fs := by
  have other : ¬ (e.name = "foreach" ∨ e.name = "forelse") ∧ e.name ≠ "empty" := by
    rw [h.name]
    obtain name | name := opens.name <;> rw [name] <;> decide
  have closed : readLoop s e = (if f.valid then some (.closing f.emptied) else none, ⟨s.count, fs⟩) := by
    rw [readLoop, h.sound, loopBit?, if_neg other.1, if_neg other.2, top]
    rfl
  rw [closed]
  refine ⟨?_, rfl⟩
  cases f.valid <;> exact nofun

theorem readLoop_turns (h : Turns d) {f : OpenLoop} {fs : List OpenLoop} (top : s.frames = f :: fs)
    (may : f.mayBeEmpty = true) (valid : f.valid = true) :
    (readLoop s d).2.frames = { f with emptied := true } :: fs := by
  have turned : readLoop s d = (some .turn, ⟨s.count, { f with emptied := true } :: fs⟩) := by
    rw [readLoop, h.sound, loopBit?, h.name, h.bare, top]
    simp [may, valid]
  rw [turned]

/-- A bare `@empty` outside of such loops is left alone. -/
theorem readLoop_stray (h : Turns d) (outside : ∀ f ∈ s.frames.head?, f.mayBeEmpty = false) :
    readLoop s d = (none, s) := by
  rw [readLoop, h.sound, loopBit?, h.name, h.bare]
  cases hf : s.frames with
  | nil => rfl
  | cons f fs =>
    have never := outside f (by rw [hf]; rfl)
    simp [never]

theorem readLoop_passes (h : d.malformed = true ∨ (d.name = "empty" ∧ d.args ≠ none)) :
    readLoop s d = (none, s) := by
  obtain malformed | ⟨name, given⟩ := h
  · rw [readLoop, if_pos malformed]
  · obtain ⟨a, ha⟩ := Option.ne_none_iff_exists'.mp given
    rw [readLoop]
    split
    · rfl
    · rw [loopBit?, name, ha]
      rfl

end Single

/-- **Well-nested directives begin no empty branch twice**, and leave the open loops as they are. -/
theorem Nested.leaves {inside : Bool} {ds : List Directive} (h : Nested inside ds) :
    ∀ s : Loops, (inside = false → ∀ f ∈ s.frames.head?, f.mayBeEmpty = false) →
      Leaves s ds s.frames := by
  induction h with
  | done => exact fun s _ => ⟨trivial, rfl⟩
  | pass hd _ ih =>
    intro s outside
    have passed := readLoop_passes (s := s) hd
    refine Leaves.cons (by rw [passed]; nofun) ?_
    rw [passed]
    exact ih s outside
  | stray hd _ ih =>
    intro s outside
    have passed := readLoop_stray hd (outside rfl)
    refine Leaves.cons (by rw [passed]; nofun) ?_
    rw [passed]
    exact ih s outside
  | @loop _ d e body rest hd _ he _ ihBody ihRest =>
    intro s outside
    obtain ⟨answer, opened⟩ := readLoop_opens (s := s) hd
    refine Leaves.cons (fun turned => absurd turned answer) ((ihBody _ ?_).append fun s' frames => ?_)
    · intro other f hf
      rw [opened] at hf
      obtain rfl := Option.some.inj hf
      exact other
    · rw [opened] at frames
      obtain ⟨answer', closed⟩ := readLoop_closes he hd frames
      refine Leaves.cons (fun turned => absurd turned answer') ?_
      rw [← closed] at outside ⊢
      exact ihRest _ outside
  | @forelse _ d m e body branch rest hd name _ hm _ he _ ihBody ihBranch ihRest =>
    intro s outside
    obtain ⟨answer, opened⟩ := readLoop_opens (s := s) hd
    refine Leaves.cons (fun turned => absurd turned answer) ((ihBody _ nofun).append fun s' frames => ?_)
    rw [opened] at frames
    have turned := readLoop_turns hm frames (by rw [name]; rfl) rfl
    refine Leaves.cons ?_ ((ihBranch _ nofun).append fun s'' frames' => ?_)
    · intro _ f hf
      rw [frames] at hf
      obtain rfl := Option.some.inj hf
      rfl
    · rw [turned] at frames'
      obtain ⟨answer', closed⟩ := readLoop_closes he hd frames'
      refine Leaves.cons (fun turned => absurd turned answer') ?_
      rw [← closed] at outside ⊢
      exact ihRest _ outside

/-! ### Depth and position -/

/-- **Depth counts blocks and empty branches.**  What is written for a text with well-nested loops is its
stretches; and wherever a loop opens in it, as many loops are around it as blocks and empty branches are
open.  So its depth is one more than the number of blocks, and it is given a position where there is one,
exactly if no empty branch is open; and its depth is one more than that of the loop whose position it is
given, exactly if the innermost of all is a block. -/
theorem rewriteLoops_depth {t : Text} (nested : Nested false (named loopNames (directives t))) :
    rewriteLoops t = (loopBits t).flatMap LoopBit.shown ∧
      ∀ pre n outer h post, loopBits t = pre ++ .opening n outer h :: post →
        outer = (reading pre).blocks.length + (reading pre).branches.length ∧
        (((outer ≠ 0 ↔ (reading pre).blocks ≠ []) ∧ outer = (reading pre).blocks.length) ↔
          (reading pre).branches = []) ∧
        (outer = (reading pre).blocks.headD 0 ↔
          (reading pre).branches.headD 0 ≤ (reading pre).blocks.headD 0) := by
  refine ⟨rewriteLoops_eq t, ?_⟩
  intro pre n outer h post e
  obtain ⟨once, -⟩ := nested.leaves {} fun _ => nofun
  obtain ⟨fs, open?, rfl⟩ := exists_of_opening _ 0 {} pre once e
  have count := validLoops_eq fs
  have deepest := validLoops_eq_max fs
  rw [show reading pre = Reading.of fs from open?]
  simp only [Reading.of]
  refine ⟨count, ?_, by omega⟩
  constructor
  · rintro ⟨-, same⟩
    exact List.length_eq_zero_iff.mp (by omega)
  · intro none
    rw [none, List.length_nil, Nat.add_zero] at count
    refine ⟨?_, count⟩
    rw [count, Ne, List.length_eq_zero_iff]

/-- The source of a loop in an empty branch. -/
def branched : Text := "@forelse(a as x)@empty@foreach(b as y)@endforeach@endforelse"

/-- A loop in an empty branch is given the depth of a loop inside of another one and a position, and
no block is open around it that would bind one. -/
theorem rewriteLoops_depth_branched :
    ∃ pre post, loopBits branched = pre ++ .opening 2 1 ⟨"b", "y", false⟩ :: post ∧
      ¬ (((1 : Nat) ≠ 0 ↔ (reading pre).blocks ≠ []) ∧ 1 = (reading pre).blocks.length) := by
  have listed : named loopNames (directives branched) =
      [⟨"forelse", some "a as x", 0, 16, false⟩, ⟨"empty", none, 16, 22, false⟩,
        ⟨"foreach", some "b as y", 22, 38, false⟩, ⟨"endforeach", none, 38, 49, false⟩,
        ⟨"endforelse", none, 49, 60, false⟩] := by decide +kernel
  have inner : Nested true [⟨"foreach", some "b as y", 22, 38, false⟩, ⟨"endforeach", none, 38, 49, false⟩] :=
    @Nested.loop _ _ _ [] _ ⟨rfl, .inl rfl, by decide +kernel⟩ .done ⟨rfl, by decide⟩ .done
  have nested : Nested false (named loopNames (directives branched)) := by
    rw [listed]
    exact @Nested.forelse _ _ _ _ [] _ _ ⟨rfl, .inr rfl, by decide +kernel⟩ rfl .done ⟨rfl, rfl, rfl⟩ inner
      ⟨rfl, by decide⟩ .done
  have stretches : loopBits branched =
      [.kept [], .opening 1 0 ⟨"a", "x", false⟩, .kept [], .turn, .kept []] ++
        .opening 2 1 ⟨"b", "y", false⟩ ::
          [.kept [], .closing false, .kept [], .closing true, .kept []] := by decide +kernel
  refine ⟨_, _, stretches, ?_⟩
  obtain ⟨-, claimed, -⟩ := (rewriteLoops_depth nested).2 _ _ _ _ _ stretches
  rw [claimed]
  decide

end Pagewright.Lowering
