import Pagewright.Proofs.Assembly.Marker

/-! # Stacks

A printed page of text, places of stacks and fragments that are nested in each other to any depth
(`FragmentPage`).  Cutting the fragments out of such a page is one walk over it: a fragment gets its
number where it opens and its content where it closes, and meanwhile the fragments inside it are filed
behind it (`Capture.run_shown`, by induction on the page, with whatever follows the page as a
variable).  Putting the stacks where they are placed is a walk over what is left
(`replaceHits_own`).  Together they give what a page comes out as (`flushStacks_shown`).

Main definitions: `FragmentPage`, its `own` text, its `stack`s, and the text that is `flushed`. -/

namespace Pagewright.Assembly

open Text Lowering

/-- A printed page: text that a place of a stack or a fragment follows, as often as there are any, and
the text behind the last of them. -/
inductive FragmentPage where
  | text (t : Text)
  | place (t name : Text) (rest : FragmentPage)
  | fragment (t : Text) (prepended : Bool) (name : Text) (body rest : FragmentPage)
  deriving DecidableEq, Repr

namespace FragmentPage

/-- A page as it is printed. -/
def shown : FragmentPage → Text
  | text t => t
  | place t name rest => t ++ (marker "stack" name ++ rest.shown)
  | fragment t prepended name body rest =>
      t ++ (FragmentMarker.shown ⟨false, prepended, name⟩ ++
        (body.shown ++ (FragmentMarker.shown ⟨true, prepended, name⟩ ++ rest.shown)))

/-- What a page holds itself: what is left of it when its fragments are cut out. -/
def own : FragmentPage → Text
  | text t => t
  | place t name rest => t ++ (marker "stack" name ++ rest.own)
  | fragment t _ _ _ rest => t ++ rest.own

/-- The fragments of a page, each with what it holds itself, in the order in which they open. -/
def fragments : FragmentPage → List Fragment
  | text _ => []
  | place _ _ rest => rest.fragments
  | fragment _ prepended name body rest =>
      ⟨prepended, name, some body.own⟩ :: (body.fragments ++ rest.fragments)

/-- What is prepended or pushed to a stack, in the order in which the fragments open. -/
def filed (prepended : Bool) (name : Text) : FragmentPage → List Text
  | text _ => []
  | place _ _ rest => rest.filed prepended name
  | fragment _ p n body rest =>
      (if p = prepended ∧ n = name then [body.own] else []) ++
        (body.filed prepended name ++ rest.filed prepended name)

/-- A stack: all that is prepended to it, then all that is pushed to it. -/
def stack (d : FragmentPage) (name : Text) : Text :=
  (d.filed true name ++ d.filed false name).flatten

/-- The text outside the fragments with contents at the places of stacks. -/
def flushed (content : Text → Text) : FragmentPage → Text
  | text t => t
  | place t name rest => t ++ (content name ++ rest.flushed content)
  | fragment t _ _ _ rest => t ++ rest.flushed content

/-- The names in the markers of a page. -/
def names : FragmentPage → List Text
  | text _ => []
  | place _ name rest => name :: rest.names
  | fragment _ _ name body rest => name :: (body.names ++ rest.names)

/-- The texts between the markers of a page. -/
def texts : FragmentPage → List Text
  | text t => [t]
  | place t _ rest => t :: rest.texts
  | fragment t _ _ body rest => t :: (body.texts ++ rest.texts)

/-- The texts between the places outside the fragments, as they stand when the fragments are cut out;
the first is put behind a text that is there already. -/
def runs (before : Text) : FragmentPage → List Text
  | text t => [before ++ t]
  | place t _ rest => (before ++ t) :: rest.runs []
  | fragment t _ _ _ rest => rest.runs (before ++ t)

/-- A page whose texts hold no marker of a fragment and, once the fragments are cut out, no place of a
stack. -/
structure Sound (d : FragmentPage) : Prop where
  names : ∀ n ∈ d.names, MarkerName n
  texts : ∀ t ∈ d.texts, Nowhere fragmentMarker? t
  runs : ∀ t ∈ d.runs [], Nowhere stackPlace? t

instance (d : FragmentPage) : Decidable d.Sound :=
  decidable_of_iff
    ((∀ n ∈ d.names, MarkerName n) ∧ (∀ t ∈ d.texts, Nowhere fragmentMarker? t) ∧
      ∀ t ∈ d.runs [], Nowhere stackPlace? t)
    ⟨fun ⟨a, b, c⟩ => ⟨a, b, c⟩, fun ⟨a, b, c⟩ => ⟨a, b, c⟩⟩

end FragmentPage

/-! ### Cutting fragments out -/

namespace Capture

theorem write_nil (c : Capture) : c.write [] = c := by
  obtain ⟨outside, opened, fragments⟩ := c
  cases opened <;> simp [write]

theorem write_write (c : Capture) (a b : Text) : (c.write a).write b = c.write (a ++ b) := by
  obtain ⟨outside, opened, fragments⟩ := c
  cases opened <;> simp [write]

/-- What a capture has when a page went by: its own text and its fragments. -/
def absorb (c : Capture) (own : Text) (fragments : List Fragment) : Capture :=
  { c.write own with fragments := c.fragments ++ fragments }

theorem absorb_text (c : Capture) (t : Text) : c.absorb t [] = c.write t := by
  obtain ⟨outside, opened, fragments⟩ := c
  cases opened <;> simp [absorb, write]

theorem absorb_absorb (c : Capture) (a b : Text) (fs gs : List Fragment) :
    (c.absorb a fs).absorb b gs = c.absorb (a ++ b) (fs ++ gs) := by
  obtain ⟨outside, opened, fragments⟩ := c
  cases opened <;> simp [absorb, write]

/-- A fragment is filed where it opens, and what opens inside it is filed behind it. -/
theorem mark_absorb_mark (c : Capture) (prepended : Bool) (name own : Text) (fs : List Fragment) :
    ((c.mark ⟨false, prepended, name⟩).absorb own fs).mark ⟨true, prepended, name⟩ =
      c.absorb [] (⟨prepended, name, some own⟩ :: fs) := by
  obtain ⟨outside, opened, fragments⟩ := c
  have filed : (fragments ++ ⟨prepended, name, none⟩ :: fs).modify fragments.length
      (fun f => { f with content := some own }) = fragments ++ ⟨prepended, name, some own⟩ :: fs := by
    rw [List.modify_eq_take_cons_drop (by simp)]
    simp
  cases opened <;> simp [mark, absorb, write, filed]

theorem run_map_char (c : Capture) (t : Text) (ps : List (Piece FragmentMarker)) :
    c.run (t.map .char ++ ps) = (c.write t).run ps := by
  induction t generalizing c with
  | nil => rw [write_nil, List.map_nil, List.nil_append]
  | cons x t ih => rw [List.map_cons, List.cons_append, run, ih, write_write, List.singleton_append]

variable {t r : Text}

theorem run_text (ht : Nowhere fragmentMarker? t) (hr : AtBracket r) (c : Capture) (pos : Nat) :
    c.run (piecesFrom fragmentMarker? pos 0 (t ++ r)) =
      (c.write t).run (piecesFrom fragmentMarker? (pos + t.length) 0 r) := by
  rw [piecesFrom_quiet fragmentMarker? pos t r (quiet_atBracket fragmentMarker?_parted ht hr),
    run_map_char]

theorem run_marker {m : FragmentMarker} (h : MarkerName m.name) (c : Capture) (pos : Nat) :
    c.run (piecesFrom fragmentMarker? pos 0 (m.shown ++ r)) =
      (c.mark m).run (piecesFrom fragmentMarker? (pos + m.shown.length) 0 r) := by
  rw [piecesFrom_hit fragmentMarker? pos m.shown_ne_nil (fragmentMarker?_shown h r), run]

/-- The place of a stack is text, as long as fragments are cut out. -/
theorem run_place {n : Text} (h : MarkerName n) (c : Capture) (pos : Nat) :
    c.run (piecesFrom fragmentMarker? pos 0 (marker "stack" n ++ r)) =
      (c.write (marker "stack" n)).run
        (piecesFrom fragmentMarker? (pos + (marker "stack" n).length) 0 r) := by
  have quiet := quiet_marker fragmentMarker?_leads "stack" (by decide) h (fragmentMarker?_place n r)
  rw [piecesFrom_quiet fragmentMarker? pos _ r quiet, run_map_char]

/-- **Cutting the fragments out of a page**, whatever follows it: its own text is put behind what is
there, and its fragments are filed. -/
theorem run_shown (d : FragmentPage) (hn : ∀ n ∈ d.names, MarkerName n)
    (ht : ∀ t ∈ d.texts, Nowhere fragmentMarker? t) (hr : AtBracket r) (c : Capture) (pos : Nat) :
    c.run (piecesFrom fragmentMarker? pos 0 (d.shown ++ r)) =
      (c.absorb d.own d.fragments).run (piecesFrom fragmentMarker? (pos + d.shown.length) 0 r) := by
  induction d generalizing c pos r with
  | text t =>
    rw [FragmentPage.shown, run_text (ht t List.mem_cons_self) hr]
    exact congrArg (run · _) (absorb_text c t).symm
  | place t name rest ih =>
    obtain ⟨named, names⟩ := List.forall_mem_cons.mp hn
    obtain ⟨plain, texts⟩ := List.forall_mem_cons.mp ht
    rw [FragmentPage.shown, List.append_assoc, List.append_assoc,
      run_text plain (atBracket_marker _ _ _), run_place named, ih names texts hr]
    rw [← absorb_text, ← absorb_text, absorb_absorb, absorb_absorb]
    simp only [FragmentPage.own, FragmentPage.fragments, List.nil_append, List.length_append,
      Nat.add_assoc]
  | fragment t prepended name body rest ihb ihr =>
    obtain ⟨named, names⟩ := List.forall_mem_cons.mp hn
    obtain ⟨plain, texts⟩ := List.forall_mem_cons.mp ht
    obtain ⟨bodyNames, restNames⟩ := List.forall_mem_append.mp names
    obtain ⟨bodyTexts, restTexts⟩ := List.forall_mem_append.mp texts
    rw [FragmentPage.shown]
    simp only [List.append_assoc]
    rw [run_text plain (atBracket_shown _ _), run_marker named,
      ihb bodyNames bodyTexts (atBracket_shown _ _), run_marker named, mark_absorb_mark,
      ihr restNames restTexts hr, ← absorb_text, absorb_absorb, absorb_absorb]
    simp only [FragmentPage.own, FragmentPage.fragments, List.nil_append, List.cons_append,
      List.length_append, Nat.add_assoc]

end Capture

namespace FragmentPage

/-- Every fragment of a page is closed. -/
theorem closed_fragments (d : FragmentPage) : ∀ f ∈ d.fragments, f.content.isSome = true := by
  induction d with
  | text t => simp [fragments]
  | place t name rest ih => exact ih
  | fragment t prepended name body rest ihb ihr =>
    intro f hf
    rcases List.mem_cons.mp hf with rfl | hf
    · rfl
    · rcases List.mem_append.mp hf with hf | hf
      · exact ihb f hf
      · exact ihr f hf

theorem Sound.capture {d : FragmentPage} (h : d.Sound) : capture d.shown = (d.own, d.fragments) := by
  have whole := Capture.run_shown d h.names h.texts atBracket_nil {} 0
  rw [List.append_nil, piecesFrom, Capture.run] at whole
  have closed : d.fragments.filter (fun f => f.content.isSome) = d.fragments :=
    List.filter_eq_self.mpr d.closed_fragments
  unfold Assembly.capture pieces
  rw [whole]
  simp [Capture.absorb, Capture.write, Capture.remainder, closed]

/-! ### Stacks -/

/-- What is filed for a stack is what its fragments hold. -/
theorem filed_eq (d : FragmentPage) (prepended : Bool) (name : Text) :
    (d.filed prepended name).flatten =
      (d.fragments.filter fun f => f.name = name ∧ f.prepended = prepended).flatMap
        fun f => f.content.getD [] := by
  induction d with
  | text t => rfl
  | place t n rest ih => exact ih
  | fragment t p n body rest ihb ihr =>
    rw [filed, fragments, List.flatten_append, List.flatten_append, ihb, ihr, List.filter_cons]
    by_cases same : p = prepended ∧ n = name
    · simp [same]
    · have other : ¬ (n = name ∧ p = prepended) := fun ⟨a, b⟩ => same ⟨b, a⟩
      simp [same, other]

theorem stackContent_fragments (d : FragmentPage) (name : Text) :
    stackContent d.fragments name = d.stack name := by
  unfold stackContent stack
  rw [List.flatten_append, filed_eq, filed_eq]
  simp [List.filter_filter, and_comm]

theorem replaceHits_own (content : Text → Text) (d : FragmentPage)
    (hn : ∀ n ∈ d.names, MarkerName n) (before : Text)
    (hr : ∀ t ∈ d.runs before, Nowhere stackPlace? t) :
    replaceHits stackPlace? content (before ++ d.own) = before ++ d.flushed content := by
  induction d generalizing before with
  | text t => exact replaceHits_quiet content (hr _ List.mem_cons_self).quiet
  | place t name rest ih =>
    obtain ⟨named, names⟩ := List.forall_mem_cons.mp hn
    obtain ⟨run, runs⟩ := List.forall_mem_cons.mp hr
    have behind := ih names [] runs
    rw [List.nil_append, List.nil_append, replaceHits_eq] at behind
    have quiet := quiet_atBracket stackPlace?_parted run (atBracket_marker "stack" name rest.own)
    rw [own, flushed, ← List.append_assoc, replaceHits_eq, piecesFrom_quiet stackPlace? 0 _ _ quiet,
      piecesFrom_hit stackPlace? _ (marker_ne_nil _ _) (stackPlace?_marker named rest.own)]
    simp only [List.flatMap_append, List.flatMap_cons, List.flatMap_map, Piece.replaced]
    rw [replaced_piecesFrom content rest.own _ 0 0, behind, List.append_assoc]
    simp
  | fragment t prepended name body rest ihb ihr =>
    obtain ⟨-, names⟩ := List.forall_mem_cons.mp hn
    have behind := ihr (List.forall_mem_append.mp names).2 (before ++ t) hr
    rw [own, flushed, ← List.append_assoc, behind, List.append_assoc]

end FragmentPage

/-- **What comes out of a page with stacks**: the text outside its fragments, and at each place of a
stack all that is prepended to it and then all that is pushed to it, in the order in which the
fragments open. -/
theorem flushStacks_shown {d : FragmentPage} (h : d.Sound) :
    flushStacks d.shown = d.flushed d.stack := by
  unfold flushStacks
  have placed := d.replaceHits_own (stackContent d.fragments) h.names [] h.runs
  have contents : stackContent d.fragments = d.stack := funext d.stackContent_fragments
  rw [List.nil_append, List.nil_append, contents] at placed
  rw [h.capture]
  simp only [contents]
  exact placed

/-- A page on which a fragment for the head is pushed inside one for the foot, another one for the head
is prepended behind it, and one is for a stack without a place. -/
def nestedFragments : FragmentPage :=
  .place "<head>" "head"
    (.fragment "</head><p>" false "foot"
      (.fragment "a" false "head" (.text "b") (.text "c"))
      (.fragment "d" true "head" (.text "e")
        (.fragment "</p>" false "aside" (.text "f")
          (.place "" "foot" (.place "<i>" "none" (.text "</i>"))))))

theorem flushStacks_nestedFragments :
    nestedFragments.Sound ∧
      flushStacks nestedFragments.shown = "<head>eb</head><p>d</p>ac<i></i>".toList := by
  have sound : nestedFragments.Sound := by decide +kernel
  exact ⟨sound, (flushStacks_shown sound).trans (by decide +kernel)⟩

end Pagewright.Assembly
