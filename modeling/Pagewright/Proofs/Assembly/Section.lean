import Pagewright.Assembly.Section
import Pagewright.Proofs.Assembly.Stretch
import Pagewright.Proofs.Directive.Span
import Pagewright.Proofs.Text.Named

/-! # Sections taken out of a text

The blocks of any text that declare sections stand one behind the other, so the text is made of them
and of the stretches around them (`weave_stretchesAround`).  Taking the sections out leaves these
stretches, and a name has the value that the last block declares under it
(`extractSections_conserved`).  Blocks that declare nothing stay in the text as they are.

Main definitions: `Declares`, `declarations`, `Holds`, `stretchesAround`. -/

namespace Pagewright

open Text

namespace Assembly

open Directive

/-! ### Stretches around blocks -/

/-- The stretches of a text before, between and behind some blocks, from offset `last` on. -/
def stretchesAround (t : Text) : Nat → List Block → List Text
  | last, [] => [t.drop last]
  | last, b :: bs => slice t last b.start :: stretchesAround t b.stop bs

/-- What a block is written as in its text. -/
def blockSource (t : Text) (b : Block) : Text := slice t b.start b.stop

theorem length_stretchesAround (t : Text) : ∀ (last : Nat) (bs : List Block),
    (stretchesAround t last bs).length = bs.length + 1
  | _, [] => rfl
  | _, b :: bs => by
      rw [stretchesAround, List.length_cons, length_stretchesAround t b.stop bs, List.length_cons]

/-- A text is made of its blocks and of the stretches around them. -/
theorem weave_stretchesAround (t : Text) : ∀ {last : Nat} {bs : List Block},
    LaidBlocks t.length last bs →
    weave (stretchesAround t last bs) (bs.map (blockSource t)) = t.drop last
  | last, [], _ => List.append_nil (t.drop last)
  | last, b :: bs, h => by
      obtain ⟨front, around, -⟩ := h.inside b List.mem_cons_self
      rw [stretchesAround, List.map_cons, weave, weave_stretchesAround t h.tail, blockSource,
        List.append_assoc, slice_append_drop t around, slice_append_drop t front]

/-- Without its blocks, a text is the stretches around them. -/
theorem editFrom_removed (t : Text) : ∀ (last : Nat) (bs : List Block),
    editFrom t last (bs.map fun b => ⟨b.start, b.stop, []⟩) = (stretchesAround t last bs).flatten
  | last, [] => (List.append_nil (t.drop last)).symm
  | last, b :: bs => by
      rw [List.map_cons, editFrom, List.append_nil, editFrom_removed t b.stop bs]
      rfl

/-! ### Declarations -/

/-- A block that declares a section: its name is a string literal, and it is closed or has a second
argument. -/
def Declares (b : Block) : Prop :=
  (blockName? b).isSome ∧ (b.closer.isSome ∨ 2 ≤ b.opener.argumentList.length)

instance : DecidablePred Declares := fun _ => inferInstanceAs (Decidable (_ ∧ _))

/-- The blocks of a text that declare sections, in order. -/
def declarations (t : Text) : List Block := (sectionBlocks t).filter Declares

/-- What a block of a text says that its section holds: the trimmed content, or the value of the
second argument, or this argument as it is written if it is no string literal. -/
inductive Holds (t : Text) (b : Block) : Text → Prop
  | content {e : Directive} : b.closer = some e → Holds t b (strip (slice t b.opener.stop e.start))
  | literal {name argument value : Text} {more : List Text} : b.closer = none →
      b.opener.argumentList = name :: argument :: more → literal? argument = some value →
        Holds t b value
  | written {name argument : Text} {more : List Text} : b.closer = none →
      b.opener.argumentList = name :: argument :: more → literal? argument = none →
        Holds t b argument

/-- The name and the value that a block declares, if it declares a section. -/
def declaration (b : Block) : Text × Text := ((blockName? b).getD [], (sectionBody? id b).getD [])

theorem isSome_sectionBody? (raw : Text → Text) (b : Block) :
    (sectionBody? raw b).isSome ↔ b.closer.isSome ∨ 2 ≤ b.opener.argumentList.length := by
  unfold sectionBody?
  split
  · next e closed => simp [closed]
  · next unclosed =>
    rw [unclosed]
    split
    · next arguments => simp [arguments]
    · next few =>
      cases arguments : b.opener.argumentList with
      | nil => simp
      | cons name more =>
        cases more with
        | nil => simp
        | cons value more => exact absurd arguments (few name value more)

/-- A block that declares a section declares its name and its value. -/
theorem section?_of_declares {b : Block} (h : Declares b) : section? b = some (declaration b) := by
  obtain ⟨name, hn⟩ := Option.isSome_iff_exists.mp h.1
  obtain ⟨value, hv⟩ := Option.isSome_iff_exists.mp ((isSome_sectionBody? id b).mpr h.2)
  simp only [section?, declaration, hn, hv]
  rfl

theorem section?_of_not_declares {b : Block} (h : ¬ Declares b) : section? b = none := by
  by_contra given
  obtain ⟨s, hs⟩ := Option.ne_none_iff_exists'.mp given
  obtain ⟨name, hn, hs⟩ := Option.bind_eq_some_iff.mp hs
  obtain ⟨value, hv, -⟩ := Option.bind_eq_some_iff.mp hs
  exact h ⟨Option.isSome_of_mem hn, (isSome_sectionBody? id b).mp (Option.isSome_of_mem hv)⟩

/-- What a block declares is what it says that its section holds. -/
theorem holds_iff {t value : Text} {b : Block}
    (content : ∀ e ∈ b.closer, b.content = some (slice t b.opener.stop e.start)) :
    Holds t b value ↔ sectionBody? id b = some value := by
  constructor
  · rintro (closed | ⟨unclosed, arguments, read⟩ | ⟨unclosed, arguments, read⟩)
    · rw [sectionBody?, closed]
      exact congrArg (fun c : Option Text => some (strip (c.getD []))) (content _ closed)
    · simp only [sectionBody?, unclosed, arguments, read, Option.getD_some]
    · simp only [sectionBody?, unclosed, arguments, read, Option.getD_none, id]
  · intro body
    unfold sectionBody? at body
    split at body
    · next e closed =>
      obtain rfl := Option.some.inj body
      rw [content e closed]
      exact .content closed
    · next unclosed =>
      split at body
      · next name argument more arguments =>
        cases read : literal? argument with
        | some v =>
          rw [read] at body
          obtain rfl := Option.some.inj body
          exact .literal unclosed arguments read
        | none =>
          rw [read] at body
          obtain rfl := Option.some.inj body
          exact .written unclosed arguments read
      · cases body

theorem extractSections_eq (t : Text) : extractSections t =
    (Named.putAll [] ((declarations t).map declaration),
      applyEdits t ((declarations t).map fun b => ⟨b.start, b.stop, []⟩)) := by
  have found : (sectionBlocks t).filterMap (fun b => (section? b).map fun s => (b, s)) =
      (declarations t).map fun b => (b, declaration b) := by
    rw [declarations, ← List.filterMap_eq_map, List.filterMap_filter]
    refine List.filterMap_congr fun b _ => ?_
    by_cases h : Declares b
    · rw [section?_of_declares h]
      simp [h]
    · rw [section?_of_not_declares h]
      simp [h]
  unfold extractSections
  simp only [found, List.map_map]
  rfl

theorem mem_declarations {t : Text} {b : Block} (h : b ∈ declarations t) :
    b ∈ sectionBlocks t ∧ Declares b := by
  obtain ⟨inside, declares⟩ := List.mem_filter.mp h
  exact ⟨inside, of_decide_eq_true declares⟩

theorem name_declaration {b : Block} {name : Text} (h : Declares b) :
    (declaration b).1 = name ↔ blockName? b = some name := by
  obtain ⟨own, hn⟩ := Option.isSome_iff_exists.mp h.1
  rw [declaration, hn, Option.some_inj]
  rfl

/-- A declared section holds what its block says. -/
theorem value_declaration {t value : Text} {b : Block} (h : b ∈ declarations t) :
    (declaration b).2 = value ↔ Holds t b value := by
  obtain ⟨inside, declares⟩ := mem_declarations h
  obtain ⟨own, hv⟩ := Option.isSome_iff_exists.mp ((isSome_sectionBody? id b).mpr declares.2)
  rw [holds_iff (content_blocksFrom t _ _ _ _ _ b inside), declaration, hv, Option.some_inj]
  rfl

/-- The last declaration of a name counts. -/
theorem lookup_extractSections {t name value : Text} :
    (extractSections t).1.lookup name = some value ↔
      ∃ before b after, declarations t = before ++ b :: after ∧ blockName? b = some name ∧
        (∀ a ∈ after, blockName? a ≠ some name) ∧ Holds t b value := by
  rw [extractSections_eq]
  refine (Named.lookup_putAll_map (fun b => (declaration b).1) (fun b => (declaration b).2)).trans ?_
  refine exists_congr fun before => exists_congr fun b => exists_congr fun after => ?_
  refine and_congr_right fun split => ?_
  have mem : ∀ a ∈ b :: after, a ∈ declarations t := fun a ha => by
    rw [split]
    exact List.mem_append_right before ha
  have named : ∀ a ∈ b :: after, (declaration a).1 = name ↔ blockName? a = some name :=
    fun a ha => name_declaration (mem_declarations (mem a ha)).2
  obtain ⟨own, others⟩ := List.forall_mem_cons.mp named
  have later : (∀ a ∈ after, (declaration a).1 ≠ name) ↔ ∀ a ∈ after, blockName? a ≠ some name :=
    forall₂_congr fun a ha => not_congr (others a ha)
  rw [own, later, value_declaration (mem b List.mem_cons_self)]

/-- **Taking out the sections of a text loses nothing.**  The blocks that declare sections stand one
behind the other; the text is made of them and of the stretches around them, and the rest is these
stretches.  A name has the value that the last block declares under it, and no other names have
values. -/
theorem extractSections_conserved (t : Text) :
    LaidBlocks t.length 0 (declarations t) ∧
    (stretchesAround t 0 (declarations t)).length = (declarations t).length + 1 ∧
    weave (stretchesAround t 0 (declarations t)) ((declarations t).map (blockSource t)) = t ∧
    (extractSections t).2 = (stretchesAround t 0 (declarations t)).flatten ∧
    ((extractSections t).1.map Prod.fst).Nodup ∧
    ∀ name value, (extractSections t).1.lookup name = some value ↔
      ∃ before b after, declarations t = before ++ b :: after ∧ blockName? b = some name ∧
        (∀ a ∈ after, blockName? a ≠ some name) ∧ Holds t b value := by
  have laid : LaidBlocks t.length 0 (declarations t) :=
    (laid_blocks t _ _ _).sublist List.filter_sublist
  refine ⟨laid, length_stretchesAround t 0 _, weave_stretchesAround t laid, ?_, ?_,
    fun name value => lookup_extractSections⟩
  · rw [extractSections_eq]
    exact editFrom_removed t 0 _
  · rw [extractSections_eq]
    exact Named.nodup_putAll _ List.nodup_nil

/-- An opener without a literal name and one that nothing closes are left in the text. -/
example : (extractSections "a@section(z) @section('w') c @endsection d@section('v')").2 =
    "a@section(z)  d@section('v')".toList := by decide +kernel

end Assembly

end Pagewright
