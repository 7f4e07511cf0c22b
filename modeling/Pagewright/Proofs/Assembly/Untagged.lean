import Pagewright.Proofs.Assembly.LinkTag
import Pagewright.Proofs.Text.Parted

/-! # Texts without include tags

A text in which no boundary of an include tag is recognised holds no include tag
(`includeTags_of_nowhere`).  With some characters no boundary goes on (`Edge`), and with most of them
none begins (`Seam`): where such a character stands between two texts, both are read as if they stood
alone (`boundary?_parted`), so what is put between them starts no tag (`nowhere_boundary?_glue`).

Main definitions: `Edge`, `Seam`. -/

namespace Pagewright.Assembly

open Text

/-- A text in which no boundary is recognised holds no tag. -/
theorem includeTags_of_nowhere {t : Text} (h : Nowhere boundary? t) : includeTags t = [] := by
  have unbounded : boundaries t = [] := by
    unfold boundaries
    rw [pieces_quiet h.quiet, List.filterMap_map]
    simp
  unfold includeTags
  rw [unbounded]
  rfl

/-- A character with which no boundary goes on. -/
structure Edge (x : Char) : Prop where
  foreign : x ∉ "/>".toList
  unlettered : ∀ l ∈ "include".toList, isLetter l x = false
  unspaced : isSpace x = false
  unworded : isWord x = false

instance (x : Char) : Decidable (Edge x) :=
  -- Over the letters of the name: going through all characters would not come to an end.
  haveI : Decidable (∀ l ∈ "include".toList, isLetter l x = false) := List.decidableBAll _ _
  decidable_of_iff (x ∉ "/>".toList ∧ (∀ l ∈ "include".toList, isLetter l x = false) ∧
      isSpace x = false ∧ isWord x = false)
    ⟨fun ⟨a, b, c, d⟩ => ⟨a, b, c, d⟩, fun ⟨a, b, c, d⟩ => ⟨a, b, c, d⟩⟩

/-- A character that no boundary holds and no name of a tag goes on with. -/
structure Seam (x : Char) : Prop extends Edge x where
  angle : x ≠ '<'

instance (x : Char) : Decidable (Seam x) :=
  decidable_of_iff (Edge x ∧ x ≠ '<') ⟨fun ⟨a, b⟩ => ⟨a, b⟩, fun ⟨a, b⟩ => ⟨a, b⟩⟩

variable {x : Char}

theorem dropName?_parted : ∀ {name : Text}, (∀ l ∈ name, isLetter l x = false) → ∀ t r : Text,
    dropName? name (t ++ x :: r) = (dropName? name t).map (· ++ x :: r)
  | [], _, t, r => by
      rw [dropName?, dropName?]
      rfl
  | l :: name, h, [], r => by
      rw [List.nil_append, dropName?, dropName?, h l List.mem_cons_self]
      rfl
  | l :: name, h, c :: t, r => by
      have ih := dropName?_parted (fun m hm => h m (List.mem_cons_of_mem l hm)) t r
      rw [List.cons_append, dropName?, dropName?, ih]
      split <;> rfl

/-- Behind an angle bracket without a slash, a boundary opens a tag. -/
theorem boundary?_opening {t : Text} (h : t.head? ≠ some '/') : boundary? ('<' :: t) =
    (dropName? "include" t).bind fun rest =>
      if (rest.head?.map isWord).getD false then none else some (false, 8) := by
  unfold boundary?
  split
  · next e => exact absurd (congrArg List.head? (List.cons.inj e).2) h
  · next e =>
    obtain ⟨-, rfl⟩ := List.cons.inj e
    cases dropName? "include" t with
    | none => rfl
    | some rest =>
        simp only [Option.bind_eq_bind, Option.bind_some]
        split <;> rfl
  · next h' => exact absurd rfl (h' t)

theorem boundary?_closing (t : Text) : boundary? ('<' :: '/' :: t) =
    (dropName? "include" t).bind fun rest => (dropLead? ">" (stripLeft rest)).bind fun behind =>
      some (true, ('<' :: '/' :: t).length - behind.length) := rfl

/-- **An edge ends what is read of a boundary** that begins in front of it. -/
theorem boundary?_edge (hx : Edge x) {t : Text} (ht : t ≠ []) (r : Text) :
    boundary? (t ++ x :: r) = boundary? t := by
  have name := dropName?_parted hx.unlettered
  have opening : ∀ t : Text, t.head? ≠ some '/' →
      boundary? ('<' :: (t ++ x :: r)) = boundary? ('<' :: t) := by
    intro t ht
    have ht' : (t ++ x :: r).head? ≠ some '/' := by
      cases t with
      | nil => exact fun e => hx.foreign (Option.some.inj e ▸ by decide)
      | cons c t => exact ht
    rw [boundary?_opening ht, boundary?_opening ht', name]
    cases dropName? "include" t with
    | none => rfl
    | some rest =>
        cases rest with
        | nil => simp [hx.unworded]
        | cons c rest => rfl
  obtain ⟨c, t, rfl⟩ := List.exists_cons_of_ne_nil ht
  by_cases hc : c = '<'
  · subst hc
    by_cases ht : t.head? = some '/'
    · obtain ⟨t, rfl⟩ := List.head?_eq_some_iff.mp ht
      rw [List.cons_append, List.cons_append, boundary?_closing, boundary?_closing, name]
      cases dropName? "include" t with
      | none => rfl
      | some rest =>
          have close : dropLead? ">" (stripLeft rest ++ x :: r) =
              (dropLead? ">" (stripLeft rest)).map (· ++ x :: r) :=
            dropLead?_parted (fun hm => hx.foreign (by
              rw [List.mem_singleton.mp hm]
              decide)) _ r
          simp only [Option.map_some, Option.bind_some, stripLeft_parted hx.unspaced, close]
          cases dropLead? ">" (stripLeft rest) with
          | none => rfl
          | some behind =>
              simp only [Option.map_some, Option.bind_some, List.length_cons, List.length_append]
              congr 2
              omega
    · exact opening t ht
  · rw [List.cons_append, boundary?_leads c _ hc, boundary?_leads c _ hc]

/-- **A seam parts what is read of a boundary.** -/
theorem boundary?_parted (hx : Seam x) (t r : Text) : boundary? (t ++ x :: r) = boundary? t := by
  cases t with
  | nil => exact boundary?_leads x r hx.angle
  | cons c t => exact boundary?_edge hx.toEdge (List.cons_ne_nil c t) r

/-- **What stands between two seams starts no tag**, if it holds no angle bracket. -/
theorem nowhere_boundary?_glue (hx : Seam x) {u w r : Text} (hu : Nowhere boundary? u)
    (hw : '<' ∉ w) (hr : Nowhere boundary? r) : Nowhere boundary? (u ++ (x :: w ++ r)) := by
  intro v hv
  obtain hv | ⟨m, -, hm, rfl⟩ := suffix_append_cases hv
  · obtain hv | ⟨m, hn, hm, rfl⟩ := suffix_append_cases hv
    · exact hr v hv
    · obtain ⟨c, m, rfl⟩ := List.exists_cons_of_ne_nil hn
      refine boundary?_leads c _ fun e => ?_
      obtain rfl | hc := List.mem_cons.mp (hm.subset List.mem_cons_self)
      · exact hx.angle e
      · exact hw (e ▸ hc)
  · rw [List.cons_append, boundary?_parted hx]
    exact hu m hm

end Pagewright.Assembly
