import Pagewright.Library
import Pagewright.Proofs.Text.Letters
import Pagewright.Proofs.Text.Scan

/-! # Names of templates

A path whose components are neither empty nor full stops is canonical: bringing it into normal form
changes nothing (`Canonical.normal_eq`).  A name is a canonical path without the characters that mean
something in a page (`IsName`), and a library finds under a reference by name what it holds under that
name (`locate_name`). -/

namespace Pagewright

open Text

namespace Text

/-! ### Pieces between separators -/

theorem join_cons_append (sep a u : Text) (ts : List Text) :
    join sep ((u ++ a) :: ts) = u ++ join sep (a :: ts) := by
  cases ts with
  | nil => simp [join, List.intercalate]
  | cons b ts => rw [join_cons_cons, join_cons_cons, List.append_assoc]

theorem join_splitFrom (x : Char) : ∀ t : Text,
    join [x] ((splitFrom [x] 0 t).1 :: (splitFrom [x] 0 t).2) = t
  | [] => rfl
  | c :: r => by
      have ih := join_splitFrom x r
      by_cases hc : x = c
      · subst hc
        have hp : List.isPrefixOf [x] (x :: r) = true := by simp
        rw [splitFrom, if_pos hp]
        exact (join_cons_cons [x] [] _ _).trans (congrArg (x :: ·) ih)
      · have hp : ¬ List.isPrefixOf [x] (c :: r) = true := by simpa using hc
        rw [splitFrom, if_neg hp]
        exact (join_cons_append [x] _ [c] _).trans (congrArg (c :: ·) ih)

/-- A joined text holds all characters of its pieces. -/
theorem mem_join_of_mem {c : Char} (sep : Text) : ∀ {ts : List Text} {t : Text}, t ∈ ts → c ∈ t →
    c ∈ join sep ts
  | [a], t, ht, hc => by
      obtain rfl := List.mem_singleton.mp ht
      simpa [join, List.intercalate] using hc
  | a :: b :: ts, t, ht, hc => by
      rw [join_cons_cons, List.mem_append, List.mem_append]
      obtain rfl | ht := List.mem_cons.mp ht
      · exact Or.inl hc
      · exact Or.inr (Or.inr (mem_join_of_mem sep ht hc))

/-- A text is its pieces with the separator between them. -/
theorem join_splitOn (x : Char) (t : Text) : join [x] (splitOn [x] t) = t := join_splitFrom x t

theorem splitOn_eq (x : Char) : ∀ t : Text, splitOn [x] t = List.splitOnP (· == x) t
  | [] => rfl
  | c :: t => by
      have ih := splitOn_eq x t
      rw [splitOn, if_neg (by simp)] at ih
      rw [List.splitOnP_cons_eq_if_modifyHead, ← ih, splitOn, if_neg (by simp)]
      by_cases hc : c = x
      · subst hc
        have hp : List.isPrefixOf [c] (c :: t) = true := by simp
        rw [splitFrom, if_pos hp, if_pos (beq_self_eq_true c)]
        rfl
      · have hp : ¬ List.isPrefixOf [x] (c :: t) = true := by simpa using Ne.symm hc
        rw [splitFrom, if_neg hp, if_neg (by simpa using hc)]
        rfl

/-- A text is split at a separator into the pieces of what stands around it. -/
theorem splitOn_append (x : Char) (u r : Text) :
    splitOn [x] (u ++ x :: r) = splitOn [x] u ++ splitOn [x] r := by
  rw [splitOn_eq, splitOn_eq, splitOn_eq]
  exact List.splitOnP_append_cons u r (beq_self_eq_true x)

theorem splitOn_of_not_mem {x : Char} {t : Text} (h : x ∉ t) : splitOn [x] t = [t] := by
  rw [splitOn_eq]
  exact List.splitOnP_eq_singleton fun c hc => beq_eq_false_iff_ne.mpr fun e => h (e ▸ hc)

/-- Joined texts are split into the pieces of each. -/
theorem splitOn_join (x : Char) : ∀ (t : Text) (ts : List Text),
    splitOn [x] (join [x] (t :: ts)) = (t :: ts).flatMap (splitOn [x])
  | t, [] => by
      have alone : join [x] [t] = t := List.flatten_singleton
      rw [alone, List.flatMap_singleton]
  | t, u :: ts => by
      rw [join_cons_cons, List.singleton_append, splitOn_append, splitOn_join x u ts]
      rfl

theorem not_mem_of_mem_splitOn {x : Char} : ∀ {t p : Text}, p ∈ splitOn [x] t → x ∉ p
  | [], p, hp => by
      obtain rfl : p = [] := List.mem_singleton.mp hp
      exact List.not_mem_nil
  | c :: t, p, hp => by
      have ih := fun q hq => not_mem_of_mem_splitOn (x := x) (t := t) (p := q) hq
      rw [splitOn_eq] at hp ih
      rw [List.splitOnP_cons_eq_if_modifyHead] at hp
      split at hp
      · obtain rfl | hp := List.mem_cons.mp hp
        · exact List.not_mem_nil
        · exact ih p hp
      · next hc =>
        obtain ⟨q, qs, e⟩ := List.exists_cons_of_ne_nil (List.splitOnP_ne_nil (· == x) t)
        rw [e, List.modifyHead_cons] at hp
        rw [e] at ih
        obtain rfl | hp := List.mem_cons.mp hp
        · have other : ¬ x = c := fun h => hc (by simp [h])
          exact fun hm => (List.mem_cons.mp hm).elim other (ih q List.mem_cons_self)
        · exact ih p (List.mem_cons_of_mem q hp)

end Text

namespace Path

/-- A character that names are written with: a visible one that means nothing in a page, in quotes
or in a tag, such as a letter, a digit, a hyphen or a slash. -/
def isNameChar (c : Char) : Bool := !isSpace c && !"\"'\\@&<>\x7b\x00".toList.contains c

/-- A path in normal form that leads to a place below the root. -/
structure IsName (p : Text) : Prop where
  chars : ∀ c ∈ p, isNameChar c = true
  parts : ∀ c ∈ splitOn "/" p, c ≠ [] ∧ c ≠ ['.'] ∧ c ≠ up

instance (p : Text) : Decidable (IsName p) :=
  decidable_of_iff (p.all isNameChar = true ∧
      ∀ c ∈ splitOn "/" p, c ≠ [] ∧ c ≠ ['.'] ∧ c ≠ up)
    ⟨fun h => ⟨List.all_eq_true.mp h.1, h.2⟩, fun h => ⟨List.all_eq_true.mpr h.chars, h.parts⟩⟩

namespace IsName

variable {p : Text}

/-- None of the characters that mean something is in a name. -/
theorem not_mem (h : IsName p) {c : Char} (hc : isNameChar c = false) : c ∉ p :=
  fun hm => Bool.false_ne_true (hc.symm.trans (h.chars c hm))

theorem not_space (h : IsName p) : ∀ c ∈ p, isSpace c = false := by
  intro c hm
  have hc := h.chars c hm
  rw [isNameChar, Bool.and_eq_true, Bool.not_eq_true'] at hc
  exact hc.1

end IsName

/-! ### Normal forms -/

/-- Components that do not lead back are kept as they are. -/
theorem foldl_step {rooted : Bool} : ∀ {cs : List Text} (done : List Text), (∀ c ∈ cs, c ≠ up) →
    cs.foldl (step rooted) done = cs.reverse ++ done
  | [], _, _ => rfl
  | c :: cs, done, h => by
      have hc : step rooted done c = c :: done := by
        unfold step
        rw [if_neg (h c List.mem_cons_self)]
      rw [List.foldl_cons, hc, foldl_step _ fun d hd => h d (List.mem_cons_of_mem c hd),
        List.reverse_cons, List.append_assoc, List.singleton_append]

theorem reduce_append {rooted : Bool} (bs : List Text) {cs : List Text} (h : ∀ c ∈ cs, c ≠ up) :
    reduce rooted (bs ++ cs) = reduce rooted bs ++ cs := by
  rw [reduce, List.foldl_append, foldl_step _ h, List.reverse_append, List.reverse_reverse]
  rfl

/-- A path that does not start at the root has nothing in front of its components. -/
theorem lead_relative {p : Text} (h : p.head? ≠ some '/') : lead p = [] := by
  unfold lead
  split
  · exact absurd rfl h
  · exact absurd rfl h
  · exact absurd rfl h
  · rfl

/-- A path without empty components, without single full stops and without steps back. -/
def Canonical (p : Text) : Prop := ∀ c ∈ splitOn "/" p, c ≠ [] ∧ c ≠ ['.'] ∧ c ≠ up

instance (p : Text) : Decidable (Canonical p) := List.decidableBAll _ _

namespace Canonical

variable {p : Text} (h : Canonical p)

include h

theorem ne_nil : p ≠ [] := by
  rintro rfl
  exact (h [] (by decide)).1 rfl

theorem head?_ne_slash : p.head? ≠ some '/' := by
  cases p with
  | nil => simp
  | cons c r =>
      rintro e
      obtain rfl : c = '/' := Option.some.inj e
      exact (h [] List.mem_cons_self).1 rfl

theorem parts_eq : Path.parts p = splitOn "/" p :=
  List.filter_eq_self.mpr fun c hc => decide_eq_true ⟨(h c hc).1, (h c hc).2.1⟩

theorem lead_eq : lead p = [] := lead_relative h.head?_ne_slash

/-- **A canonical path is its own normal form.** -/
theorem normal_eq : normal p = p := by
  have hr : ∀ rooted, reduce rooted (splitOn "/" p) = splitOn "/" p :=
    fun rooted => reduce_append [] fun c hc => (h c hc).2.2
  have he : ¬ p.isEmpty = true := by
    rw [List.isEmpty_iff]
    exact h.ne_nil
  unfold normal
  simp only [h.lead_eq, h.parts_eq, hr, List.nil_append]
  rw [show join "/" (splitOn "/" p) = p from join_splitOn '/' p, if_neg he]

end Canonical

theorem IsName.canonical {p : Text} (h : IsName p) : Canonical p := h.parts

end Path

/-! ### References -/

open Pagewright.Path

/-- What a normal form looks like that leads out of a shelf. -/
def Path.Outside (p : Text) : Prop :=
  p.head? = some '/' ∨ p = up ∨ (up ++ ['/']).isPrefixOf p = true

theorem Path.Canonical.not_outside {p : Text} (h : Canonical p) : ¬ Outside p := by
  rintro (e | rfl | e)
  · exact h.head?_ne_slash e
  · exact (h up (by decide)).2.2 rfl
  · obtain ⟨r, rfl⟩ := List.isPrefixOf_iff_prefix.mp e
    exact (h up List.mem_cons_self).2.2 rfl

theorem Shelf.locate_canonical {p : Text} (scope : Text) (h : Canonical p) (plain : '\\' ∉ p) :
    Shelf.locate scope p = .ok p := by
  have hp : replaceAll "\\" "/" p = p :=
    replaceAll_eq_self _ (by decide) (not_infix_of_not_mem plain)
  unfold Shelf.locate
  simp only [hp, h.normal_eq]
  exact if_neg h.not_outside

theorem Shelf.locate_name {p : Text} (scope : Text) (h : IsName p) :
    Shelf.locate scope p = .ok p :=
  Shelf.locate_canonical scope h.canonical (h.not_mem (by decide))

theorem Folder.dropParts?_append : ∀ rs cs : List Text,
    Folder.locate.dropParts? rs (rs ++ cs) = some cs
  | [], cs => by rw [Folder.locate.dropParts?]; rfl
  | r :: rs, cs => by
      rw [List.cons_append, Folder.locate.dropParts?, if_pos rfl, Folder.dropParts?_append rs cs]

theorem Tree.absolute_join (tree : Tree) (r : DiskPath) {cs : List Text} (h : ∀ c ∈ cs, c ≠ up) :
    tree.absolute (r.join ⟨[], cs⟩) = tree.absolute r ++ cs := by
  have hj : r.join ⟨[], cs⟩ = ⟨r.lead, r.parts ++ cs⟩ := rfl
  rw [hj, Tree.absolute, Tree.absolute]
  by_cases hr : r.isRooted = true
  · rw [if_pos hr, if_pos (show (DiskPath.mk r.lead (r.parts ++ cs)).isRooted = true from hr)]
    exact reduce_append _ h
  · rw [if_neg hr, if_neg (show ¬ (DiskPath.mk r.lead (r.parts ++ cs)).isRooted = true from hr),
      ← List.append_assoc]
    exact reduce_append _ h

/-- Where nothing holds a NUL, a reference leads to what follows the components of the root. -/
theorem Folder.locate_plain {f : Folder} {reference : Text} (scope : Text)
    (root : '\x00' ∉ f.root.shown) (plain : '\x00' ∉ reference) :
    f.locate scope reference =
      match locate.dropParts? (f.tree.absolute f.root)
        (f.tree.absolute (f.root.join (.ofText reference))) with
      | none => .error (.problem (.outside reference f.root.shown scope))
      | some [] => .ok ['.']
      | some cs => .ok (Text.join "/" cs) := by
  refine if_neg ?_
  rw [Bool.or_eq_true, List.contains_iff_mem, List.contains_iff_mem]
  exact not_or.mpr ⟨root, plain⟩

theorem Folder.locate_name {f : Folder} {p : Text} (scope : Text) (hf : '\x00' ∉ f.root.shown)
    (h : IsName p) : f.locate scope p = .ok p := by
  have ht : DiskPath.ofText p = ⟨[], splitOn "/" p⟩ := by
    rw [DiskPath.ofText, h.canonical.lead_eq, h.canonical.parts_eq]
  have hd : Folder.locate.dropParts? (f.tree.absolute f.root)
      (f.tree.absolute (f.root.join ⟨[], splitOn "/" p⟩)) = some (splitOn "/" p) := by
    rw [Tree.absolute_join _ _ fun c hc => (h.parts c hc).2.2, Folder.dropParts?_append]
  rw [Folder.locate_plain scope hf (h.not_mem (by decide)), ht, hd]
  exact congrArg Except.ok (join_splitOn '/' p)

end Pagewright
