import Pagewright.Proofs.Library.Reference

/-! # References into a folder

A reference into a folder leads to a place of the file tree that is read off the components of the
folder's root and of the reference, as no directory is a link to another.  Taking every way back leaves
the lexical form of a path (`lexical_iff`).  A reference is accepted exactly if its lexical form starts
with the components of the root, and what is answered are the components that follow them
(`Folder.locate_below`).

Main definitions: `Shortens`, `Lexical`, `Folder.base`, `Folder.target`. -/

namespace Pagewright

open Text

namespace Path

/-! ### Lexical forms -/

/-- Ways back from places are taken: the name in front of one goes with it, and at the root it leads
nowhere. -/
inductive Shortens : List Text → List Text → Prop
  | pair {cs ds : List Text} : Cancels cs ds → Shortens cs ds
  | top (cs : List Text) : Shortens (up :: cs) cs

/-- What is left of components below the root of a file tree when every way back is taken. -/
def Lexical (cs ds : List Text) : Prop := Relation.ReflTransGen Shortens cs ds ∧ up ∉ ds

theorem step_top : step true [] up = [] := rfl

theorem reduce_shortens {cs ds : List Text} (h : Shortens cs ds) :
    reduce true cs = reduce true ds := by
  cases h with
  | pair h => exact reduce_cancels h
  | top => rw [reduce, List.foldl_cons, step_top, reduce]

/-- One more component: what leads back takes the last name with it. -/
theorem shortens_step {done : List Text} (plain : up ∉ done) (cs : List Text) (c : Text) :
    Relation.ReflTransGen Shortens (done.reverse ++ c :: cs) ((step true done c).reverse ++ cs) ∧
      up ∉ step true done c := by
  by_cases hc : c = up
  · subst hc
    cases done with
    | nil => exact ⟨.single (.top cs), List.not_mem_nil⟩
    | cons d rest =>
      obtain ⟨differs, plain⟩ := not_or.mp (mt List.mem_cons.mpr plain)
      rw [step_back rest (Ne.symm differs), List.reverse_cons, List.append_assoc]
      exact ⟨.single (.pair (.pair (Ne.symm differs) _ _)), plain⟩
  · rw [step_name done hc, List.reverse_cons, List.append_assoc]
    exact ⟨.refl, fun hm => (List.mem_cons.mp hm).elim (Ne.symm hc) plain⟩

theorem lexical_foldl : ∀ {done : List Text} (cs : List Text), up ∉ done →
    Lexical (done.reverse ++ cs) (cs.foldl (step true) done).reverse
  | done, [], plain => by
      rw [List.append_nil]
      exact ⟨.refl, fun hm => plain (List.mem_reverse.mp hm)⟩
  | done, c :: cs, plain => by
      obtain ⟨shortens, plain⟩ := shortens_step plain cs c
      obtain ⟨later, left⟩ := lexical_foldl cs plain
      exact ⟨shortens.trans later, left⟩

theorem reduce_eq_of_shortens {cs ds : List Text} (h : Relation.ReflTransGen Shortens cs ds) :
    reduce true cs = reduce true ds := by
  induction h with
  | refl => rfl
  | tail _ last ih => exact ih.trans (reduce_shortens last)

/-- **There is one lexical form**, and reducing finds it. -/
theorem lexical_iff {cs ds : List Text} : Lexical cs ds ↔ ds = reduce true cs := by
  constructor
  · rintro ⟨shortens, plain⟩
    rw [reduce_eq_of_shortens shortens]
    exact (reduce_append [] fun c hc e => plain (e ▸ hc)).symm
  · rintro rfl
    exact lexical_foldl cs List.not_mem_nil

/-! ### Where components come from -/

/-- One more component is put on what is there, or takes something off. -/
theorem step_cases (rooted : Bool) (done : List Text) (c : Text) :
    step rooted done c = c :: done ∨ step rooted done c <:+ done := by
  by_cases hc : c = up
  · subst hc
    cases done with
    | nil => cases rooted <;> simp [step]
    | cons d rest =>
      by_cases hd : d = up
      · subst hd
        exact Or.inl rfl
      · rw [step_back rest hd]
        exact Or.inr (List.suffix_cons d rest)
  · exact Or.inl (step_name done hc)

/-- What further components leave of those that are there, and what they put in front of it. -/
theorem exists_foldl_above (rooted : Bool) : ∀ cs done : List Text, ∃ names kept,
    cs.foldl (step rooted) done = names ++ kept ∧ kept <:+ done ∧ ∀ c ∈ names, c ∈ cs
  | [], done => ⟨[], done, rfl, List.suffix_rfl, fun _ h => absurd h List.not_mem_nil⟩
  | c :: cs, done => by
      obtain ⟨names, kept, e, behind, mem⟩ := exists_foldl_above rooted cs (step rooted done c)
      have later : ∀ d ∈ names, d ∈ c :: cs := fun d hd => List.mem_cons_of_mem c (mem d hd)
      obtain put | taken := step_cases rooted done c
      · rw [put] at behind
        obtain rfl | behind := List.suffix_cons_iff.mp behind
        · refine ⟨names ++ [c], done, by rw [List.foldl_cons, e]; simp, List.suffix_rfl, ?_⟩
          simpa [or_imp, forall_and] using later
        · exact ⟨names, kept, e, behind, later⟩
      · exact ⟨names, kept, e, behind.trans taken, later⟩

/-- What is left of components behind others, where it goes on from what is left of these, are some of
the components. -/
theorem mem_of_reduce_append {rooted : Bool} {bs cs ds : List Text}
    (h : reduce rooted (bs ++ cs) = reduce rooted bs ++ ds) : ∀ d ∈ ds, d ∈ cs := by
  obtain ⟨names, kept, e, ⟨lost, behind⟩, mem⟩ :=
    exists_foldl_above rooted cs (bs.foldl (step rooted) [])
  have stack : names ++ kept = ds.reverse ++ lost ++ kept := by
    rw [List.append_assoc, behind, ← e, ← List.foldl_append]
    exact List.reverse_injective (h.trans (by simp [reduce]))
  intro d hd
  refine mem d ?_
  rw [List.append_cancel_right stack]
  exact List.mem_append_left _ (List.mem_reverse.mpr hd)

end Path

open Pagewright.Path

theorem DiskPath.isRooted_ofText (t : Text) :
    (DiskPath.ofText t).isRooted = true ↔ t.head? = some '/' := by
  constructor
  · intro rooted
    by_contra relative
    rw [isRooted, ofText, lead_relative relative] at rooted
    cases rooted
  · intro rooted
    obtain ⟨u, front⟩ := lead_rooted rooted
    rw [isRooted, ofText, front]
    rfl

namespace Folder

variable (f : Folder)

/-- The components of a folder's root from the root of the file tree on, as they are written. -/
def base : List Text := if f.root.isRooted then f.root.parts else f.tree.home ++ f.root.parts

/-- The components of the place that a reference names, as they are written: those of the reference
alone if it starts at the root of the file tree, else behind those of the folder's root. -/
def target (reference : Text) : List Text :=
  if reference.head? = some '/' then Path.parts reference else f.base ++ Path.parts reference

theorem absolute_root : f.tree.absolute f.root = reduce true f.base := rfl

theorem absolute_target (reference : Text) :
    f.tree.absolute (f.root.join (.ofText reference)) = reduce true (f.target reference) := by
  unfold target DiskPath.join Tree.absolute
  by_cases rooted : reference.head? = some '/'
  · have whole := (DiskPath.isRooted_ofText reference).mpr rooted
    rw [if_pos rooted, if_pos whole, if_pos whole]
    rfl
  · rw [if_neg rooted, if_neg (mt (DiskPath.isRooted_ofText reference).mp rooted), base]
    by_cases whole : f.root.isRooted = true
    · rw [if_pos whole]
      exact congrArg (reduce true) (if_pos whole)
    · rw [if_neg whole, List.append_assoc]
      exact congrArg (reduce true) (if_neg whole)

theorem dropParts?_eq_some : ∀ {rs cs ds : List Text},
    locate.dropParts? rs cs = some ds ↔ cs = rs ++ ds
  | [], cs, ds => by rw [locate.dropParts?, Option.some_inj]; rfl
  | r :: rs, [], ds => by rw [locate.dropParts?]; simp
  | r :: rs, c :: cs, ds => by
      rw [locate.dropParts?, List.cons_append, List.cons.injEq]
      split
      · next same => rw [dropParts?_eq_some, same]; simp
      · next differs => simp [Ne.symm differs]

/-- The path of a place by the components that lead to it from a root. -/
def pathOf (cs : List Text) : Text := if cs = [] then ['.'] else join "/" cs

section

variable {f} {reference : Text} {cs : List Text}

theorem locate_inside (scope : Text) (root : '\x00' ∉ f.root.shown) (plain : '\x00' ∉ reference)
    (h : reduce true (f.target reference) = reduce true f.base ++ cs) :
    f.locate scope reference = .ok (pathOf cs) := by
  rw [locate_plain scope root plain, absolute_root, absolute_target, dropParts?_eq_some.mpr h]
  cases cs <;> rfl

theorem locate_outside (scope : Text) (root : '\x00' ∉ f.root.shown) (plain : '\x00' ∉ reference)
    (h : ¬ reduce true f.base <+: reduce true (f.target reference)) :
    f.locate scope reference = .error (.problem (.outside reference f.root.shown scope)) := by
  have dropped : locate.dropParts? (reduce true f.base) (reduce true (f.target reference)) = none :=
    Option.eq_none_iff_forall_ne_some.mpr fun cs e => h ⟨cs, (dropParts?_eq_some.mp e).symm⟩
  rw [locate_plain scope root plain, absolute_root, absolute_target, dropped]

/-- The components below the root come from the reference. -/
theorem mem_parts_of_below (h : reduce true (f.target reference) = reduce true f.base ++ cs) :
    ∀ c ∈ cs, c ∈ Path.parts reference := by
  intro c hc
  have mem : c ∈ reduce true (f.target reference) := h ▸ List.mem_append_right _ hc
  unfold target at h mem
  split at h
  · next rooted =>
    rw [if_pos rooted] at mem
    exact mem_reduce mem
  · exact mem_of_reduce_append h c hc

/-- The path of a place below the root is canonical. -/
theorem canonical_pathOf (h : reduce true (f.target reference) = reduce true f.base ++ cs)
    (given : cs ≠ []) : Canonical (pathOf cs) := by
  have own := mem_parts_of_below h
  have plain : up ∉ reduce true (f.target reference) := (lexical_iff.mpr rfl).2
  intro c hc
  rw [pathOf, if_neg given, splitOn_join_parts given fun c hc =>
    not_mem_of_mem_splitOn (mem_parts.mp (own c hc)).1] at hc
  obtain ⟨-, some_, dot⟩ := mem_parts.mp (own c hc)
  refine ⟨some_, dot, ?_⟩
  rintro rfl
  exact plain (h ▸ List.mem_append_right _ hc)

end

/-- **A folder is never left, and every place in it has one path.**  A reference leads to the lexical
form of the folder's root with the reference behind it, or of the reference alone if that starts at the
root of the file tree.  It is accepted exactly if the components of the folder's root come first there,
and the answer is the path of those that follow, none of them empty or full stops.  So a directory whose
name goes on where that of the folder ends is outside. -/
theorem locate_below (scope : Text) {reference : Text} (root : '\x00' ∉ f.root.shown)
    (plain : '\x00' ∉ reference) :
    ∃ base place, (∀ cs, Lexical f.base cs ↔ cs = base) ∧
      (∀ cs, Lexical (f.target reference) cs ↔ cs = place) ∧
      (∀ r, f.locate scope reference = .ok r ↔ ∃ cs, place = base ++ cs ∧ r = pathOf cs) ∧
      (∀ cs, cs ≠ [] → place = base ++ cs → Canonical (pathOf cs)) ∧
      (f.locate scope reference = .error (.problem (.outside reference f.root.shown scope)) ↔
        ¬ base <+: place) ∧
      ∀ dir name more below, base = dir ++ [name] → more ≠ [] →
        place = dir ++ (name ++ more) :: below →
        f.locate scope reference = .error (.problem (.outside reference f.root.shown scope)) := by
  have outside := @locate_outside f reference scope root plain
  refine ⟨reduce true f.base, reduce true (f.target reference), fun cs => lexical_iff,
    fun cs => lexical_iff, fun r => ⟨fun found => ?_, ?_⟩, fun cs given h => canonical_pathOf h given,
    ⟨fun refused inside => ?_, outside⟩, fun dir name more below hb given hp => outside ?_⟩
  · by_cases inside : reduce true f.base <+: reduce true (f.target reference)
    · obtain ⟨cs, e⟩ := inside
      rw [locate_inside scope root plain e.symm] at found
      exact ⟨cs, e.symm, (Except.ok.inj found).symm⟩
    · rw [outside inside] at found
      cases found
  · rintro ⟨cs, h, rfl⟩
    exact locate_inside scope root plain h
  · obtain ⟨cs, e⟩ := inside
    rw [locate_inside scope root plain e.symm] at refused
    cases refused
  · rw [hb, hp]
    intro inside
    obtain ⟨same, -⟩ := List.cons_prefix_cons.mp ((List.prefix_append_right_inj dir).mp inside)
    exact given (List.self_eq_append_right.mp same)

/-- Two directories of which the name of one begins with that of the other. -/
def neighbours : Folder where
  tree := .ofFiles [("partials/a.html", "A"), ("partials-evil/a.html", "B")]
  root := .ofText "./partials/"

/-- A reference that comes back into the folder, and one that reaches its neighbour. -/
theorem locate_below_neighbours :
    ('\x00' ∉ neighbours.root.shown ∧ '\x00' ∉ ("b/..//../partials/./a.html" : Text) ∧
      neighbours.locate "include" "b/..//../partials/./a.html" = .ok "a.html".toList) ∧
    '\x00' ∉ ("../partials-evil/a.html" : Text) ∧
      neighbours.locate "include" "../partials-evil/a.html" =
        .error (.problem (.outside "../partials-evil/a.html" neighbours.root.shown "include")) := by
  have root : '\x00' ∉ neighbours.root.shown := by decide +kernel
  have back : '\x00' ∉ ("b/..//../partials/./a.html" : Text) := by decide +kernel
  have out : '\x00' ∉ ("../partials-evil/a.html" : Text) := by decide +kernel
  have dir : Lexical neighbours.base ["site", "partials"] := lexical_iff.mpr (by decide +kernel)
  obtain ⟨base, place, hb, hp, found, -⟩ := neighbours.locate_below "include" root back
  obtain ⟨base', place', hb', hp', -, -, -, sibling⟩ := neighbours.locate_below "include" root out
  refine ⟨⟨root, back, (found _).mpr ⟨["a.html"], ?_, rfl⟩⟩, out,
    sibling ["site"] "partials" "-evil" ["a.html"] ((hb' _).mp dir).symm (by decide) ?_⟩
  · rw [← (hb _).mp dir]
    exact ((hp _).mp (lexical_iff.mpr (by decide +kernel))).symm
  · exact ((hp' _).mp (lexical_iff.mpr (by decide +kernel))).symm

end Folder

end Pagewright
