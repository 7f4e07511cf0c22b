import Pagewright.Proofs.Directive.Block

/-! # Carried blocks and what encloses them

The outline of a source says which directives enclose which: conditionals, switches and loops on the
one hand, blocks that are carried over to a layout on the other, nested in each other to any depth.
Looking for the carried blocks of a source finds the outermost ones whether or not a construct
encloses them, and takes them without it (`carriedBlocks_outline`).

Main definitions: `Outline`, `Outline.outermost`, `Outline.unenclosed`, `Outline.enclosed`. -/

namespace Pagewright.Directive

open Text

/-- The names of the directives that open and close carried blocks. -/
def carriedNames : List Text := carriedFamilies.map Prod.fst ++ carriedFamilies.map Prod.snd

/-- The constructs that decide whether and how often their body counts: the name of the opener and
the name of the closer. -/
def constructFamilies : List (Text × Text) :=
  [("if", "endif"), ("unless", "endunless"), ("isset", "endisset"), ("empty", "endempty"),
    ("switch", "endswitch"), ("foreach", "endforeach"), ("forelse", "endforelse")]

/-- Whether a part opens or closes a construct.  An opener without arguments does not. -/
def Part.isBoundary : Part → Bool
  | .text _ => false
  | .word n => (constructFamilies.map Prod.snd).contains n
  | .call n _ _ => (constructFamilies.map Prod.fst).contains n

/-- A stretch of a source, by what encloses what. -/
inductive Outline where
  | nil
  | part (p : Part) (rest : Outline)
  /-- A conditional, a switch or a loop. -/
  | construct (family : Text × Text) (gap args : Text) (body rest : Outline)
  /-- A block that is carried over to a layout. -/
  | carried (family : Text × Text) (opening : Part) (body rest : Outline)

namespace Outline

/-- The parts of a stretch. -/
def parts : Outline → List Part
  | nil => []
  | part p rest => p :: rest.parts
  | construct family gap args body rest =>
    .call family.1 gap args :: (body.parts ++ .word family.2 :: rest.parts)
  | carried family opening body rest =>
    opening :: (body.parts ++ .word family.2 :: rest.parts)

/-- Constructs and carried blocks are those of the families, and no other part belongs to one. -/
def Sound : Outline → Prop
  | nil => True
  | part p rest =>
    (∀ n, p.named? = some n → n ∉ carriedNames) ∧ p.isBoundary = false ∧ rest.Sound
  | construct family _ _ body rest => family ∈ constructFamilies ∧ body.Sound ∧ rest.Sound
  | carried family opening body rest =>
    family ∈ carriedFamilies ∧ opening.named? = some family.1 ∧ body.Sound ∧ rest.Sound

/-- The carried blocks that stand in no other one, in order. -/
def outermost : Outline → List (List Part)
  | nil => []
  | part _ rest => rest.outermost
  | construct _ _ _ body rest => body.outermost ++ rest.outermost
  | carried family opening body rest =>
    (opening :: (body.parts ++ [.word family.2])) :: rest.outermost

/-- The carried blocks that stand in nothing else, in order. -/
def unenclosed : Outline → List (List Part)
  | nil => []
  | part _ rest => rest.unenclosed
  | construct _ _ _ _ rest => rest.unenclosed
  | carried family opening body rest =>
    (opening :: (body.parts ++ [.word family.2])) :: rest.unenclosed

/-- The outermost carried blocks that stand in a construct, in order. -/
def enclosed : Outline → List (List Part)
  | nil => []
  | part _ rest => rest.enclosed
  | construct _ _ _ body rest => body.outermost ++ rest.enclosed
  | carried _ _ _ rest => rest.enclosed

end Outline

/-! ### Directives of other families -/

/-- The names of a family of carried blocks are those of no other family. -/
theorem family_names : ∀ f ∈ carriedFamilies, f.1 ≠ f.2 ∧ f.1 ∈ carriedNames ∧ f.2 ∈ carriedNames ∧
    carriedFamilies.lookup f.1 = some f.2 ∧
    ∀ g ∈ carriedFamilies, g ≠ f → g.1 ≠ f.1 ∧ g.1 ≠ f.2 ∧ g.2 ≠ f.1 ∧ g.2 ≠ f.2 := by decide

/-- No construct is a carried block. -/
theorem construct_names : ∀ f ∈ constructFamilies, f.1 ∉ carriedNames ∧ f.2 ∉ carriedNames := by
  decide

/-- What a search for a closer finds, with the directives before it counted, too. -/
def behind (n : Nat) (found : Option (Nat × Directive)) : Option (Nat × Directive) :=
  found.map fun (i, e) => (i + n, e)

theorem behind_behind (m n : Nat) (found : Option (Nat × Directive)) :
    behind m (behind n found) = behind (n + m) found := by
  cases found with
  | none => rfl
  | some x => exact congrArg (fun k => some (k, x.2)) (Nat.add_assoc ..)

section

variable {f : Text × Text} {ds : List Directive}

/-- One directive of a search. -/
theorem balance?_cons (o c : Text) (depth : Nat) (d : Directive) (ds : List Directive) :
    balance? o c depth (d :: ds) =
      if d.name = o then behind 1 (balance? o c (depth + 1) ds)
      else if d.name = c then
        match depth with
        | 0 => some (0, d)
        | depth + 1 => behind 1 (balance? o c depth ds)
      else behind 1 (balance? o c depth ds) := rfl

theorem balance?_other {d : Directive} (depth : Nat) (ho : d.name ≠ f.1) (hc : d.name ≠ f.2) :
    balance? f.1 f.2 depth (d :: ds) = behind 1 (balance? f.1 f.2 depth ds) := by
  rw [balance?_cons, if_neg ho, if_neg hc]

theorem balance?_opener {d : Directive} (depth : Nat) (ho : d.name = f.1) :
    balance? f.1 f.2 depth (d :: ds) = behind 1 (balance? f.1 f.2 (depth + 1) ds) := by
  rw [balance?_cons, if_pos ho]

theorem balance?_closer {d : Directive} (hf : f.1 ≠ f.2) (depth : Nat) (hc : d.name = f.2) :
    balance? f.1 f.2 (depth + 1) (d :: ds) = behind 1 (balance? f.1 f.2 depth ds) := by
  rw [balance?_cons, if_neg fun h => hf (h.symm.trans hc), if_pos hc]

theorem balance?_closed {d : Directive} (hf : f.1 ≠ f.2) (hc : d.name = f.2) :
    balance? f.1 f.2 0 (d :: ds) = some (0, d) := by
  rw [balance?_cons, if_neg fun h => hf (h.symm.trans hc), if_pos hc]

/-- A search passes over parts of other names. -/
theorem balance?_part {p : Part} (hp : ∀ n, p.named? = some n → n ≠ f.1 ∧ n ≠ f.2) (depth pos : Nat) :
    balance? f.1 f.2 depth ((p.mark? pos).toList ++ ds) =
      behind (p.mark? pos).toList.length (balance? f.1 f.2 depth ds) := by
  cases hm : p.mark? pos with
  | none =>
    show _ = behind 0 _
    unfold behind
    simp
  | some d =>
    obtain ⟨ho, hc⟩ := hp d.name (name_mark? hm)
    exact balance?_other depth ho hc

/-- **A search passes over a stretch**, as every block that it opens is closed in it. -/
theorem balance?_outline (hf : f ∈ carriedFamilies) : ∀ {o : Outline}, o.Sound →
    ∀ (depth pos : Nat) (ds : List Directive),
      balance? f.1 f.2 depth (marks pos o.parts ++ ds) =
        behind (marks pos o.parts).length (balance? f.1 f.2 depth ds)
  | .nil, _, depth, pos, ds => by
    show balance? f.1 f.2 depth ds = behind 0 _
    unfold behind
    simp
  | .part p rest, h, depth, pos, ds => by
    obtain ⟨plain, -, hr⟩ := h
    obtain ⟨-, opens, closes, -⟩ := family_names f hf
    have other : ∀ n, p.named? = some n → n ≠ f.1 ∧ n ≠ f.2 := fun n hn =>
      ⟨fun e => plain n hn (e ▸ opens), fun e => plain n hn (e ▸ closes)⟩
    rw [Outline.parts, marks, List.append_assoc, balance?_part other, balance?_outline hf hr,
      behind_behind, List.length_append, Nat.add_comm]
  | .construct g gap args body rest, h, depth, pos, ds => by
    obtain ⟨hg, hb, hr⟩ := h
    obtain ⟨-, opens, closes, -⟩ := family_names f hf
    obtain ⟨ho, hc⟩ := construct_names g hg
    rw [Outline.parts, marks, marks_append, marks]
    simp only [List.append_assoc]
    rw [balance?_part (fun n hn => ?_), balance?_outline hf hb, balance?_part (fun n hn => ?_),
      balance?_outline hf hr, behind_behind, behind_behind, behind_behind]
    · simp only [List.length_append]
      congr 1
      omega
    · obtain rfl : g.2 = n := Option.some.inj hn
      exact ⟨fun e => hc (e ▸ opens), fun e => hc (e ▸ closes)⟩
    · obtain rfl : g.1 = n := Option.some.inj hn
      exact ⟨fun e => ho (e ▸ opens), fun e => ho (e ▸ closes)⟩
  | .carried g opening body rest, h, depth, pos, ds => by
    obtain ⟨hg, hn, hb, hr⟩ := h
    obtain ⟨differ, -, -, -, others⟩ := family_names f hf
    obtain ⟨d, hd, name⟩ := mark?_named hn pos
    by_cases e : g = f
    · rw [Outline.parts, marks, marks_append, marks, hd]
      simp only [Option.toList_some, List.cons_append, List.nil_append, List.append_assoc]
      rw [balance?_opener depth (name.trans (congrArg Prod.fst e)), balance?_outline hf hb]
      simp only [Part.mark?, Option.toList_some, List.cons_append, List.nil_append]
      rw [balance?_closer differ depth (congrArg Prod.snd e), balance?_outline hf hr,
        behind_behind, behind_behind, behind_behind]
      simp only [List.length_cons, List.length_append]
      congr 1
      omega
    · obtain ⟨oo, oc, co, cc⟩ := others g hg e
      have opening : ∀ n, opening.named? = some n → n ≠ f.1 ∧ n ≠ f.2 := by
        intro n hn'
        obtain rfl := Option.some.inj (hn.symm.trans hn')
        exact ⟨oo, oc⟩
      have closing : ∀ n, (Part.word g.2).named? = some n → n ≠ f.1 ∧ n ≠ f.2 := by
        intro n hn'
        obtain rfl : g.2 = n := Option.some.inj hn'
        exact ⟨co, cc⟩
      rw [Outline.parts, marks, marks_append, marks]
      simp only [List.append_assoc]
      rw [balance?_part opening, balance?_outline hf hb, balance?_part closing,
        balance?_outline hf hr, behind_behind, behind_behind, behind_behind]
      simp only [List.length_append]
      congr 1
      omega

end

/-! ### The carried blocks of an outline -/

theorem carriedFrom_part (t : Text) {p : Part} (hp : ∀ n, p.named? = some n → n ∉ carriedNames)
    (pos : Nat) (ds : List Directive) :
    carriedFrom t 0 ((p.mark? pos).toList ++ ds) = carriedFrom t 0 ds := by
  cases hm : p.mark? pos with
  | none => rfl
  | some d =>
    have other : carriedFamilies.lookup d.name = none := by
      rw [List.lookup_eq_none_iff]
      intro f hf
      have differ : d.name ≠ f.1 := fun e =>
        hp d.name (name_mark? hm) (e ▸ (family_names f hf).2.1)
      simpa using differ
    rw [Option.toList_some, List.singleton_append, carriedFrom, other]

theorem carriedFrom_skip (t : Text) (ds : List Directive) : ∀ skipped : List Directive,
    carriedFrom t skipped.length (skipped ++ ds) = carriedFrom t 0 ds
  | [] => rfl
  | _ :: skipped => carriedFrom_skip t ds skipped

/-- A directive and the closer that balances it are the ends of a block. -/
theorem carriedFrom_closed (t : Text) {f : Text × Text} (hf : f ∈ carriedFamilies) {d e : Directive}
    (hn : d.name = f.1) {between ds : List Directive}
    (hb : balance? f.1 f.2 0 (between ++ e :: ds) = some (between.length, e)) :
    carriedFrom t 0 (d :: (between ++ e :: ds)) = slice t d.start e.stop :: carriedFrom t 0 ds := by
  have rest := carriedFrom_skip t ds (between ++ [e])
  rw [List.length_append, List.length_singleton, List.append_assoc, List.singleton_append] at rest
  obtain ⟨-, -, -, lookup, -⟩ := family_names f hf
  rw [carriedFrom, hn, lookup]
  simp only
  rw [hb]
  exact congrArg (slice t d.start e.stop :: ·) rest

/-- The carried blocks of a stretch between two texts, and those of the directives behind it. -/
theorem carriedFrom_outline : ∀ {o : Outline}, o.Sound → ∀ (pre post : Text) (ds : List Directive),
    carriedFrom (pre ++ (shownAll o.parts ++ post)) 0 (marks pre.length o.parts ++ ds) =
      o.outermost.map shownAll ++ carriedFrom (pre ++ (shownAll o.parts ++ post)) 0 ds
  | .nil, _, _, _, _ => rfl
  | .part p rest, h, pre, post, ds => by
    obtain ⟨plain, -, hr⟩ := h
    have ih := carriedFrom_outline hr (pre ++ p.shown) post ds
    rw [List.length_append, List.append_assoc] at ih
    rw [Outline.parts, marks, List.append_assoc, carriedFrom_part _ plain, shownAll_cons,
      List.append_assoc, ih]
    rfl
  | .construct f gap args body rest, h, pre, post, ds => by
    obtain ⟨hf, hb, hr⟩ := h
    obtain ⟨ho, hc⟩ := construct_names f hf
    let opener := Part.call f.1 gap args
    let closer := Part.word f.2
    have plain : ∀ n, opener.named? = some n → n ∉ carriedNames := fun n hn =>
      Option.some.inj hn ▸ ho
    have plain' : ∀ n, closer.named? = some n → n ∉ carriedNames := fun n hn =>
      Option.some.inj hn ▸ hc
    have first := carriedFrom_outline hb (pre ++ opener.shown)
      (closer.shown ++ (shownAll rest.parts ++ post))
    have second := carriedFrom_outline hr
      (pre ++ (opener.shown ++ (shownAll body.parts ++ closer.shown)))
      post ds
    simp only [List.append_assoc, List.length_append] at first second
    simp only [Outline.parts, marks, marks_append, shownAll_cons, shownAll_append, List.append_assoc]
    rw [carriedFrom_part _ plain, first, carriedFrom_part _ plain', Nat.add_assoc, Nat.add_assoc,
      second, Outline.outermost, List.map_append, List.append_assoc]
  | .carried f opening body rest, h, pre, post, ds => by
    obtain ⟨hf, hn, hb, hr⟩ := h
    have differ := (family_names f hf).1
    obtain ⟨d, hd, name⟩ := mark?_named hn pre.length
    let closer := Part.word f.2
    let block := shownAll (opening :: (body.parts ++ [closer]))
    let stop := pre.length + opening.shown.length + (shownAll body.parts).length
    let e : Directive := ⟨f.2, none, stop, stop + closer.shown.length, false⟩
    have found : balance? f.1 f.2 0 (marks (pre.length + opening.shown.length) body.parts ++
        e :: (marks e.stop rest.parts ++ ds)) =
          some ((marks (pre.length + opening.shown.length) body.parts).length, e) := by
      rw [balance?_outline hf hb, balance?_closed differ rfl]
      exact congrArg (fun n => some (n, e)) (Nat.zero_add _)
    have second := carriedFrom_outline hr (pre ++ block) post ds
    have length : (pre ++ block).length = e.stop := by
      simp only [block, e, stop, shownAll_cons, shownAll_append, shownAll_nil, List.append_nil,
        List.length_append, Nat.add_assoc]
    have source : pre ++ (shownAll (Outline.carried f opening body rest).parts ++ post) =
        pre ++ (block ++ (shownAll rest.parts ++ post)) := by
      simp [Outline.parts, block, closer]
    have cut : slice (pre ++ (block ++ (shownAll rest.parts ++ post))) d.start e.stop = block := by
      rw [mark?_start hd, ← length, List.length_append, slice_middle]
    have listed : marks pre.length (Outline.carried f opening body rest).parts ++ ds =
        d :: (marks (pre.length + opening.shown.length) body.parts ++
          e :: (marks e.stop rest.parts ++ ds)) := by
      rw [Outline.parts, marks, hd, marks_append, marks]
      simp only [Option.toList_some, List.cons_append, List.append_assoc]
      rfl
    rw [length, List.append_assoc] at second
    rw [source, listed, carriedFrom_closed _ hf name found, cut, second]
    rfl

/-- **The carried blocks of a source are its outermost ones**, each by itself, whatever constructs
stand around it. -/
theorem carriedBlocks_outline {o : Outline} (h : o.Sound) (hl : Legible o.parts) :
    carriedBlocks (shownAll o.parts) = o.outermost.map shownAll := by
  have found := carriedFrom_outline h [] [] []
  rw [List.append_nil, List.append_nil, List.nil_append, List.length_nil] at found
  rw [carriedBlocks, directives_shownAll hl, found, carriedFrom.eq_def]
  exact List.append_nil _

namespace Outline

/-- How much text some blocks are. -/
def size (blocks : List (List Part)) : Nat := (blocks.map shownAll).flatten.length

theorem size_cons (b : List Part) (blocks : List (List Part)) :
    size (b :: blocks) = (shownAll b).length + size blocks := by
  rw [size, List.map_cons, List.flatten_cons, List.length_append]
  rfl

theorem size_append (blocks others : List (List Part)) :
    size (blocks ++ others) = size blocks + size others := by
  rw [size, List.map_append, List.flatten_append, List.length_append]
  rfl

/-- The outermost blocks are those that nothing encloses and those that stand in a construct. -/
theorem size_outermost : ∀ o : Outline,
    size o.outermost = size o.unenclosed + size o.enclosed
  | nil => rfl
  | part _ rest => size_outermost rest
  | construct _ _ _ body rest => by
    have ih := size_outermost rest
    rw [outermost, unenclosed, enclosed, size_append, size_append, ih]
    omega
  | carried _ _ _ rest => by
    have ih := size_outermost rest
    rw [outermost, unenclosed, enclosed, size_cons, size_cons, ih, Nat.add_assoc]

theorem outermost_eq_unenclosed : ∀ {o : Outline}, o.enclosed = [] → o.outermost = o.unenclosed
  | nil, _ => rfl
  | part _ rest, h => outermost_eq_unenclosed (o := rest) h
  | construct _ _ _ body rest, h => by
    obtain ⟨inside, behind⟩ := List.append_eq_nil_iff.mp h
    rw [outermost, unenclosed, inside, outermost_eq_unenclosed behind]
    rfl
  | carried f opening body rest, h => by
    rw [outermost, unenclosed, outermost_eq_unenclosed (o := rest) h]

theorem outermost_ne_nil : ∀ {o : Outline}, ∀ b ∈ o.outermost, shownAll b ≠ []
  | part _ rest, b, hb => outermost_ne_nil (o := rest) b hb
  | construct _ _ _ body rest, b, hb => by
    obtain hb | hb := List.mem_append.mp hb
    · exact outermost_ne_nil b hb
    · exact outermost_ne_nil b hb
  | carried f opening body rest, b, hb => by
    obtain rfl | hb := List.mem_cons.mp hb
    · simp [Part.shown]
    · exact outermost_ne_nil b hb

theorem mem_outermost_of_enclosed : ∀ {o : Outline}, ∀ b ∈ o.enclosed, b ∈ o.outermost
  | part _ rest, b, hb => mem_outermost_of_enclosed (o := rest) b hb
  | construct _ _ _ body rest, b, hb => by
    obtain hb | hb := List.mem_append.mp hb
    · exact List.mem_append_left _ hb
    · exact List.mem_append_right _ (mem_outermost_of_enclosed b hb)
  | carried f opening body rest, b, hb =>
    List.mem_cons_of_mem _ (mem_outermost_of_enclosed (o := rest) b hb)

/-- The outermost blocks read as the unenclosed ones exactly if no block stands in a construct. -/
theorem shown_outermost_iff {o : Outline} :
    (o.outermost.map shownAll).flatten = (o.unenclosed.map shownAll).flatten ↔ o.enclosed = [] := by
  constructor
  · intro same
    have length : size o.outermost = size o.unenclosed := congrArg List.length same
    rw [size_outermost] at length
    have none : size o.enclosed = 0 := by omega
    rw [List.eq_nil_iff_forall_not_mem]
    intro b hb
    have empty : shownAll b = [] :=
      List.flatten_eq_nil_iff.mp (List.length_eq_zero_iff.mp none) _ (List.mem_map_of_mem hb)
    exact outermost_ne_nil b (mem_outermost_of_enclosed b hb) empty
  · intro h
    rw [outermost_eq_unenclosed h]

end Outline

end Pagewright.Directive
