import Pagewright.Proofs.Lowering.MappingTree
import Pagewright.Proofs.Text.Parted

/-! # What is left to convert

A rewritten tree is one of engine lists and dictionaries if and only if no list in it holds a mapping
that is spelled otherwise in the engine (`MappingTree.essence_shown_iff`): every label that its author
spells otherwise takes a colon or the quotes of a string literal away from what counts, and nothing
adds to it.  Where nothing is left, no arrow stands outside of string literals but those of keys and
leaves (`MappingTree.arrowless_shown`).

Main definitions: `MappingTree.Finished`, `Arrowless`. -/

namespace Pagewright.Lowering

open Text Directive

/-! ### What is left to convert -/

/-- Whether a label is spelled otherwise in the engine, white space apart. -/
def Label.foreign : {k : Bracketing} → Label k → Bool
  | _, .item => false
  | _, .arrow _ _ => true
  | _, .field key _ => isName key.text

mutual

/-- A tree as it is spelled holds no label in its author's spelling that is spelled otherwise in the
engine. -/
def MappingTree.Finished : MappingTree → Spelling → Prop
  | .leaf _, _ => True
  | @MappingTree.literal k items, s => items.Finished (s.within k)

def Items.Finished : {k : Bracketing} → Items k → Spelling → Prop
  | _, .nil, _ => True
  | _, .cons label _ value rest, s =>
    (s = .authored → label.foreign = false) ∧ value.Finished s ∧ rest.Finished s

end

/-! ### What counts of a tree -/

theorem essence_around (b : Blanks) {t : Text} (h : Balanced t) :
    essence none (b.around t) = essence none t := by
  have lead := (blank_counts_not (List.all_eq_true.mp b.lead_blank)).2.1
  have trail := (blank_counts_not (List.all_eq_true.mp b.trail_blank)).2.1
  rw [Blanks.around, essence_append _ (balanced_blank b.lead_blank), essence_append _ h, lead, trail,
    List.nil_append, List.append_nil]

theorem essence_join {sep : Text} (hs : Balanced sep) : ∀ {ps : List Text}, (∀ p ∈ ps, Balanced p) →
    essence none (join sep ps) = List.intercalate (essence none sep) (ps.map (essence none))
  | [], _ => rfl
  | [p], _ => by rw [join_singleton, List.map_singleton, List.intercalate_singleton]
  | p :: p' :: ps, h => by
      obtain ⟨first, later⟩ := List.forall_mem_cons.mp h
      rw [join_cons_cons, essence_append _ first, essence_append _ hs, essence_join hs later]
      simp only [List.map_cons, List.intercalate_cons_cons, List.append_assoc]

theorem Spelling.essence_spaced (s : Spelling) (b : Blanks) {t : Text} (h : Balanced t) :
    essence none (s.spaced b t) = essence none t := by
  cases s with
  | authored => exact essence_around b h
  | rewritten | engine => rfl

theorem Spelling.essence_bracketed (s : Spelling) (k : Bracketing) {items : List Text}
    (h : ∀ t ∈ items, Balanced t) : essence none (s.bracketed k items) =
      ((s.brackets k items.isEmpty).1, false) ::
        (List.intercalate [(',', false)] (items.map (essence none)) ++
          [((s.brackets k items.isEmpty).2, false)]) := by
  have sep : Balanced s.separator ∧ essence none s.separator = [(',', false)] := by
    cases s <;> exact ⟨.of_inert rfl, rfl⟩
  rw [Spelling.bracketed, essence_bracket (s.closerOf?_brackets k items.isEmpty)
    (balanced_join sep.1 h), essence_join sep.1 h, sep.2]
  rfl

/-- What counts of an item is what counts of its label and of its value. -/
theorem essence_item {k : Bracketing} (label : Label k) (b : Blanks) (value : MappingTree)
    (s : Spelling) : essence none (label.shown s ++ s.spaced b (value.shown s)) =
      essence none (label.shown s) ++ essence none (value.shown s) := by
  rw [essence_append _ (label.balanced_shown s), s.essence_spaced b (value.simple_shown s).balanced]

/-- The characters of string literals, and the colons outside of them. -/
def weight (x : List (Char × Bool)) : Nat := x.countP fun c => c.2 || c.1 == ':'

theorem weight_append (x y : List (Char × Bool)) : weight (x ++ y) = weight x + weight y :=
  List.countP_append

/-- Commas weigh nothing. -/
theorem weight_intercalate : ∀ xs : List (List (Char × Bool)),
    weight (List.intercalate [(',', false)] xs) = weight xs.flatten
  | [] => rfl
  | [x] => by rw [List.intercalate_singleton, List.flatten_singleton]
  | x :: y :: xs => by
      have comma : weight [(',', false)] = 0 := rfl
      rw [List.intercalate_cons_cons, weight_append, weight_append, weight_intercalate (y :: xs), comma,
        Nat.add_zero, List.flatten_cons (L := y :: xs), weight_append]

theorem Spelling.weight_bracketed (s : Spelling) (k : Bracketing) {items : List Text}
    (h : ∀ t ∈ items, Balanced t) : weight (essence none (s.bracketed k items)) =
      weight (items.flatMap (essence none)) := by
  have plain := (by decide : ∀ p ∈ bracketPairs, weight [(p.1, false)] = 0 ∧ weight [(p.2, false)] = 0)
    _ (s.brackets_mem k items.isEmpty)
  rw [s.essence_bracketed k h, ← List.singleton_append, weight_append, weight_append,
    weight_intercalate, plain.1, plain.2, Nat.zero_add, Nat.add_zero, List.flatMap_def]

/-- A name weighs nothing, as it holds no literal and no colon. -/
theorem weight_name {t : Text} (ht : isName t = true) : weight (essence none t) = 0 := by
  have word := isWord_of_isName ht
  clear ht
  induction t with
  | nil => rfl
  | cons c t ih =>
    obtain ⟨hc, hw⟩ := List.forall_mem_cons.mp word
    have other : c ≠ ':' := by
      rintro rfl
      exact absurd hc (by decide)
    rw [essence_solid (isInert_iff.mp (isInert_of_isWord hc)).1 (not_isSpace_of_isWord hc),
      ← List.singleton_append, weight_append, ih hw]
    simp [weight, other]

/-- A label weighs most in the engine, and less than there if its author spells it otherwise. -/
theorem Label.weight_shown {k : Bracketing} (label : Label k) (s : Spelling) :
    weight (essence none (label.shown s)) ≤ weight (essence none (label.shown .engine)) ∧
      (weight (essence none (label.shown s)) = weight (essence none (label.shown .engine)) →
        s = .authored → label.foreign = false) := by
  cases s with
  | rewritten => exact ⟨by cases label <;> exact Nat.le_refl _, fun _ => nofun⟩
  | engine => exact ⟨Nat.le_refl _, fun _ => nofun⟩
  | authored =>
    have colon : weight (essence none ": ") = 1 := rfl
    cases label with
    | item => exact ⟨Nat.le_refl _, fun _ _ => rfl⟩
    | arrow key b =>
      have bare := key.simple.balanced
      have sign : weight (essence none "=>") = 0 := rfl
      rw [Label.arrow_authored, Label.arrow_engine, essence_append _ (balanced_around b bare),
        essence_around b bare, essence_append _ bare, weight_append, weight_append, sign, colon]
      exact ⟨by omega, by omega⟩
    | field key b =>
      have bare := key.simple.balanced
      have sign : weight (essence none ":") = 1 := rfl
      rw [Label.field_authored, Label.field_engine, essence_append _ (balanced_around b bare),
        essence_around b bare, essence_append _ key.balanced_quoted, weight_append, weight_append, sign,
        colon]
      cases hn : isName key.text with
      | false =>
        rw [key.quoted_eq hn]
        exact ⟨Nat.le_refl _, fun _ _ => hn⟩
      | true =>
        obtain ⟨q, inner, hq, hi, e⟩ := exists_quoted key.text
        have heavy : 0 < weight (essence none key.quoted) := by
          rw [Key.quoted, hn, if_pos rfl, e, essence_literal hq hi]
          simp [weight]
        rw [weight_name hn]
        exact ⟨by omega, by omega⟩

mutual

/-- A tree weighs most in the engine, and less than there if something is left to convert. -/
theorem MappingTree.weight_shown : ∀ (t : MappingTree) (s : Spelling),
    weight (essence none (t.shown s)) ≤ weight (essence none (t.shown .engine)) ∧
      (weight (essence none (t.shown s)) = weight (essence none (t.shown .engine)) → t.Finished s)
  | .leaf _, _ => ⟨Nat.le_refl _, fun _ => trivial⟩
  | @MappingTree.literal k items, s => by
      have own := Spelling.weight_bracketed (s.within k) k (items.balanced_shown (s.within k))
      have engine := Spelling.weight_bracketed .engine k (items.balanced_shown .engine)
      have sums := items.weight_shown (s.within k)
      rw [← own, ← engine] at sums
      exact sums

theorem Items.weight_shown : ∀ {k : Bracketing} (items : Items k) (s : Spelling),
    weight ((items.shown s).flatMap (essence none)) ≤
        weight ((items.shown .engine).flatMap (essence none)) ∧
      (weight ((items.shown s).flatMap (essence none)) =
        weight ((items.shown .engine).flatMap (essence none)) → items.Finished s)
  | _, .nil, _ => ⟨Nat.le_refl _, fun _ => trivial⟩
  | _, .cons label b value rest, s => by
      obtain ⟨labels, own⟩ := label.weight_shown s
      obtain ⟨values, inner⟩ := value.weight_shown s
      obtain ⟨later, others⟩ := rest.weight_shown s
      rw [Items.shown, Items.shown, List.flatMap_cons, List.flatMap_cons, essence_item, essence_item]
      simp only [weight_append]
      refine ⟨by omega, fun same => ⟨own (by omega), inner (by omega), others (by omega)⟩⟩

end

theorem Label.essence_shown {k : Bracketing} (label : Label k) {s : Spelling}
    (h : s = .authored → label.foreign = false) :
    essence none (label.shown s) = essence none (label.shown .engine) := by
  cases s with
  | rewritten => cases label <;> rfl
  | engine => rfl
  | authored =>
    have own := h rfl
    cases label with
    | item => rfl
    | arrow key b => cases own
    | field key b =>
      have bare := key.simple.balanced
      have sign : essence none ":" = essence none ": " := rfl
      rw [Label.field_authored, Label.field_engine, essence_append _ (balanced_around b bare),
        essence_around b bare, key.quoted_eq own, essence_append _ bare, sign]

/-- Where nothing is left to convert, the brackets are those of the engine. -/
theorem Items.brackets_eq {k : Bracketing} (items : Items k) {s : Spelling} (h : items.Finished s) :
    s.brackets k (items.shown s).isEmpty =
      Spelling.engine.brackets k (items.shown .engine).isEmpty := by
  cases s with
  | rewritten | engine => cases k <;> cases items <;> rfl
  | authored =>
    cases items with
    | nil => cases k <;> rfl
    | cons label b value rest =>
      cases label with
      | item => rfl
      | arrow key d => cases h.1 rfl
      | field key d => rfl

mutual

/-- Where nothing is left to convert, all that counts is as in the engine. -/
theorem MappingTree.essence_shown : ∀ (t : MappingTree) (s : Spelling), t.Finished s →
    essence none (t.shown s) = essence none (t.shown .engine)
  | .leaf _, _, _ => rfl
  | @MappingTree.literal k items, s, h => by
      have own := Spelling.essence_bracketed (s.within k) k (items.balanced_shown (s.within k))
      have engine := Spelling.essence_bracketed .engine k (items.balanced_shown .engine)
      rw [items.brackets_eq h, items.essence_shown (s.within k) h, ← engine] at own
      exact own

theorem Items.essence_shown : ∀ {k : Bracketing} (items : Items k) (s : Spelling), items.Finished s →
    (items.shown s).map (essence none) = (items.shown .engine).map (essence none)
  | _, .nil, _, _ => rfl
  | _, .cons label b value rest, s, h => by
      obtain ⟨own, inner, others⟩ := h
      rw [Items.shown, Items.shown, List.map_cons, List.map_cons, essence_item, essence_item,
        label.essence_shown own, value.essence_shown s inner, rest.essence_shown s others]

end

/-- **All that counts of a tree is as in the engine if and only if nothing is left to convert.** -/
theorem MappingTree.essence_shown_iff (t : MappingTree) (s : Spelling) :
    essence none (t.shown s) = essence none (t.shown .engine) ↔ t.Finished s :=
  ⟨fun same => (t.weight_shown s).2 (congrArg weight same), t.essence_shown s⟩

/-! ### Arrows -/

/-- No arrow stands in a text outside of string literals. -/
def Arrowless (t : Text) : Prop := ¬ [('=', false), ('>', false)] <:+: essence none t

/-- The keys of items. -/
def Label.terms : {k : Bracketing} → Label k → List Text
  | _, .item => []
  | _, .arrow key _ => [key.text]
  | _, .field key _ => [key.text]

mutual

/-- The keys and leaves of a tree. -/
def MappingTree.terms : MappingTree → List Text
  | .leaf e => [e.text]
  | .literal items => items.terms

def Items.terms : {k : Bracketing} → Items k → List Text
  | _, .nil => []
  | _, .cons label _ value rest => label.terms ++ (value.terms ++ rest.terms)

end

/-- An arrow does not reach over another sign. -/
theorem not_arrow_parted {x : Char × Bool} (hx : x ∉ [('=', false), ('>', false)])
    {u r : List (Char × Bool)} (hu : ¬ [('=', false), ('>', false)] <:+: u)
    (hr : ¬ [('=', false), ('>', false)] <:+: r) : ¬ [('=', false), ('>', false)] <:+: u ++ x :: r :=
  fun found => (infix_parted hx found).elim hu hr

theorem Key.arrowless_quoted {key : Key} (h : Arrowless key.text) : Arrowless key.quoted := by
  rw [Key.quoted]
  split
  · obtain ⟨q, inner, hq, hi, e⟩ := exists_quoted key.text
    intro found
    rw [e, essence_literal hq hi] at found
    have sign := found.subset (List.mem_cons_self (a := ('=', false)))
    simp [essence] at sign
  · exact h

theorem arrowless_intercalate : ∀ {xs : List (List (Char × Bool))},
    (∀ x ∈ xs, ¬ [('=', false), ('>', false)] <:+: x) →
      ¬ [('=', false), ('>', false)] <:+: List.intercalate [(',', false)] xs
  | [], _ => by decide
  | [x], h => by
      simpa [List.intercalate] using h x List.mem_cons_self
  | x :: y :: xs, h => by
      obtain ⟨first, later⟩ := List.forall_mem_cons.mp h
      exact not_arrow_parted (x := (',', false)) (by decide) first (arrowless_intercalate later)

theorem Label.arrowless_shown {k : Bracketing} {label : Label k} (h : ∀ e ∈ label.terms, Arrowless e)
    {v : Text} (hv : Arrowless v) : Arrowless (label.shown .engine ++ v) := by
  have signs : ∀ {key : Text}, Balanced key → Arrowless key → Arrowless (key ++ ": ".toList ++ v) := by
    intro key balanced bare
    rw [Arrowless, List.append_assoc, essence_append _ balanced]
    exact not_arrow_parted (x := (':', false)) (by decide) bare hv
  cases label with
  | item => exact hv
  | arrow key b => exact signs key.simple.balanced (h key.text List.mem_cons_self)
  | field key b => exact signs key.balanced_quoted (Key.arrowless_quoted (h key.text List.mem_cons_self))

mutual

/-- **In the engine's spelling no arrow is left** but those of keys and leaves. -/
theorem MappingTree.arrowless_shown : ∀ t : MappingTree, (∀ e ∈ t.terms, Arrowless e) →
    Arrowless (t.shown .engine)
  | .leaf e, h => h e.text List.mem_cons_self
  | @MappingTree.literal k items, h => by
      have signs := (by decide : ∀ p ∈ bracketPairs, (p.1, false) ∉ [('=', false), ('>', false)] ∧
          (p.2, false) ∉ [('=', false), ('>', false)])
        _ (Spelling.engine.brackets_mem k (items.shown .engine).isEmpty)
      have inner := arrowless_intercalate (List.forall_mem_map.mpr (items.arrowless_shown h))
      have spelled : (MappingTree.literal items).shown .engine =
        Spelling.engine.bracketed k (items.shown .engine) := rfl
      rw [Arrowless, spelled, Spelling.essence_bracketed _ k (items.balanced_shown .engine)]
      exact not_arrow_parted (u := []) signs.1 (by decide) (not_arrow_parted signs.2 inner (by decide))

theorem Items.arrowless_shown : ∀ {k : Bracketing} (items : Items k), (∀ e ∈ items.terms, Arrowless e) →
    ∀ t ∈ items.shown .engine, Arrowless t
  | _, .nil, _ => nofun
  | _, .cons label b value rest, h => by
      obtain ⟨own, others⟩ := List.forall_mem_append.mp h
      obtain ⟨inner, later⟩ := List.forall_mem_append.mp others
      exact List.forall_mem_cons.mpr
        ⟨Label.arrowless_shown own (value.arrowless_shown inner), rest.arrowless_shown later⟩

end

/-! ### Literals -/

/-- **Literals are rewritten** but for those in lists.  A tree that its author writes becomes the tree in
which the values of mappings are rewritten at every depth, and lists are left as they are; all that
counts of it is as in the engine if and only if nothing is left to convert in a list; and then no arrow
is left outside of string literals but those of its expressions. -/
theorem mappingExpression_tree (t : MappingTree) (b : Blanks) :
    mappingExpression (b.around (t.shown .authored)) = t.shown .rewritten ∧
      (essence none (t.shown .rewritten) = essence none (t.shown .engine) ↔ t.Finished .rewritten) ∧
      (t.Finished .rewritten → (∀ e ∈ t.terms, Arrowless e) → Arrowless (t.shown .rewritten)) := by
  refine ⟨?_, t.essence_shown_iff .rewritten, fun finished h => ?_⟩
  · have tight := (t.simple_shown .authored).tight.strip_around b
    refine t.mappingTo_shown _ _ tight ?_
    rw [Blanks.around, List.length_append, List.length_append]
    omega
  · rw [Arrowless, t.essence_shown .rewritten finished]
    exact t.arrowless_shown h

theorem isBlank_nil : isBlank [] = true := rfl

theorem isBlank_blank : isBlank [' '] = true := rfl

namespace Blanks

/-- No white space. -/
def nothing : Blanks := ⟨[], [], isBlank_nil, isBlank_nil⟩

/-- A blank in front. -/
def before : Blanks := ⟨[' '], [], isBlank_blank, isBlank_nil⟩

/-- A blank behind. -/
def behind : Blanks := ⟨[], [' '], isBlank_nil, isBlank_blank⟩

end Blanks

theorem simple_rows : Simple "'rows'" := simple_literal (.single "rows" (by decide) (by decide))

theorem simple_first : Simple "'a'" := simple_literal (.single "a" (by decide) (by decide))

theorem simple_one : Simple "1" :=
  ⟨.of_inert rfl, by decide +kernel, ⟨'1', rfl, rfl⟩, '1', rfl, rfl⟩

/-- A number as a value. -/
def one : MappingTree := .leaf ⟨"1", simple_one, rfl, nofun⟩

/-- Mappings with a single key each, one of them in a list in the other:
`['rows' => [['a' => 1]]]`. -/
def rows : MappingTree :=
  .literal (.cons (.arrow ⟨"'rows'", simple_rows⟩ .behind) .before
    (.literal (.cons .item .nothing
      (.literal (.cons (.arrow ⟨"'a'", simple_first⟩ .behind) .before one .nil))
      .nil))
    .nil)

/-- A mapping in a list keeps its arrows, as the list is left as it is. -/
theorem mappingExpression_tree_listed :
    mappingExpression "['rows' => [['a' => 1]]]" = "\x7b'rows': [['a' => 1]]\x7d" ∧
      essence none "\x7b'rows': [['a' => 1]]\x7d" ≠ essence none "\x7b'rows': [\x7b'a': 1\x7d]\x7d" := by
  obtain ⟨shown, same, -⟩ := mappingExpression_tree rows .nothing
  have left : ¬ rows.Finished .rewritten := fun finished =>
    Bool.noConfusion (finished.2.1.2.1.1 rfl)
  exact ⟨shown, fun counts => left (same.mp counts)⟩

end Pagewright.Lowering
