import Pagewright.Proofs.Directive.Essence
import Pagewright.Proofs.Lowering.FairMapping

/-! # Literals as trees

Lists `[v, …]` and mappings `[k => v, …]` and `{k: v, …}` inside each other, as a tree whose leaves are
expressions.  A tree is spelled in three ways: as an author writes it, as the engine reads it, and as
`mappingExpression` leaves it (`MappingTree.mappingTo_shown`): the values of mappings are rewritten at
every depth, but a list is left as it is written, with all that stands in it.

What holds the proof together is that every tree is one item, however it is spelled
(`MappingTree.simple_shown`): separators stand in it inside brackets alone.

Main definitions: `Simple`, `MappingTree`, `Spelling`. -/

namespace Pagewright.Lowering

open Text Directive

/-! ### Texts that are one item -/

/-- White space around a text. -/
structure Blanks where
  lead : Text
  trail : Text
  lead_blank : isBlank lead = true
  trail_blank : isBlank trail = true

/-- A text with white space around it. -/
def Blanks.around (b : Blanks) (t : Text) : Text := b.lead ++ (t ++ b.trail)

/-- A text begins and ends with characters that are no white space. -/
structure Tight (t : Text) : Prop where
  first : ∃ c ∈ t.head?, isSpace c = false
  last : ∃ c ∈ t.getLast?, isSpace c = false

namespace Tight

variable {t u : Text}

theorem head (h : Tight t) (r : Text) : ((t ++ r).head?.map isSpace).getD false = false := by
  obtain ⟨c, hc, solid⟩ := h.first
  rw [List.head?_append, hc]
  exact solid

theorem strip_around (h : Tight t) (b : Blanks) : strip (b.around t) = t := by
  obtain ⟨c, hc, solid⟩ := h.last
  rw [Blanks.around, strip, stripLeft_append b.lead_blank (h.head b.trail),
    stripRight_append (by rw [hc]; exact solid) b.trail_blank]

theorem strip_eq (h : Tight t) : strip t = t := by
  have own := h.strip_around ⟨[], [], rfl, rfl⟩
  rwa [Blanks.around, List.nil_append, List.append_nil] at own

theorem append (ht : Tight t) (hu : Tight u) (m : Text) : Tight (t ++ (m ++ u)) := by
  obtain ⟨c, hc, solid⟩ := ht.first
  obtain ⟨d, hd, solid'⟩ := hu.last
  refine ⟨⟨c, ?_, solid⟩, d, ?_, solid'⟩
  · rw [List.head?_append, hc]
    rfl
  · rw [List.getLast?_append, List.getLast?_append, hd]
    rfl

theorem not_isBlank (h : Tight t) : isBlank t = false := by
  obtain ⟨c, hc, solid⟩ := h.first
  rw [isBlank, List.all_eq_false]
  exact ⟨c, List.mem_of_head? hc, by simp [solid]⟩

end Tight

/-- What parts the items of a literal, and the key of an item from its value. -/
def separators : List Text := [",", ":", "=>"]

theorem separator_plain : ∀ sep ∈ separators,
    sep ≠ [] ∧ sep.all isInert = true ∧ ∀ c ∈ sep, isSpace c = false := by
  have all : separators.all fun sep => !sep.isEmpty && sep.all isInert &&
      sep.all fun c => !isSpace c := by decide
  intro sep hs
  have own := List.all_eq_true.mp all sep hs
  simp only [Bool.and_eq_true, Bool.not_eq_true', List.isEmpty_eq_false_iff] at own
  exact ⟨own.1.1, own.1.2, fun c hc => by simpa using List.all_eq_true.mp own.2 c hc⟩

/-- A balanced expression that holds no separator on top level. -/
structure Simple (t : Text) : Prop where
  balanced : Balanced t
  whole : ∀ sep ∈ separators, Whole sep t
  tight : Tight t

theorem balanced_around (b : Blanks) {t : Text} (h : Balanced t) : Balanced (b.around t) :=
  (balanced_blank b.lead_blank).append (h.append (balanced_blank b.trail_blank))

section Whole

variable {sep t : Text} (hs : sep ∈ separators) (b : Blanks)

include hs

theorem Simple.whole_lead (h : Simple t) : Whole sep (b.lead ++ t) := by
  obtain ⟨given, inert, solid⟩ := separator_plain sep hs
  exact Whole.append given inert (balanced_blank b.lead_blank) (whole_blank solid given b.lead_blank)
    (h.whole sep hs) (seamless_blank solid b.lead_blank t)

theorem Simple.whole_trail (h : Simple t) : Whole sep (t ++ b.trail) := by
  obtain ⟨given, inert, solid⟩ := separator_plain sep hs
  exact Whole.append given inert h.balanced (h.whole sep hs) (whole_blank solid given b.trail_blank)
    (seamless_before_blank solid t b.trail_blank)

theorem Simple.whole_around (h : Simple t) : Whole sep (b.around t) := by
  obtain ⟨given, inert, solid⟩ := separator_plain sep hs
  exact Whole.append given inert (balanced_blank b.lead_blank) (whole_blank solid given b.lead_blank)
    (h.whole_trail hs b) (seamless_blank solid b.lead_blank _)

end Whole

/-- A literal in brackets is one item. -/
theorem simple_bracketed {o c : Char} {inner : Text} (ho : closerOf? o = some c) (hi : Balanced inner) :
    Simple (o :: (inner ++ [c])) := by
  obtain ⟨⟨-, os⟩, -, cs⟩ := brackets_count ho
  refine ⟨.bracket ho hi .nil, fun sep _ => whole_bracketed sep ho hi, ⟨o, rfl, os⟩, c, ?_, cs⟩
  rw [← List.cons_append, List.getLast?_concat]
  rfl

/-- A string literal is one item, whatever separators stand in it. -/
theorem simple_literal (l : Literal) : Simple l.shown := by
  have solid := not_space_of_isQuote l.isQuote
  refine ⟨l.balanced, fun sep _ => ?_, ⟨l.quote, rfl, solid⟩, l.quote, l.getLast?_shown, solid⟩
  have passed := l.splitTopFrom_shown sep [] 0
  rwa [splitTopFrom_nil, List.append_nil] at passed

/-- An item of a key and a value is split at the separator between them. -/
theorem splitTop_pair {a : Char} {s : Text} (ha : a ∉ s) (hs : a :: s ∈ separators) {k v : Text}
    (hk : Simple k) (hv : Simple v) (b d : Blanks) :
    splitTop (a :: s) (strip (b.around k ++ (a :: s ++ d.around v))) = [k, v] := by
  have inner : strip (b.around k ++ (a :: s ++ d.around v)) =
      k ++ (b.trail ++ (a :: s ++ d.lead) ++ v) := by
    have whole := (hk.tight.append hv.tight (b.trail ++ (a :: s ++ d.lead))).strip_around
      ⟨b.lead, d.trail, b.lead_blank, d.trail_blank⟩
    rw [← whole]
    simp [Blanks.around]
  have parts : k ++ (b.trail ++ (a :: s ++ d.lead) ++ v) =
      join (a :: s) [k ++ b.trail, d.lead ++ v] := by
    rw [join_cons_cons, join_singleton]
    simp
  have pieces : ∀ q ∈ [k ++ b.trail, d.lead ++ v], Balanced q ∧ Whole (a :: s) q := by
    simp only [List.forall_mem_cons, List.not_mem_nil, false_imp_iff, implies_true, and_true]
    exact ⟨⟨hk.balanced.append (balanced_blank b.trail_blank), hk.whole_trail hs b⟩,
      (balanced_blank d.lead_blank).append hv.balanced, hv.whole_lead hs d⟩
  have key := hk.tight.strip_around ⟨[], b.trail, rfl, b.trail_blank⟩
  have value := hv.tight.strip_around ⟨d.lead, [], d.lead_blank, rfl⟩
  simp only [Blanks.around, List.nil_append, List.append_nil] at key value
  rw [inner, parts, splitTop, splitTopFrom_join ha (separator_plain _ hs).2.1 pieces]
  simp only [List.map_cons, List.map_nil, key, value]

/-- Items with commas between them are the arguments of the text they make up. -/
theorem arguments_join {ps : List Text}
    (h : ∀ p ∈ ps, Balanced p ∧ Whole "," p ∧ isBlank p = false) :
    arguments (join "," ps) = ps.map strip := by
  cases ps with
  | nil => rfl
  | cons p ps =>
    have full : isBlank (join "," (p :: ps)) = false := by
      obtain ⟨x, y, e, -⟩ := exists_of_mem_join "," (List.mem_cons_self (a := p) (l := ps))
      have solid := (h p List.mem_cons_self).2.2
      rw [isBlank] at solid
      rw [e, isBlank, List.all_append, List.all_append, solid, Bool.false_and, Bool.and_false]
    have pieces := splitTopFrom_join (a := ',') (s := []) List.not_mem_nil rfl
      fun q hq => ⟨(h q hq).1, (h q hq).2.1⟩
    rw [arguments, full, if_neg Bool.false_ne_true, splitTop]
    exact congrArg (fun q : Text × List Text => (q.1 :: q.2).map strip) pieces

/-! ### Quoted keys -/

theorem quoted_hexDigits {q : Char} (hq : isQuote q = true) (width n : Nat) :
    Quoted q (hexDigits width n) := by
  have digit : ∀ d < 16, '\'' ≠ Nat.digitChar d ∧ '"' ≠ Nat.digitChar d ∧ '\\' ≠ Nat.digitChar d := by
    decide
  have none : ∀ {x : Char}, x ≠ '0' → (∀ d < 16, x ≠ Nat.digitChar d) → x ∉ hexDigits width n :=
    fun hx hd => List.not_mem_append (fun hm => hx (List.eq_of_mem_replicate hm)) (not_mem_toDigits hd n)
  refine (quoted_plain ?_ (none (by decide) fun d hd => (digit d hd).2.2)).1
  obtain rfl | rfl := isQuote_eq_true.mp hq
  · exact none (by decide) fun d hd => (digit d hd).1
  · exact none (by decide) fun d hd => (digit d hd).2.1

theorem quoted_quotedChar {q : Char} (hq : isQuote q = true) (c : Char) :
    Quoted q (quotedChar q c) := by
  unfold quotedChar
  split_ifs with own
  · exact .escape .nil
  · exact .escape .nil
  · exact .escape .nil
  · exact .escape .nil
  · simp only [Bool.or_eq_true, decide_eq_true_eq, not_or] at own
    exact .char own.1 own.2 .nil
  · exact .escape (quoted_hexDigits hq 2 _)
  · exact .escape (quoted_hexDigits hq 4 _)
  · exact .escape (quoted_hexDigits hq 8 _)

/-- What is between the quotes of a quoted text is quoted by them. -/
theorem exists_quoted (t : Text) : ∃ q inner, isQuote q = true ∧ Quoted q inner ∧
    quoted t = q :: (inner ++ [q]) := by
  refine ⟨quoteFor t, t.flatMap (quotedChar (quoteFor t)), isQuote_quoteFor t, ?_, rfl⟩
  generalize quoteFor t = q, isQuote_quoteFor t = hq
  induction t with
  | nil => exact .nil
  | cons c t ih => exact (quoted_quotedChar hq c).append ih

/-! ### Trees -/

/-- How the items of a literal are written. -/
inductive Bracketing where
  | list
  | arrows
  | fields

/-- An expression in front of a separator. -/
structure Key where
  text : Text
  simple : Simple text

/-- An expression that is no literal in brackets: what has square brackets at its ends does not read as
pairs with arrows. -/
structure Leaf where
  text : Text
  simple : Simple text
  braces : between? '\x7b' '\x7d' text = none
  brackets : ∀ inner, between? '[' ']' text = some inner → arrowPairs? (arguments inner) = none

/-- What stands in front of a value: nothing in a list, and a key in a mapping. -/
inductive Label : Bracketing → Type
  | item : Label .list
  | arrow (key : Key) (blanks : Blanks) : Label .arrows
  | field (key : Key) (blanks : Blanks) : Label .fields

mutual

/-- An expression, or a literal and what stands in it. -/
inductive MappingTree : Type
  | leaf (e : Leaf)
  | literal {k : Bracketing} (items : Items k)

/-- The items of a literal, with white space around their values. -/
inductive Items : Bracketing → Type
  | nil {k : Bracketing} : Items k
  | cons {k : Bracketing} (label : Label k) (blanks : Blanks) (value : MappingTree) (rest : Items k) :
      Items k

end

/-- The ways in which a tree is spelled: by its author, by the rewriting of literals, and in the
engine. -/
inductive Spelling where
  | authored
  | rewritten
  | engine
  deriving DecidableEq

namespace Spelling

/-- The spelling of what stands in a literal, and of its brackets: lists are not rewritten. -/
def within : Spelling → Bracketing → Spelling
  | .rewritten, .list => .authored
  | s, _ => s

/-- What stands between items. -/
def separator : Spelling → Text
  | .authored => ","
  | _ => ", "

/-- A value and the white space that its author writes around it. -/
def spaced : Spelling → Blanks → Text → Text
  | .authored, b, t => b.around t
  | _, _, t => t

/-- The brackets around items: an author writes arrows in square brackets, and with nothing in them,
they are those of a list. -/
def brackets : Spelling → Bracketing → Bool → Char × Char
  | _, .fields, _ => ('\x7b', '\x7d')
  | .authored, _, _ => ('[', ']')
  | _, .list, _ => ('[', ']')
  | _, .arrows, empty => if empty then ('[', ']') else ('\x7b', '\x7d')

/-- Items in brackets. -/
def bracketed (s : Spelling) (k : Bracketing) (items : List Text) : Text :=
  let (opener, closer) := s.brackets k items.isEmpty
  opener :: (join s.separator items ++ [closer])

end Spelling

/-- A key in front of a colon: a name is quoted. -/
def Key.quoted (key : Key) : Text := if isName key.text then Text.quoted key.text else key.text

/-- A label as it is spelled. -/
def Label.shown : {k : Bracketing} → Label k → Spelling → Text
  | _, .item, _ => []
  | _, .arrow key b, .authored => b.around key.text ++ "=>"
  | _, .field key b, .authored => b.around key.text ++ ":"
  | _, .arrow key _, _ => key.text ++ ": "
  | _, .field key _, _ => key.quoted ++ ": "

namespace Label

variable (key : Key) (b : Blanks)

theorem arrow_authored : (arrow key b).shown .authored = b.around key.text ++ "=>" := rfl

theorem field_authored : (field key b).shown .authored = b.around key.text ++ ":" := rfl

theorem arrow_engine : (arrow key b).shown .engine = key.text ++ ": " := rfl

theorem field_engine : (field key b).shown .engine = key.quoted ++ ": " := rfl

end Label

mutual

/-- A tree as it is spelled. -/
def MappingTree.shown : MappingTree → Spelling → Text
  | .leaf e, _ => e.text
  | @MappingTree.literal k items, s => (s.within k).bracketed k (items.shown (s.within k))

/-- Items as they are spelled. -/
def Items.shown : {k : Bracketing} → Items k → Spelling → List Text
  | _, .nil, _ => []
  | _, .cons label b value rest, s =>
    (label.shown s ++ s.spaced b (value.shown s)) :: rest.shown s

end

/-! ### Spelled trees are items -/

theorem Key.quoted_eq (key : Key) (h : isName key.text = false) : key.quoted = key.text :=
  if_neg (Bool.eq_false_iff.mp h)

theorem Key.balanced_quoted (key : Key) : Balanced key.quoted := by
  rw [Key.quoted]
  split
  · obtain ⟨q, inner, hq, hi, e⟩ := exists_quoted key.text
    rw [e]
    exact .literal hq hi .nil
  · exact key.simple.balanced

theorem Label.balanced_shown {k : Bracketing} (label : Label k) (s : Spelling) :
    Balanced (label.shown s) := by
  have colon : Balanced (": ".toList) := .of_inert rfl
  cases label with
  | item => exact .nil
  | arrow key b =>
    have bare := key.simple.balanced
    cases s with
    | authored => exact (balanced_around b bare).append (.of_inert rfl)
    | rewritten | engine => exact bare.append colon
  | field key b =>
    cases s with
    | authored => exact (balanced_around b key.simple.balanced).append (.of_inert rfl)
    | rewritten | engine => exact key.balanced_quoted.append colon

theorem Spelling.balanced_spaced (s : Spelling) (b : Blanks) {t : Text} (h : Balanced t) :
    Balanced (s.spaced b t) := by
  cases s with
  | authored => exact balanced_around b h
  | rewritten | engine => exact h

/-- The brackets of literals. -/
def bracketPairs : List (Char × Char) := [('[', ']'), ('\x7b', '\x7d')]

theorem Spelling.brackets_mem (s : Spelling) (k : Bracketing) (empty : Bool) :
    s.brackets k empty ∈ bracketPairs := by
  cases s <;> cases k <;> cases empty <;> decide

theorem Spelling.closerOf?_brackets (s : Spelling) (k : Bracketing) (empty : Bool) :
    closerOf? (s.brackets k empty).1 = some (s.brackets k empty).2 :=
  (by decide : ∀ p ∈ bracketPairs, closerOf? p.1 = some p.2) _ (s.brackets_mem k empty)

theorem Spelling.simple_bracketed (s : Spelling) (k : Bracketing) {items : List Text}
    (h : ∀ t ∈ items, Balanced t) : Simple (s.bracketed k items) := by
  have sep : Balanced s.separator := by
    cases s <;> exact .of_inert rfl
  exact Lowering.simple_bracketed (s.closerOf?_brackets k items.isEmpty) (balanced_join sep h)

mutual

/-- **A tree is one item**, however it is spelled. -/
theorem MappingTree.simple_shown : ∀ (t : MappingTree) (s : Spelling), Simple (t.shown s)
  | .leaf e, _ => e.simple
  | @MappingTree.literal k items, s =>
      (s.within k).simple_bracketed k (items.balanced_shown (s.within k))

theorem Items.balanced_shown : ∀ {k : Bracketing} (items : Items k) (s : Spelling),
    ∀ t ∈ items.shown s, Balanced t
  | _, .nil, _ => nofun
  | _, .cons label b value rest, s => List.forall_mem_cons.mpr
      ⟨(label.balanced_shown s).append (s.balanced_spaced b (value.simple_shown s).balanced),
        rest.balanced_shown s⟩

end

/-! ### Authored items are read -/

theorem Label.whole_shown {k : Bracketing} (label : Label k) : Whole "," (label.shown .authored) := by
  cases label with
  | item => exact splitTopFrom_nil 0 none 0
  | arrow key b | field key b =>
    exact Whole.append (by decide) rfl (balanced_around b key.simple.balanced)
      (key.simple.whole_around (by decide) b) rfl (seamless_singleton ',' _ _)

theorem Items.whole_shown : ∀ {k : Bracketing} (items : Items k), ∀ t ∈ items.shown .authored,
    Whole "," t ∧ isBlank t = false
  | _, .nil => nofun
  | _, .cons label b value rest => by
      have simple := value.simple_shown .authored
      refine List.forall_mem_cons.mpr ⟨⟨?_, ?_⟩, rest.whole_shown⟩
      · exact Whole.append (by decide) rfl (label.balanced_shown .authored) label.whole_shown
          (simple.whole_around (by decide) b) (seamless_singleton ',' _ _)
      · have solid := simple.tight.not_isBlank
        rw [isBlank] at solid
        rw [isBlank, List.all_append, Spelling.spaced, Blanks.around, List.all_append, List.all_append,
          solid, Bool.false_and, Bool.and_false, Bool.and_false]

/-- **Items are the arguments in the brackets of their literal.** -/
theorem Items.arguments_shown {k : Bracketing} (items : Items k) :
    arguments (join "," (items.shown .authored)) = (items.shown .authored).map strip :=
  arguments_join fun t ht => ⟨items.balanced_shown .authored t ht, items.whole_shown t ht⟩

/-- Items with their labels rewritten, and with values in the spelling of `f`. -/
def Items.rewritten (f : Text → Text) : {k : Bracketing} → Items k → List Text
  | _, .nil => []
  | _, .cons label _ value rest =>
    (label.shown .rewritten ++ f (value.shown .authored)) :: rest.rewritten f

/-- The items of a list are not read as pairs. -/
theorem Items.arrowPairs?_list (items : Items .list) :
    arrowPairs? ((items.shown .authored).map strip) = none := by
  cases items with
  | nil => rfl
  | cons label b value rest =>
    cases label
    have simple := value.simple_shown .authored
    have single : splitTop "=>" (value.shown .authored) = [value.shown .authored] := by
      rw [(simple.whole "=>" (by decide)).splitTop_eq, simple.tight.strip_eq]
    have first : strip (Label.item.shown .authored ++
        Spelling.authored.spaced b (value.shown .authored)) = value.shown .authored :=
      simple.tight.strip_around b
    simp only [Items.shown, List.map_cons, first, arrowPairs?, List.isEmpty_cons, Bool.false_eq_true,
      if_false, List.mapM_cons, single]
    rfl

/-- The items of a mapping with arrows are read as their keys and values. -/
theorem Items.mapM_arrows (f : Text → Text) : ∀ items : Items .arrows,
    ∃ pairs, ((items.shown .authored).map strip).mapM (fun item => match splitTop "=>" item with
        | [key, value] => some (key, value)
        | _ => none) = some pairs ∧
      pairs.map (fun p : Text × Text => (p.1 ++ ": " ++ f p.2 : Text)) = items.rewritten f
  | .nil => ⟨[], rfl, rfl⟩
  | .cons (.arrow key d) b value rest => by
      obtain ⟨pairs, read, shown⟩ := rest.mapM_arrows f
      have pair : splitTop "=>" (strip ((Label.arrow key d).shown .authored ++
          Spelling.authored.spaced b (value.shown .authored))) = [key.text, value.shown .authored] := by
        have split := splitTop_pair (a := '=') (s := [">".toList.head!]) (by decide) (by decide) key.simple
          (value.simple_shown .authored) d b
        rw [Label.arrow_authored, List.append_assoc]
        exact split
      refine ⟨(key.text, value.shown .authored) :: pairs, ?_, ?_⟩
      · rw [Items.shown, List.map_cons, List.mapM_cons, pair, read]
        rfl
      · rw [List.map_cons, shown]
        rfl

theorem Items.arrowPairs?_arrows (f : Text → Text) (items : Items .arrows) :
    ∃ pairs, arrowPairs? ((items.shown .authored).map strip) =
        (if (items.shown .authored).isEmpty then none else some pairs) ∧
      pairs.map (fun p : Text × Text => (p.1 ++ ": " ++ f p.2 : Text)) = items.rewritten f := by
  obtain ⟨pairs, read, shown⟩ := items.mapM_arrows f
  refine ⟨pairs, ?_, shown⟩
  rw [arrowPairs?, List.isEmpty_map]
  split
  · rfl
  · exact read

/-- The items of a mapping with colons are read as their keys and values. -/
theorem Items.map_fields (f : Text → Text) : ∀ items : Items .fields,
    ((items.shown .authored).map strip).map (fun item : Text => match splitTop ":" item with
        | key :: first :: more =>
          ((if isName key then quoted key else key) ++ ": " ++ f (join ":" (first :: more)) : Text)
        | _ => item) = items.rewritten f
  | .nil => rfl
  | .cons (.field key d) b value rest => by
      have pair : splitTop ":" (strip ((Label.field key d).shown .authored ++
          Spelling.authored.spaced b (value.shown .authored))) = [key.text, value.shown .authored] := by
        have split := splitTop_pair (a := ':') (s := []) (by decide) (by decide) key.simple
          (value.simple_shown .authored) d b
        rw [Label.field_authored, List.append_assoc]
        exact split
      rw [Items.shown, List.map_cons, List.map_cons, pair, rest.map_fields f]
      simp only [join_singleton]
      rfl

/-! ### Rewriting -/

theorem length_le_join (sep : Text) {t : Text} {ts : List Text} (h : t ∈ ts) :
    t.length ≤ (join sep ts).length := by
  obtain ⟨x, y, e, -⟩ := exists_of_mem_join sep h
  rw [e, List.length_append, List.length_append]
  omega

theorem between?_bracketed (o c : Char) (inner : Text) :
    between? o c (o :: (inner ++ [c])) = some inner := by
  rw [between?, List.getLast?_concat, List.dropLast_concat, if_pos ⟨rfl, rfl⟩]

mutual

/-- **A tree is rewritten with the values of its mappings**, at every depth that the fuel lasts for. -/
theorem MappingTree.mappingTo_shown : ∀ (t : MappingTree) (fuel : Nat) (e : Text),
    strip e = t.shown .authored → (t.shown .authored).length ≤ fuel →
      mappingTo fuel e = t.shown .rewritten
  | .leaf l, fuel, e, he, _ => by
      have same : strip e = l.text := he
      cases fuel with
      | zero => exact same
      | succ fuel =>
        rw [mappingTo, same]
        simp only [l.braces]
        split
        · next inner list =>
          rw [l.brackets inner list]
          rfl
        · next mapping => cases mapping
        · rfl
  | @MappingTree.literal k items, 0, e, _, short => by
      rw [MappingTree.shown, Spelling.bracketed, List.length_cons] at short
      omega
  | @MappingTree.literal k items, fuel + 1, e, he, short => by
      have inner : ∀ t ∈ items.shown .authored, t.length ≤ fuel := by
        intro t ht
        have whole := length_le_join "," ht
        change ((join "," (items.shown .authored) ++ [_]).length + 1 : Nat) ≤ fuel + 1 at short
        rw [List.length_append] at short
        omega
      have values := items.rewritten_eq fuel inner
      have stripped : strip e = Spelling.authored.bracketed k (items.shown .authored) := he
      cases k with
      | list =>
        have spelled : strip e = '[' :: (join "," (items.shown .authored) ++ [']']) := stripped
        rw [mappingTo, spelled]
        simp only [between?_bracketed, items.arguments_shown, items.arrowPairs?_list]
        rfl
      | arrows =>
        have spelled : strip e = '[' :: (join "," (items.shown .authored) ++ [']']) := stripped
        obtain ⟨pairs, read, shown⟩ := items.arrowPairs?_arrows (mappingTo fuel)
        rw [mappingTo, spelled]
        simp only [between?_bracketed, items.arguments_shown, read]
        cases items with
        | nil => rfl
        | cons label b value rest =>
          exact congrArg (fun items : List Text => "\x7b" ++ join ", " items ++ "\x7d")
            (shown.trans values)
      | fields =>
        have spelled : strip e = '\x7b' :: (join "," (items.shown .authored) ++ ['\x7d']) := stripped
        have other : between? '[' ']' ('\x7b' :: (join "," (items.shown .authored) ++ ['\x7d'])) = none := by
          rw [between?, if_neg fun both => absurd both.1 (by decide)]
        rw [mappingTo, spelled]
        simp only [other, between?_bracketed, items.arguments_shown]
        exact congrArg (fun items : List Text => "\x7b" ++ join ", " items ++ "\x7d")
          ((items.map_fields (mappingTo fuel)).trans values)

theorem Items.rewritten_eq : ∀ {k : Bracketing} (items : Items k) (fuel : Nat),
    (∀ t ∈ items.shown .authored, t.length ≤ fuel) →
      items.rewritten (mappingTo fuel) = items.shown .rewritten
  | _, .nil, _, _ => rfl
  | _, .cons label b value rest, fuel, short => by
      obtain ⟨first, later⟩ := List.forall_mem_cons.mp short
      have fits : (value.shown .authored).length ≤ fuel := by
        rw [List.length_append, Spelling.spaced, Blanks.around, List.length_append,
          List.length_append] at first
        omega
      have own := (value.simple_shown .authored).tight.strip_eq
      rw [Items.rewritten, value.mappingTo_shown fuel _ own fits, rest.rewritten_eq fuel later]
      rfl

end

end Pagewright.Lowering
