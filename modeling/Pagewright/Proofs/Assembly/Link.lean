import Pagewright.Assembly.Inclusion
import Pagewright.Proofs.Directive.Balance
import Pagewright.Proofs.Directive.Block
import Pagewright.Proofs.Html.Escape
import Pagewright.Proofs.Library.Path
import Pagewright.Proofs.Lowering.Plain

/-! # Links of a chain

A link is a template of plain text with at most one include of a literal path behind it.  Lowering
turns the include into its tag and leaves the text alone (`transform_link`), and a link has nothing
else in it that the engine, layouts or slots would read.

Main definitions: `Link`, `Link.shown` (its source), `Link.lowered`, `Link.Sound`. -/

namespace Pagewright.Assembly

open Text Directive Lowering Pagewright.Path

/-- Plain text with at most one include behind it. -/
structure Link where
  text : Text
  next : Option Literal

namespace Link

/-- The include of a path. -/
def call (p : Literal) : Part := .call "include" [] p.shown

/-- The parts of a link. -/
def parts (l : Link) : List Part := .text l.text :: (l.next.map call).toList

/-- A link as it is written. -/
def shown (l : Link) : Text := shownAll l.parts

/-- A link with the tag in place of its include. -/
def lowered (l : Link) : Text := l.text ++ (l.next.map fun p => includeTag p.value []).getD []

/-- The text means nothing in a page, and the path is a name. -/
structure Sound (l : Link) : Prop where
  text : ∀ c ∈ "@\x7b<\x00\r".toList, c ∉ l.text
  next : ∀ p ∈ l.next, IsName p.value

end Link

/-! ### Paths in quotes -/

/-- Between quotes stand the characters of the value, and backslashes. -/
theorem mem_value {q c : Char} (hc : c ≠ '\\') : ∀ {t v : Text}, Quoted q t →
    unescape? q t = some v → c ∈ t → c ∈ v
  | _, _, .nil, _, hm => absurd hm List.not_mem_nil
  | _, v, .char (c := d) (t := t) hd hb h, hv, hm => by
      rw [unescape?_cons hd hb] at hv
      obtain ⟨w, hw, rfl⟩ := Option.map_eq_some_iff.mp hv
      obtain rfl | hm := List.mem_cons.mp hm
      · exact List.mem_cons_self
      · exact List.mem_cons_of_mem d (mem_value hc h hw hm)
  | _, v, .escape (c := d) (t := t) h, hv, hm => by
      rw [unescape?] at hv
      obtain ⟨w, hw, rfl⟩ := Option.map_eq_some_iff.mp hv
      obtain e | hm := List.mem_cons.mp hm
      · exact absurd e hc
      · obtain rfl | hm := List.mem_cons.mp hm
        · exact List.mem_cons_self
        · exact List.mem_cons_of_mem d (mem_value hc h hw hm)

/-- What stands in the quotes of a name is in the name, or a backslash or a quote. -/
theorem not_mem_shown {p : Literal} (h : IsName p.value) {c : Char} (hn : isNameChar c = false)
    (hb : c ≠ '\\') (hq : isQuote c = false) : c ∉ p.shown := by
  obtain ⟨v, hv⟩ := unescape?_quoted p.quoted
  have value : p.value = v := by rw [Literal.value, hv]; rfl
  have quote : c ≠ p.quote := fun e => Bool.false_ne_true (hq.symm.trans (e ▸ p.isQuote))
  have inner : c ∉ p.inner := fun hm =>
    h.not_mem hn (value ▸ mem_value hb p.quoted hv hm)
  simp [Literal.shown, quote, inner]

/-! ### The source of a link -/

section

variable {l : Link}

theorem legible_link (h : l.Sound) : Legible l.parts := by
  refine ⟨h.text '@' (by decide), ?_⟩
  cases hn : l.next with
  | none => trivial
  | some p =>
      have hp := h.next p hn
      exact ⟨rfl, by decide, rfl, p.balanced,
        not_mem_shown hp (by decide) (by decide) (by decide), trivial⟩

theorem shown_link (l : Link) :
    l.shown = l.text ++ (l.next.map fun p => (Link.call p).shown).getD [] := by
  unfold Link.shown Link.parts
  cases l.next <;> simp [Part.shown]

theorem mem_call {p : Literal} {c : Char} (h : c ∈ (Link.call p).shown) :
    c ∈ "@include()".toList ∨ c ∈ p.shown := by
  have name : ∀ d ∈ "include".toList, d ∈ "@include()".toList :=
    forall_mem_text (by decide)
  obtain rfl | h := List.mem_cons.mp h
  · exact Or.inl (by decide)
  · obtain h | h := List.mem_append.mp h
    · exact Or.inl (name c h)
    · obtain rfl | h := List.mem_cons.mp h
      · exact Or.inl (by decide)
      · obtain h | h := List.mem_append.mp h
        · exact Or.inr h
        · rw [List.mem_singleton.mp h]
          exact Or.inl (by decide)

/-- A link shows no curly bracket, angle bracket or null character. -/
theorem not_mem_link (h : l.Sound) {c : Char} (hc : c ∈ "\x7b<\x00".toList) : c ∉ l.shown := by
  have ht : c ∉ l.text := h.text c (by
    have all : ∀ d ∈ "\x7b<\x00".toList, d ∈ "@\x7b<\x00\r".toList := forall_mem_text (by decide)
    exact all c hc)
  have all : ∀ d ∈ "\x7b<\x00".toList, isNameChar d = false ∧ d ≠ '\\' ∧ isQuote d = false ∧
      d ∉ "@include()".toList := forall_mem_text (by decide)
  obtain ⟨hn, hb, hq, hd⟩ := all c hc
  rw [shown_link, List.mem_append, not_or]
  refine ⟨ht, ?_⟩
  cases hp : l.next with
  | none => exact List.not_mem_nil
  | some p =>
      exact fun hm => (mem_call hm).elim hd (not_mem_shown (h.next p hp) hn hb hq)

/-- The directives of a link: its include, if it has one. -/
theorem directives_link (h : l.Sound) :
    ∀ d ∈ directives l.shown, d.name = "include".toList := by
  rw [Link.shown, directives_shownAll (legible_link h)]
  unfold Link.parts
  cases l.next with
  | none => intro d hd; cases hd
  | some p =>
      intro d hd
      obtain rfl := List.mem_singleton.mp hd
      rfl

theorem named_link (h : l.Sound) {names : List Text} (hn : "include".toList ∉ names) :
    named names (directives l.shown) = [] := by
  refine List.filter_eq_nil_iff.mpr fun d hd hc => hn ?_
  rw [directives_link h d hd] at hc
  exact List.contains_iff_mem.mp hc

theorem replaceWith_link {σ : Type} (h : l.Sound) {names : List Text}
    (handler : σ → Directive → Option Text × σ) (s : σ) (hn : "include".toList ∉ names) :
    replaceWith names handler s l.shown = (l.shown, s) := by
  rw [replaceWith, named_link h hn]
  rfl

/-! ### Slots and layouts -/

/-- A link has no places for slots. -/
theorem fillSlots_link (h : l.Sound) (slots : List (Text × Text)) :
    fillSlots l.shown slots = l.shown := by
  have none : blocks "slot" "endslot" isShort l.shown = [] :=
    blocksFrom_eq_nil _ _ fun d hd => by
      rw [directives_link h d hd]
      decide
  unfold fillSlots
  rw [none]
  rfl

/-- A link extends no layout. -/
theorem extends_link (h : l.Sound) : named ["extends"] (directives l.shown) = [] :=
  named_link h (by decide)

/-! ### Lowering -/

theorem escape_name {p : Text} (h : IsName p) : Html.escape p = p := by
  have all : ∀ d ∈ "&<>\"'".toList, isNameChar d = false := forall_mem_text (by decide)
  exact Html.escape_eq_self fun c hc hd => h.not_mem (all c hd) hc

/-- The tag of a name. -/
theorem includeTag_name {p : Text} (h : IsName p) :
    includeTag p [] = "<include".toList ++ (" src=\"" ++ p ++ "\" />") := by
  unfold includeTag
  simp only [List.map_cons, List.map_nil, shownAttribute, escape_name h]
  simp [join, List.intercalate]

theorem not_mem_includeTag {p : Text} (h : IsName p) {c : Char} (hc : isNameChar c = false)
    (ht : c ∉ "<include src=\"\" />".toList) : c ∉ includeTag p [] := by
  have all : ∀ part ∈ ["<include".toList, " src=\"".toList, "\" />".toList],
      ∀ d ∈ part, d ∈ "<include src=\"\" />".toList := by
    simp only [List.forall_mem_cons, List.not_mem_nil, false_imp_iff, implies_true, and_true]
    exact ⟨forall_mem_text (by decide), forall_mem_text (by decide), forall_mem_text (by decide)⟩
  rw [includeTag_name h]
  simp only [List.mem_append, not_or]
  refine ⟨fun hm => ht (all _ (by decide) c hm), ⟨fun hm => ht (all _ (by decide) c hm), ?_⟩,
    fun hm => ht (all _ (by decide) c hm)⟩
  exact h.not_mem hc

theorem not_mem_lowered (h : l.Sound) {c : Char} (hc : c ∈ "@\x7b\x00".toList) :
    c ∉ l.lowered := by
  have all : ∀ d ∈ "@\x7b\x00".toList, d ∈ "@\x7b<\x00\r".toList ∧ isNameChar d = false ∧
      d ∉ "<include src=\"\" />".toList := forall_mem_text (by decide)
  obtain ⟨ht, hn, hd⟩ := all c hc
  rw [Link.lowered, List.mem_append, not_or]
  refine ⟨h.text c ht, ?_⟩
  cases hp : l.next with
  | none => exact List.not_mem_nil
  | some p => exact not_mem_includeTag (h.next p hp) hn hd

theorem includeTag?_call {d : Directive} {p : Literal} (hn : d.name = "include".toList)
    (ha : d.args = some p.shown) : includeTag? d = some (includeTag p.value []) := by
  have list : d.argumentList = [p.shown] := by
    rw [Directive.argumentList, ha]
    exact p.arguments_shown
  have request : includeRequest? d = some ⟨p.value, [], []⟩ := by
    unfold includeRequest?
    rw [list]
    simp only [hn, if_true, p.literal?_shown]
    rfl
  unfold includeTag?
  rw [request]
  rfl

theorem rewriteIncludes_link (h : l.Sound) : rewriteIncludes l.shown = l.lowered := by
  have walked := replace_shownAll includeNames (fun _ _ hn ha => includeTag?_blind hn ha)
    (legible_link h)
  unfold rewriteIncludes Link.shown
  rw [walked]
  unfold Link.parts Link.lowered
  cases l.next with
  | none => simp [walk, rewritePart, Part.mark?, Part.shown]
  | some p =>
      have mark : (Link.call p).mark? 0 =
          some ⟨"include", some p.shown, 0, 0 + (Link.call p).shown.length, false⟩ := rfl
      have tag : rewritePart includeNames (fun (_ : Unit) d => (includeTag? d, ())) () (Link.call p) =
          (.text (includeTag p.value []), ()) :=
        rewritePart_answer mark rfl (congrArg (·, ()) (includeTag?_call rfl rfl))
      simp only [Option.map_some, Option.toList_some, walk, tag]
      simp [rewritePart, Part.mark?, Part.shown]

theorem rewriteAll_link (h : l.Sound) : rewriteAll {} l.shown = l.lowered := by
  have conditionals : rewriteConditionals l.shown = l.shown :=
    congrArg Prod.fst (replaceWith_link h _ _ (by decide))
  have switches : rewriteSwitches l.shown = l.shown :=
    congrArg Prod.fst (replaceWith_link h _ _ (by decide))
  have loops : rewriteLoops l.shown = l.shown :=
    congrArg Prod.fst (replaceWith_link h _ _ (by decide))
  have helpers : rewriteHelpers l.shown "\x7b\x7b" "\x7d\x7d" = l.shown :=
    congrArg Prod.fst (replaceWith_link h _ _ (by decide))
  have markers : rewriteStackMarkers l.shown = l.shown :=
    congrArg Prod.fst (replaceWith_link h _ _ (by decide))
  unfold rewriteAll
  rw [conditionals, switches, loops, helpers, markers, rewriteIncludes_link h]

/-- **Lowering a link** puts the tag in the place of its include. -/
theorem transform_link (h : l.Sound) : transform {} l.shown = .ok l.lowered := by
  have brace : '\x7b' ∉ l.shown := not_mem_link h (by decide)
  have guarded : guardRegions (escapeMarkers (stripComments l.shown)) = (l.shown, []) := by
    have verbatim : Part.word "verbatim" ∉ l.parts := by
      unfold Link.parts
      cases l.next <;> simp [Link.call]
    rw [stripComments_eq_self (not_infix_of_not_mem brace), Link.shown,
      escapeMarkers_shownAll (legible_link h), guardRegions_shownAll (legible_link h) ?_ verbatim]
    exact fun t ht => keywordTag?_eq_none fun hm => brace (ht.subset hm)
  have null : '\x00' ∉ l.lowered := not_mem_lowered h (by decide)
  unfold transform
  split
  · rw [guarded]
    simp only [rewriteAll_link h, restoreRegions_eq_self null]
    exact congrArg Except.ok (restoreMarkers_eq_self null)
  · next hd =>
    rw [mayHoldDirectives, Bool.not_eq_true, Bool.or_eq_false_iff] at hd
    have at_ : '@' ∉ l.shown := fun hm =>
      Bool.false_ne_true (hd.1.symm.trans (List.contains_iff_mem.mpr hm))
    rw [← rewriteIncludes_link h, rewriteIncludes_eq_self at_]

end

end Pagewright.Assembly
