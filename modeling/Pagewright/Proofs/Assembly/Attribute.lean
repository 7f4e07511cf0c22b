import Pagewright.Assembly.Inclusion
import Pagewright.Proofs.Directive.Balance
import Pagewright.Proofs.Html.Escape
import Pagewright.Proofs.Text.Named

/-! # Attributes are read as they were written

An escaped value holds no quote, so each attribute is recognised where it stands, up to the quote behind
its value (`attribute?_quoted`), and a scan finds all of them in their order (`hits_quoted`).
Resolving the references gives the values back (`parseAttributes_written`).

Main definitions: `writtenAttributes`, `AttributeName`, `quotedAttributes`, `readAttribute`,
`ReservedName`. -/

namespace Pagewright.Assembly

open Text Directive Lowering

/-- The attributes of an include tag, from its name up to its slash. -/
def writtenAttributes (src : Text) (as : List Attribute) : Text :=
  ' ' :: (join " " ((⟨"src", src⟩ :: as : List Attribute).map shownAttribute) ++ " ")

/-- A name that an attribute may have. -/
structure AttributeName (n : Text) : Prop where
  starts : ∃ c ∈ n.head?, (isAsciiLetter c || c == '_') = true
  chars : ∀ c ∈ n, isAttributeChar c = true

/-- A value in quotes under a name. -/
def quotedAttribute (n v : Text) : Text := n ++ "=\"" ++ v ++ "\""

/-- **An attribute is recognised** up to the quote behind its value. -/
theorem attribute?_quoted {n v : Text} (h : AttributeName n) (free : '"' ∉ v) (r : Text) :
    attribute? (quotedAttribute n v ++ r) = some ((n, v), (quotedAttribute n v).length) := by
  obtain ⟨⟨c, hc, letter⟩, chars⟩ := h
  obtain ⟨w, rfl⟩ := List.head?_eq_some_iff.mp hc
  let quoted : Text := '"' :: (v ++ '"' :: r)
  have shape : quotedAttribute (c :: w) v ++ r = c :: (w ++ '=' :: quoted) := by
    simp [quotedAttribute, quoted]
  have run : (w ++ '=' :: quoted).takeWhile isAttributeChar = w := by
    have equals : isAttributeChar '=' = false := by decide
    rw [List.takeWhile_append_of_pos (List.forall_mem_cons.mp chars).2,
      List.takeWhile_cons_of_neg (by simp [equals]), List.append_nil]
  have rest : (c :: (w ++ '=' :: quoted)).drop (c :: w).length = '=' :: quoted := by
    rw [← List.cons_append, List.drop_left]
  have equals : dropLead? "=" (stripLeft ('=' :: quoted)) = some quoted := by
    rw [stripLeft_eq_self rfl]
    rfl
  have solid : stripLeft quoted = quoted := stripLeft_eq_self rfl
  have cut : cutAt? ['"'] (v ++ '"' :: r) = some (v, r) := cutAt?_char r free
  have covered : (quotedAttribute (c :: w) v ++ r).length - r.length =
      (quotedAttribute (c :: w) v).length := by
    rw [List.length_append, Nat.add_sub_cancel]
  rw [← covered, shape]
  unfold attribute?
  simp only [letter, run, rest, equals, solid, Option.bind_eq_bind, Option.bind_some]
  simp [quoted, cut]

theorem quotedAttribute_ne_nil (n v : Text) : quotedAttribute n v ≠ [] :=
  List.append_ne_nil_of_right_ne_nil _ (by decide)

/-- Attributes with a blank in front of each and one behind them. -/
def quotedAttributes (as : List (Text × Text)) : Text :=
  as.flatMap (fun (n, v) => ' ' :: quotedAttribute n v) ++ " "

/-- **A scan finds the attributes** in their order. -/
theorem hits_quoted {as : List (Text × Text)} (h : ∀ a ∈ as, AttributeName a.1 ∧ '"' ∉ a.2)
    (pos : Nat) : (piecesFrom attribute? pos 0 (quotedAttributes as)).filterMap Piece.value? = as := by
  have blank : ∀ r, attribute? (' ' :: r) = none := fun r => rfl
  induction as generalizing pos with
  | nil => rfl
  | cons a as ih =>
    obtain ⟨⟨named, free⟩, others⟩ := List.forall_mem_cons.mp h
    rw [quotedAttributes, List.flatMap_cons, List.append_assoc, List.cons_append,
      piecesFrom_char pos (blank _),
      piecesFrom_hit attribute? _ (quotedAttribute_ne_nil _ _) (attribute?_quoted named free _)]
    exact congrArg (a :: ·) (ih others _)

/-- An attribute as it is read: references are resolved in the source and in reserved values. -/
def readAttribute (a : Text × Text) : Text × Text :=
  (a.1, if a.1 = "src".toList ∨ reservedLead.isPrefixOf a.1 then Html.unescape a.2 else a.2)

/-- Attributes of different names are read as they are written, up to references. -/
theorem parseAttributes_quoted {as : List (Text × Text)}
    (h : ∀ a ∈ as, AttributeName a.1 ∧ '"' ∉ a.2) (distinct : (as.map Prod.fst).Nodup) :
    parseAttributes (quotedAttributes as) = as.map readAttribute := by
  have apart : ((as.map readAttribute).map Prod.fst).Nodup := by
    rw [List.map_map]
    exact distinct
  have found : hits attribute? (quotedAttributes as) = as := hits_quoted h 0
  unfold parseAttributes
  rw [found]
  exact Named.putAll_eq_append (by rwa [List.nil_append])

/-- The attributes of a tag are written with a blank in front of each. -/
theorem writtenAttributes_eq (src : Text) (as : List Attribute) :
    writtenAttributes src as = quotedAttributes
      ((⟨"src", src⟩ :: as : List Attribute).map fun a => (a.name, Html.escape a.value)) := by
  have spaced : ∀ (as : List Attribute) (a : Attribute),
      ' ' :: join " " ((a :: as).map shownAttribute) =
        (a :: as).flatMap fun a => ' ' :: shownAttribute a := by
    intro as
    induction as with
    | nil =>
      intro a
      simp [join, List.intercalate]
    | cons b as ih =>
      intro a
      rw [List.map_cons, List.map_cons, join_cons_cons, List.flatMap_cons, ← ih b]
      rfl
  rw [writtenAttributes, ← List.cons_append, spaced, quotedAttributes, List.flatMap_map]
  rfl

/-- A name with the reserved beginning. -/
def ReservedName (n : Text) : Prop :=
  ∃ rest, n = reservedLead ++ rest ∧ ∀ c ∈ rest, isAttributeChar c = true

theorem ReservedName.attributeName {n : Text} (h : ReservedName n) : AttributeName n := by
  obtain ⟨rest, rfl, chars⟩ := h
  have lead : ∀ c ∈ reservedLead, isAttributeChar c = true := forall_mem_text (by decide)
  exact ⟨⟨'h', rfl, by decide⟩, List.forall_mem_append.mpr ⟨lead, chars⟩⟩

theorem attributeName_source : AttributeName "src" :=
  ⟨⟨'s', rfl, by decide⟩, forall_mem_text (by decide)⟩

theorem AttributeName.not_mem {n : Text} (h : AttributeName n) {c : Char}
    (hc : isAttributeChar c = false) : c ∉ n :=
  fun hm => Bool.false_ne_true (hc.symm.trans (h.chars c hm))

theorem AttributeName.bare {n : Text} (h : AttributeName n) : ∀ c ∈ "<>\"'".toList, c ∉ n := by
  have signs : ∀ c ∈ "<>\"'".toList, isAttributeChar c = false := forall_mem_text (by decide)
  exact fun c hc => h.not_mem (signs c hc)

/-- The values of the source and of reserved attributes are read as they were before escaping. -/
theorem parseAttributes_written (src : Text) {as : List Attribute}
    (reserved : ∀ a ∈ as, ReservedName a.name) (distinct : (as.map Attribute.name).Nodup) :
    parseAttributes (writtenAttributes src as) =
      ("src".toList, src) :: as.map fun a => (a.name, a.value) := by
  have named : ∀ a ∈ (⟨"src", src⟩ :: as : List Attribute), AttributeName a.name :=
    List.forall_mem_cons.mpr ⟨attributeName_source, fun a ha => (reserved a ha).attributeName⟩
  have known : ∀ a ∈ (⟨"src", src⟩ :: as : List Attribute),
      a.name = "src" ∨ reservedLead.isPrefixOf a.name = true := by
    refine List.forall_mem_cons.mpr ⟨Or.inl rfl, fun a ha => Or.inr ?_⟩
    obtain ⟨rest, name, -⟩ := reserved a ha
    exact List.isPrefixOf_iff_prefix.mpr ⟨rest, name.symm⟩
  have read : ∀ a ∈ (⟨"src", src⟩ :: as : List Attribute),
      readAttribute (a.name, Html.escape a.value) = (a.name, a.value) := fun a ha => by
    rw [readAttribute, if_pos (known a ha), Html.unescape_escape]
  have other : "src".toList ∉ as.map Attribute.name := by
    intro hm
    obtain ⟨a, ha, name⟩ := List.mem_map.mp hm
    obtain ⟨rest, lead, -⟩ := reserved a ha
    rw [lead] at name
    exact absurd (List.cons.inj name).1 (by decide)
  let written := (⟨"src", src⟩ :: as : List Attribute).map fun a => (a.name, Html.escape a.value)
  have sound : ∀ a ∈ written, AttributeName a.1 ∧ '"' ∉ a.2 := List.forall_mem_map.mpr fun a ha =>
    ⟨named a ha, Html.not_mem_escape (by decide : '"' ∈ "<>\"".toList) a.value⟩
  have apart : (written.map Prod.fst).Nodup := by
    rw [List.map_map]
    exact List.nodup_cons.mpr ⟨other, distinct⟩
  rw [writtenAttributes_eq, parseAttributes_quoted sound apart, List.map_map]
  exact List.map_congr_left read

end Pagewright.Assembly
