import Pagewright.Html.Escape
import Pagewright.Html.Unescape
import Pagewright.Proofs.Text.Letters
import Pagewright.Proofs.Text.Parted

/-! # Escaping is undone by reading references

In an escaped text every ampersand begins a reference that this library wrote and that ends with its
semicolon, so it stands for one character, whatever follows it (`reference?_escapeChar`).  Reading
character by character, an escaped text is read back as the text (`unescape_escape`). -/

namespace Pagewright.Html

open Text

theorem reference?_leads : Leads '&' reference? := by
  intro c r hc
  unfold reference?
  split
  · next e => exact absurd (List.cons.inj e).1 hc
  · rfl

/-- A name with its semicolon is read up to the semicolon. -/
theorem referenceBody?_name {name : Text} (given : name ≠ []) (short : name.length ≤ 32)
    (plain : ∀ c ∈ name, isReferenceName c = true) (r : Text) :
    referenceBody? (name ++ ';' :: r) = some (nameText (name ++ [';']), name.length + 1) := by
  obtain ⟨c, rest, rfl⟩ := List.exists_cons_of_ne_nil given
  have run : (c :: rest ++ ';' :: r).takeWhile isReferenceName = c :: rest := by
    have stop : isReferenceName ';' = false := by decide
    rw [List.takeWhile_append_of_pos plain, List.takeWhile_cons_of_neg (by simp [stop]),
      List.append_nil]
  have number : c ≠ '#' := by
    rintro rfl
    exact absurd (plain '#' List.mem_cons_self) (by decide)
  unfold referenceBody?
  split
  · next e => exact absurd (List.cons.inj e).1 number
  · simp only [run, List.take_of_length_le short, List.drop_left, List.isEmpty_cons, withSemicolon]
    simp

/-- The number of a quote in hexadecimal digits is read up to the semicolon. -/
theorem referenceBody?_quote (r : Text) :
    referenceBody? ("#x27" ++ ';' :: r) = some (['\''], 5) := by
  have digits : ("27" ++ ';' :: r : Text).takeWhile isHexDigit = "27" := by
    have all : ∀ c ∈ "27".toList, isHexDigit c = true := forall_mem_text (by decide)
    have stop : isHexDigit ';' = false := by decide
    rw [List.takeWhile_append_of_pos all, List.takeWhile_cons_of_neg (by simp [stop]),
      List.append_nil]
  have letter : isAsciiDigit 'x' = false := by decide
  have quote : numericReference (numberIn 16 "27") = ['\''] := by decide
  show referenceBody? ('#' :: 'x' :: ("27" ++ ';' :: r)) = _
  unfold referenceBody?
  simp only [List.takeWhile_cons, letter, List.drop_succ_cons, List.drop_zero, digits, quote]
  rfl

/-- **What is written for a character is read as the character**, whatever follows it. -/
theorem reference?_escapeChar {c : Char} (h : c ∈ "&<>\"'".toList) (r : Text) :
    reference? (escapeChar c ++ r) = some ([c], (escapeChar c).length) := by
  have named : ∀ name : Text, name ≠ [] → name.length ≤ 32 →
      (∀ c ∈ name, isReferenceName c = true) →
      reference? ('&' :: (name ++ ';' :: r)) =
        some (nameText (name ++ [';']), name.length + 2) := by
    intro name given short plain
    unfold reference?
    simp only [referenceBody?_name given short plain, Option.map_some]
  have cases : c = '&' ∨ c = '<' ∨ c = '>' ∨ c = '"' ∨ c = '\'' := by
    simpa using h
  obtain rfl | rfl | rfl | rfl | rfl := cases
  · exact named "amp" (by decide) (by decide) (forall_mem_text (by decide))
  · exact named "lt" (by decide) (by decide) (forall_mem_text (by decide))
  · exact named "gt" (by decide) (by decide) (forall_mem_text (by decide))
  · exact named "quot" (by decide) (by decide) (forall_mem_text (by decide))
  · have number : reference? ('&' :: ("#x27" ++ ';' :: r)) = some (['\''], 6) := by
      unfold reference?
      simp only [referenceBody?_quote, Option.map_some]
    exact number

theorem escapeChar_ne_nil (c : Char) : escapeChar c ≠ [] := by
  unfold escapeChar
  split <;> exact List.cons_ne_nil _ _

theorem escapeChar_of_not_mem {c : Char} (h : c ∉ "&<>\"'".toList) : escapeChar c = [c] := by
  unfold escapeChar
  split <;> first | exact absurd (by decide) h | rfl

theorem escape_eq_self {t : Text} (h : ∀ c ∈ t, c ∉ "&<>\"'".toList) : escape t = t := by
  unfold escape
  rw [List.flatMap_congr fun c hc => escapeChar_of_not_mem (h c hc)]
  exact List.flatMap_singleton' t

/-- An escaped text holds neither a quote nor a bracket. -/
theorem not_mem_escape {x : Char} (hx : x ∈ "<>\"".toList) (t : Text) : x ∉ escape t := by
  have each : ∀ c, x ∉ escapeChar c := by
    intro c hm
    have fixed : ∀ y ∈ "<>\"".toList, y ∉ "&amp;".toList ∧ y ∉ "&lt;".toList ∧ y ∉ "&gt;".toList ∧
        y ∉ "&quot;".toList ∧ y ∉ "&#x27;".toList := forall_mem_text (by decide)
    obtain ⟨h1, h2, h3, h4, h5⟩ := fixed x hx
    unfold escapeChar at hm
    split at hm
    · exact h1 hm
    · exact h2 hm
    · exact h3 hm
    · exact h4 hm
    · exact h5 hm
    · next _ n1 n2 n3 _ =>
      obtain rfl := List.mem_singleton.mp hm
      have all : ∀ y ∈ "<>\"".toList, y = '<' ∨ y = '>' ∨ y = '"' := forall_mem_text (by decide)
      obtain e | e | e := all x hx
      · exact n1 e
      · exact n2 e
      · exact n3 e
  intro h
  obtain ⟨c, -, hc⟩ := List.mem_flatMap.mp h
  exact each c hc

/-- **An escaped text is read back** as the text. -/
theorem unescape_escape (t : Text) : unescape (escape t) = t := by
  unfold unescape
  rw [replaceHits_eq]
  induction t with
  | nil => rfl
  | cons c t ih =>
    have behind : (piecesFrom reference? (0 + (escapeChar c).length) 0 (escape t)).flatMap
        (Piece.replaced id) = t := (replaced_piecesFrom id _ _ 0 0).trans ih
    have shape : escape (c :: t) = escapeChar c ++ escape t := List.flatMap_cons
    rw [shape]
    by_cases h : c ∈ "&<>\"'".toList
    · rw [piecesFrom_hit reference? 0 (escapeChar_ne_nil c) (reference?_escapeChar h _),
        List.flatMap_cons, behind]
      rfl
    · rw [escapeChar_of_not_mem h] at behind ⊢
      have other : c ≠ '&' := fun e => h (by rw [e]; decide)
      rw [List.singleton_append, piecesFrom_char 0 (reference?_leads c _ other), List.flatMap_cons]
      exact congrArg (c :: ·) behind

end Pagewright.Html
