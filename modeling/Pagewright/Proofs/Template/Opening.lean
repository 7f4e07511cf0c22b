import Pagewright.Proofs.Template.Data
import Pagewright.Proofs.Text.Parted

/-! # Where delimiters open and close

Outside tags the reader looks for the first opening delimiter, so text in which none stands is
passed over whatever follows it (`Unopened.quiet`, `scan_outside`).  The tags of a raw stretch are
read whole (`opening?_rawOpen`, `rawEnd?_rawClose`), and no tag that would close one goes past a
curly bracket (`rawEnd?_parted`).

Main definitions: `Exact`, `Unopened`, `scanOpened`. -/

namespace Pagewright.Template

open Text
open Lowering (rawOpen rawClose)

/-- The usual dialect, in which no white space beside a tag is dropped. -/
structure Exact (d : Dialect) : Prop where
  usual : Usual d
  trim : d.trimBlocks = false
  lstrip : d.lstripBlocks = false

theorem Exact.trimmedData {d : Dialect} (hd : Exact d) (output lineStart : Bool) (t : Text) :
    trimmedData d output .plain lineStart t = t := by
  simp only [Template.trimmedData, hd.lstrip, Bool.false_and, Bool.false_eq_true, if_false]

/-! ### Opening delimiters -/

/-- What the opening delimiters start with. -/
def openingLeads : List Text := ["\x7b\x7b", "\x7b%", "\x7b#"]

/-- A text in which no delimiter opens. -/
def Unopened (t : Text) : Prop := ∀ o ∈ openingLeads, ¬ o <:+: t

instance (t : Text) : Decidable (Unopened t) := by
  unfold Unopened
  infer_instance

theorem Unopened.of_infix {t u : Text} (h : Unopened t) (hu : u <:+: t) : Unopened u :=
  fun o ho hi => h o ho (hi.trans hu)

theorem openings_usual {d : Dialect} (hd : Usual d) : openings d =
    [(.output, "\x7b\x7b".toList), (.comment, "\x7b#".toList), (.tag, "\x7b%".toList)] := by
  rw [openings, hd.1]
  rfl

theorem opening?_eq_none_of_leads {d : Dialect} (hd : Usual d) {t : Text}
    (h : ∀ o ∈ openingLeads, ¬ o <+: t) : opening? d t = none := by
  have output : dropLead? "\x7b\x7b" t = none := dropLead?_eq_none.mpr (h _ (by decide))
  have tag : dropLead? "\x7b%" t = none := dropLead?_eq_none.mpr (h _ (by decide))
  have comment : dropLead? "\x7b#" t = none := dropLead?_eq_none.mpr (h _ (by decide))
  have raw : rawOpening? t = none := by
    unfold rawOpening?
    rw [tag]
    rfl
  unfold opening?
  rw [raw, openings_usual hd]
  simp only [List.findSome?_cons, output, comment, tag, Option.map_none, List.findSome?_nil]

/-- Nothing opens in a text, whatever follows it, if its last character does not. -/
theorem Unopened.quiet {d : Dialect} (hd : Usual d) {u : Text} (h : Unopened u)
    (hl : u.getLast? ≠ some '\x7b') (r : Text) :
    ∀ c v, c :: v <:+ u → opening? d (c :: v ++ r) = none := by
  intro c v hv
  refine opening?_eq_none_of_leads hd fun o ho hp => ?_
  obtain ⟨y, rfl⟩ : ∃ y : Char, o = ['\x7b', y] := by
    have : ∀ o ∈ openingLeads, ∃ y : Char, o = ['\x7b', y] := by
      simp [openingLeads]
    exact this o ho
  obtain ⟨rfl, behind⟩ := List.cons_prefix_cons.mp hp
  cases v with
  | nil =>
      obtain ⟨w, rfl⟩ := hv
      exact hl List.getLast?_concat
  | cons e v =>
      obtain ⟨rfl, -⟩ := List.cons_prefix_cons.mp behind
      exact h _ ho ((List.prefix_append ['\x7b', y] v).isInfix.trans hv.isInfix)

theorem Unopened.firstHit? {d : Dialect} (hd : Usual d) {u : Text} (h : Unopened u) :
    firstHit? (opening? d) u = none := by
  have quiet : Nowhere (opening? d) u := fun v hv =>
    opening?_eq_none_of_leads hd fun o ho hp => h o ho (hp.isInfix.trans hv.isInfix)
  cases hf : Text.firstHit? (opening? d) u with
  | none => rfl
  | some found =>
      obtain ⟨i, a, n⟩ := found
      obtain ⟨w, r, rfl, -, hr, -⟩ := exists_of_firstHit? hf
      rw [quiet r (List.suffix_append w r)] at hr
      cases hr

/-! ### Raw tags -/

theorem rawOpening?_rawOpen (r : Text) :
    rawOpening? (rawOpen ++ r) = some (.plain, rawOpen.length) := by
  have length : (rawOpen ++ r).length - r.length = rawOpen.length := by
    rw [List.length_append, Nat.add_sub_cancel]
  have read : rawOpening? (rawOpen ++ r) = some (.plain, (rawOpen ++ r).length - r.length) := rfl
  rw [read, length]

theorem opening?_rawOpen (d : Dialect) (r : Text) :
    opening? d (rawOpen ++ r) = some ((.raw, .plain), rawOpen.length) := by
  unfold opening?
  rw [rawOpening?_rawOpen]

theorem rawEnd?_rawClose {d : Dialect} (hd : Exact d) (r : Text) :
    rawEnd? d (rawClose ++ r) = some (.plain, rawClose.length) := by
  have length : (rawClose ++ r).length - r.length = rawClose.length := by
    rw [List.length_append, Nat.add_sub_cancel]
  have close : closing? tagStop true d.trimBlocks ("%\x7d" ++ r) = some r := by
    rw [hd.trim]
    rfl
  have read : rawEnd? d (rawClose ++ r) =
      (closing? tagStop true d.trimBlocks ("%\x7d" ++ r)).bind fun w =>
        some (.plain, (rawClose ++ r).length - w.length) := rfl
  rw [read, close, Option.bind_some, length]

theorem Exact.rawEnd? {d : Dialect} (hd : Exact d) : Template.rawEnd? d = Template.rawEnd? {} := by
  funext t
  unfold Template.rawEnd?
  rw [hd.trim]

/-- How the end of a tag is read: by the first character. -/
theorem closing?_cons (plus trim : Bool) (c : Char) (t : Text) :
    closing? tagStop plus trim (c :: t) =
      ((if c = '-' then (dropLead? tagStop t).map stripLeft
        else if c = '+' ∧ plus = true then dropLead? tagStop t else none) <|>
          closing?.direct tagStop trim (c :: t)) := by
  by_cases hyphen : c = '-'
  · rw [hyphen, if_pos rfl]
    rfl
  · rw [if_neg hyphen]
    by_cases hplus : c = '+'
    · subst hplus
      cases plus <;> rfl
    · rw [if_neg fun h => hplus h.1]
      unfold closing?
      split
      · next h => exact absurd (List.cons.inj h).1 hyphen
      · next h => exact absurd (List.cons.inj h).1 hplus
      · rfl

/-- A curly bracket parts what is read of the end of a tag. -/
theorem closing?_parted (plus trim : Bool) (t r : Text) :
    closing? tagStop plus trim (t ++ '\x7b' :: r) =
      (closing? tagStop plus trim t).map (· ++ '\x7b' :: r) := by
  have stop : ∀ t : Text, dropLead? tagStop (t ++ '\x7b' :: r) =
      (dropLead? tagStop t).map (· ++ '\x7b' :: r) := fun t => dropLead?_parted (by decide) t r
  have direct : ∀ t : Text, closing?.direct tagStop trim (t ++ '\x7b' :: r) =
      (closing?.direct tagStop trim t).map (· ++ '\x7b' :: r) := by
    intro t
    unfold closing?.direct
    rw [stop]
    cases dropLead? tagStop t with
    | none => rfl
    | some w =>
        have line : dropLead? "\n" (w ++ '\x7b' :: r) = (dropLead? "\n" w).map (· ++ '\x7b' :: r) :=
          dropLead?_parted (by decide) w r
        simp only [Option.map_some, Option.some.injEq]
        split
        · rw [line]
          cases dropLead? "\n".toList w <;> rfl
        · rfl
  cases t with
  | nil => exact direct []
  | cons c t =>
      have marked : (if c = '-' then (dropLead? tagStop (t ++ '\x7b' :: r)).map stripLeft
          else if c = '+' ∧ plus = true then dropLead? tagStop (t ++ '\x7b' :: r) else none) =
            (if c = '-' then (dropLead? tagStop t).map stripLeft
              else if c = '+' ∧ plus = true then dropLead? tagStop t else none).map
                (· ++ '\x7b' :: r) := by
        rw [stop t]
        split
        · cases dropLead? tagStop t with
          | none => rfl
          | some w => exact congrArg some (stripLeft_parted (by decide) w r)
        · split <;> rfl
      have whole := direct (c :: t)
      rw [List.cons_append] at whole
      rw [List.cons_append, closing?_cons, closing?_cons, marked, whole]
      generalize (if c = '-' then (dropLead? tagStop t).map stripLeft
        else if c = '+' ∧ plus = true then dropLead? tagStop t else none) = first
      cases first <;> rfl

theorem mark_plain {c : Char} (hyphen : c ≠ '-') (plus : c ≠ '+') (t : Text) :
    mark (c :: t) = (.plain, c :: t) := by
  unfold mark
  split
  · next e => exact absurd (List.cons.inj e).1 hyphen
  · next e => exact absurd (List.cons.inj e).1 plus
  · rfl

/-- A mark is read in the same way in front of a curly bracket. -/
theorem mark_parted (t r : Text) :
    mark (t ++ '\x7b' :: r) = ((mark t).1, (mark t).2 ++ '\x7b' :: r) := by
  cases t with
  | nil => rfl
  | cons c t =>
      by_cases hyphen : c = '-'
      · subst hyphen
        rfl
      by_cases plus : c = '+'
      · subst plus
        rfl
      rw [List.cons_append, mark_plain hyphen plus, mark_plain hyphen plus, List.cons_append]

/-- The tag that closes a raw stretch does not go past a curly bracket. -/
theorem rawEnd?_parted {d : Dialect} {c : Char} {t : Text} (h : rawEnd? d (c :: t) = none)
    (r : Text) : rawEnd? d (c :: (t ++ '\x7b' :: r)) = none := by
  by_cases hc : c = '\x7b'
  swap
  · have hd : dropLead? "\x7b%" (c :: (t ++ '\x7b' :: r)) = none :=
      dropLead?_cons_of_ne _ _ fun e => hc e.symm
    unfold rawEnd?
    rw [hd]
    rfl
  subst hc
  -- Each step of the reading goes on in the same way in front of the bracket.
  have lead : ∀ t : Text, dropLead? "\x7b%" ('\x7b' :: t) = dropLead? "%" t := fun t => by
    simp [dropLead?]
  have space : ∀ t : Text, stripLeft (t ++ '\x7b' :: r) = stripLeft t ++ '\x7b' :: r :=
    fun t => stripLeft_parted (by decide) t r
  have percent : ∀ t : Text, dropLead? "%" (t ++ '\x7b' :: r) =
      (dropLead? "%" t).map (· ++ '\x7b' :: r) := fun t => dropLead?_parted (by decide) t r
  have word : ∀ t : Text, dropLead? "endraw" (t ++ '\x7b' :: r) =
      (dropLead? "endraw" t).map (· ++ '\x7b' :: r) := fun t => dropLead?_parted (by decide) t r
  unfold rawEnd? at h ⊢
  rw [lead] at h ⊢
  rw [percent]
  cases h₁ : dropLead? "%" t with
  | none => rfl
  | some t₁ =>
      rw [h₁] at h
      simp only [Option.bind_eq_bind, Option.bind_some, Option.map_some, mark_parted, space,
        word] at h ⊢
      cases h₂ : dropLead? "endraw" (stripLeft (mark t₁).2) with
      | none => rfl
      | some t₂ =>
          rw [h₂] at h
          simp only [Option.bind_some, Option.map_some, space, closing?_parted] at h ⊢
          cases h₃ : closing? tagStop true d.trimBlocks (stripLeft t₂) with
          | none => rfl
          | some t₃ =>
              rw [h₃] at h
              cases h

/-! ### Open text -/

/-- The tokens behind an opening delimiter on a line. -/
def scanOpened (d : Dialect) (fuel line : Nat) (next : Cursor) : Opening → List Token
  | .raw => scan d fuel .raw next
  | .comment => scan d fuel .comment next
  | .tag => ⟨line, .tagOpen⟩ :: scan d fuel (.inside false []) next
  | .output => ⟨line, .outputOpen⟩ :: scan d fuel (.inside true []) next

theorem isEmpty_eq_false {t : Text} (h : t ≠ []) : t.isEmpty = false := by
  rw [Bool.eq_false_iff, Ne, List.isEmpty_iff]
  exact h

/-- Outside tags the reader takes the open text in front of the first delimiter. -/
theorem scan_outside {d : Dialect} {u r : Text} {o : Opening} {m : Mark} {n : Nat} (fuel : Nat)
    (c : Cursor) (hc : c.rest = u ++ r) (hr : r ≠ []) (ho : opening? d r = some ((o, m), n))
    (hq : ∀ a v, a :: v <:+ u → opening? d (a :: v ++ r) = none) :
    scan d (fuel + 1) .outside c =
      dataToken c.line (trimmedData d (o = .output) m c.lineStart u) ++
        scanOpened d fuel (c.advance u.length).line (c.advance (u.length + n)) o := by
  have hit := firstHit?_append ho hq
  have given := isEmpty_eq_false (List.append_ne_nil_of_right_ne_nil u hr)
  rw [scan.eq_def]
  simp only [hc, given, Bool.false_eq_true, if_false, hit, List.take_left]
  cases o <;> rfl

theorem rest_advance {c : Cursor} {u r : Text} (h : c.rest = u ++ r) :
    (c.advance u.length).rest = r := by
  unfold Cursor.advance
  simp only [h, List.drop_left]

/-- Open text alone is read as data. -/
theorem scan_open {d : Dialect} (hd : Usual d) {u : Text} (hu : Unopened u) :
    ∀ (fuel : Nat) (c : Cursor), c.rest = u → u.length < fuel →
      ∃ line, scan d fuel .outside c = dataToken c.line u ++ [⟨line, .eof⟩]
  | 0, c, _, hf => absurd hf (Nat.not_lt_zero _)
  | fuel + 1, c, hc, hf => by
      cases u with
      | nil => exact ⟨c.line, scan_nil d fuel .outside c hc⟩
      | cons b u =>
          have given : c.rest ≠ [] := hc ▸ List.cons_ne_nil b u
          have unopened : Text.firstHit? (opening? d) c.rest = none := hc ▸ hu.firstHit? hd
          obtain ⟨fuel, rfl⟩ : ∃ k, fuel = k + 1 :=
            Nat.exists_eq_succ_of_ne_zero (by rw [List.length_cons] at hf; omega)
          have read := scan_data fuel c given unopened
          rw [hc] at read
          exact ⟨_, read⟩

end Pagewright.Template
