import Mathlib.Data.Nat.Digits.Defs
import Pagewright.Digest.Sha256
import Pagewright.Text.Quoted

/-! # What a fingerprint tells apart

A fingerprint is a digest of the UTF-8 bytes of a text, written in hexadecimal digits.  Neither the
bytes (`utf8_injective`) nor the digits (`hexDigits_inj`) lose anything, so two texts have one
fingerprint only if their bytes have one digest (`Sha256.bytes_of_hexDigest_eq`). -/

namespace Pagewright.Text

/-! ### Bytes -/

/-- The first byte of a character tells how many bytes it has, and together they tell which one it
is. -/
theorem utf8Char_append_inj {c d : Char} {r s : List Nat}
    (h : utf8Char c ++ r = utf8Char d ++ s) : c = d ∧ r = s := by
  suffices hn : c.toNat = d.toNat by
    obtain rfl := Char.toNat_inj.mp hn
    exact ⟨rfl, List.append_cancel_left h⟩
  -- the first bytes of characters of different lengths lie in different ranges
  simp only [utf8Char] at h
  generalize c.toNat = n at h ⊢
  generalize d.toNat = m at h ⊢
  split_ifs at h <;>
    simp only [List.cons_append, List.nil_append, List.cons.injEq] at h <;> omega

theorem utf8Char_ne_nil (c : Char) : utf8Char c ≠ [] := by
  simp only [utf8Char]
  split_ifs <;> exact List.cons_ne_nil _ _

theorem utf8_injective : ∀ t u : Text, utf8 t = utf8 u → t = u
  | [], [], _ => rfl
  | [], d :: _, h => absurd (List.append_eq_nil_iff.mp h.symm).1 (utf8Char_ne_nil d)
  | c :: _, [], h => absurd (List.append_eq_nil_iff.mp h).1 (utf8Char_ne_nil c)
  | c :: t, d :: u, h => by
    obtain ⟨rfl, hr⟩ := utf8Char_append_inj h
    rw [utf8_injective t u hr]

/-! ### Digits -/

/-- The value of a hexadecimal digit. -/
def nibble (c : Char) : Nat := if c.toNat < 'a'.toNat then c.toNat - '0'.toNat else c.toNat - 87

theorem nibble_digitChar : ∀ d < 16, nibble d.digitChar = d := by decide

/-- The number that hexadecimal digits write. -/
def hexValue (t : Text) : Nat := t.foldl (fun n c => 16 * n + nibble c) 0

theorem hexValue_append_singleton (t : Text) (c : Char) :
    hexValue (t ++ [c]) = 16 * hexValue t + nibble c := by
  simp [hexValue]

theorem hexValue_toDigits (n : Nat) : hexValue (Nat.toDigits 16 n) = n := by
  induction n using Nat.strongRecOn with
  | ind n ih =>
    rw [Nat.toDigits_eq_if (by decide)]
    split
    · next hn => simp [hexValue, nibble_digitChar n hn]
    · next hn =>
      rw [hexValue_append_singleton, ih (n / 16) (by omega),
        nibble_digitChar _ (Nat.mod_lt n (by decide))]
      exact Nat.div_add_mod n 16

theorem hexValue_zeros (k : Nat) (t : Text) :
    hexValue (List.replicate k '0' ++ t) = hexValue t := by
  induction k with
  | zero => rfl
  | succ k ih => exact ih

theorem hexValue_hexDigits (width n : Nat) : hexValue (hexDigits width n) = n := by
  rw [hexDigits, hexValue_zeros, hexValue_toDigits]

/-- Digits in front of which zeros were put still tell the number. -/
theorem hexDigits_inj {width n m : Nat} (h : hexDigits width n = hexDigits width m) : n = m := by
  rw [← hexValue_hexDigits width n, h, hexValue_hexDigits]

theorem length_hexDigits {width n : Nat} (hw : 0 < width) (hn : n < 16 ^ width) :
    (hexDigits width n).length = width := by
  have hle := (Nat.length_toDigits_le_iff (by decide) hw).mpr hn
  simp only [hexDigits, List.length_append, List.length_replicate]
  omega

end Pagewright.Text

namespace Pagewright.Sha256

/-- The words of a state in their order. -/
def State.words (s : State) : List UInt32 := [s.a, s.b, s.c, s.d, s.e, s.f, s.g, s.h]

/-- Words written one behind the other, eight digits each, can be read again. -/
theorem words_inj : ∀ ws vs : List UInt32, ws.length = vs.length →
    ws.flatMap (fun w => Text.hexDigits 8 w.toNat) =
      vs.flatMap (fun w => Text.hexDigits 8 w.toNat) → ws = vs
  | [], [], _, _ => rfl
  | w :: ws, v :: vs, hl, h => by
    have length (x : UInt32) : (Text.hexDigits 8 x.toNat).length = 8 :=
      Text.length_hexDigits (by decide) x.toNat_lt
    obtain ⟨hd, hr⟩ := List.append_inj h ((length w).trans (length v).symm)
    rw [UInt32.toNat_inj.mp (Text.hexDigits_inj hd), words_inj ws vs (Nat.succ.inj hl) hr]

/-- Texts with one fingerprint have bytes with one digest. -/
theorem digest_of_hexDigest_eq {t u : Text} (h : hexDigest t = hexDigest u) :
    digest (Text.utf8 t) = digest (Text.utf8 u) := by
  have hw : (digest (Text.utf8 t)).words = (digest (Text.utf8 u)).words := words_inj _ _ rfl h
  generalize digest (Text.utf8 t) = s at hw ⊢
  generalize digest (Text.utf8 u) = r at hw ⊢
  cases s
  cases r
  simpa [State.words] using hw

end Pagewright.Sha256
