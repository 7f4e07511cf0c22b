import Mathlib
import Pagewright.Number.Binary

/-! # Comparing doubles

`decode` reads a double off its bits, while the comparisons of doubles go through the datum that the
bits stand for.  Both see the same number (`decode_eq`), so what the comparison with zero says can be
told from the sign and the mantissa (`le_zero_iff`), and two doubles are equal exactly if they have the
same exact value (`beq_iff`).  What is not a number has none, and is equal to nothing.

Main definitions: `Binary.ofDatum`, `Amount`, `Binary.amount?`. -/

namespace Pagewright.Number

open Float.Model UnpackedFloat

/-- Whether a sign is minus. -/
def isMinus : Sign → Bool
  | .positive => false
  | .negative => true

/-- What a datum stands for. -/
def Binary.ofDatum : UnpackedFloat → Binary
  | .infinity s => .infinite (isMinus s)
  | .notANumber => .notANumber
  | .zero s => .finite (isMinus s) 0 (-1074)
  | .finite s m e _ => .finite (isMinus s) m e

/-! ### The fields of a bit pattern -/

variable (b : BitVec Format.binary64.numBits)

theorem toNat_mantissa : (unpackMantissa b).toNat = b.toNat % 0x10000000000000 := by
  simp [unpackMantissa, BitVec.extractLsb, BitVec.extractLsb'_toNat]

theorem toNat_exponent : (unpackExponent b).toNat = b.toNat / 0x10000000000000 % 2048 := by
  simp [unpackExponent, BitVec.extractLsb, BitVec.extractLsb'_toNat, Nat.shiftRight_eq_div_pow]

theorem toNat_sign : (unpackSign b).toNat = b.toNat / 0x8000000000000000 % 2 := by
  simp [unpackSign, BitVec.extractLsb, BitVec.extractLsb'_toNat, Nat.shiftRight_eq_div_pow]

theorem isMinus_sign :
    isMinus (Sign.ofBitVec (unpackSign b)) = decide (0x8000000000000000 ≤ b.toNat) := by
  have small : b.toNat < 2 ^ 64 := b.isLt
  have sign := toNat_sign b
  rw [Sign.ofBitVec]
  split
  case isTrue zero =>
    rw [zero] at sign
    have : b.toNat / 0x8000000000000000 % 2 = 0 := sign.symm
    exact (decide_eq_false (by omega)).symm
  case isFalse one =>
    have : (unpackSign b).toNat ≠ 0 := fun h => one (BitVec.eq_of_toNat_eq h)
    exact (decide_eq_true (by omega)).symm

/-- The mantissa of a normal number has a one in front of its bits. -/
theorem toNat_one_append (m : BitVec 52) : (1#1 ++ m).toNat = m.toNat + 0x10000000000000 := by
  rw [BitVec.toNat_append, ← Nat.shiftLeft_add_eq_or_of_lt m.isLt]
  simp [Nat.shiftLeft_eq, Nat.add_comm]

/-! ### The datum of a double -/

/-- The datum of a bit pattern, by the fields of the pattern. -/
theorem ofDatum_unpack :
    Binary.ofDatum (unpack .binary64 b) =
      if b.toNat / 0x10000000000000 % 2048 = 2047 then
        if b.toNat % 0x10000000000000 = 0 then
          .infinite (decide (0x8000000000000000 ≤ b.toNat))
        else .notANumber
      else if b.toNat / 0x10000000000000 % 2048 = 0 then
        .finite (decide (0x8000000000000000 ≤ b.toNat)) (b.toNat % 0x10000000000000) (-1074)
      else
        .finite (decide (0x8000000000000000 ≤ b.toNat)) (b.toNat % 0x10000000000000 + 0x10000000000000)
          (((b.toNat / 0x10000000000000 % 2048 : Nat) : Int) - 1075) := by
  rw [← isMinus_sign, ← toNat_mantissa, ← toNat_exponent]
  unfold UnpackedFloat.unpack
  dsimp only
  split
  case isTrue top =>
    have top : (unpackExponent b).toNat = 2047 := congrArg BitVec.toNat top
    rw [if_pos top]
    split
    case isTrue none =>
      have none : (unpackMantissa b).toNat = 0 := congrArg BitVec.toNat none
      rw [if_pos none]
      rfl
    case isFalse some =>
      have some : (unpackMantissa b).toNat ≠ 0 := fun h => some (BitVec.eq_of_toNat_eq h)
      rw [if_neg some]
      rfl
  case isFalse low =>
    have low : (unpackExponent b).toNat ≠ 2047 := fun h => low (BitVec.eq_of_toNat_eq h)
    rw [if_neg low]
    split
    case isTrue least =>
      have least : (unpackExponent b).toNat = 0 := congrArg BitVec.toNat least
      rw [if_pos least]
      split
      case isTrue none =>
        have none : (unpackMantissa b).toNat = 0 := congrArg BitVec.toNat none
        rw [none]
        rfl
      case isFalse =>
        rw [least]
        rfl
    case isFalse above =>
      have above : (unpackExponent b).toNat ≠ 0 := fun h => above (BitVec.eq_of_toNat_eq h)
      rw [if_neg above, ← toNat_one_append]
      rfl

/-- The value read off the bits of a double is that of its datum. -/
theorem decode_eq (x : Float) : decode x = .ofDatum x.toModel.unpack :=
  (ofDatum_unpack x.toModel.toBits.toBitVec).symm

/-- A double is at most zero if it is a zero or has a minus sign; what is not a number is not. -/
theorem le_zero_iff (x : Float) :
    x ≤ 0.0 ↔ decode x = .infinite true ∨
      ∃ negative m e, decode x = .finite negative m e ∧ (negative = true ∨ m = 0) := by
  have zero : (0.0 : Float).toModel.unpack = .zero .positive := rfl
  have le : x ≤ 0.0 ↔ x.toModel.unpack.le (.zero .positive) = true := by
    rw [← zero]
    exact decide_eq_true_iff
  rw [le, decode_eq, UnpackedFloat.le]
  cases x.toModel.unpack with
  | infinity s => cases s <;> simp [UnpackedFloat.compare, Binary.ofDatum, isMinus]
  | notANumber => simp [UnpackedFloat.compare, Binary.ofDatum]
  | zero s => simp [UnpackedFloat.compare, Binary.ofDatum]
  | finite s m e h =>
    have : m ≠ 0 := Nat.ne_of_gt h
    cases s <;> simp [UnpackedFloat.compare, Binary.ofDatum, isMinus, this]

/-! ### Dyadic fractions -/

theorem dyadic_den_ne_zero (m : Nat) (e : Int) : (dyadic m e).2 ≠ 0 := by
  rw [dyadic]
  split
  · exact Nat.one_ne_zero
  · exact Nat.ne_of_gt (Nat.two_pow_pos _)

theorem dyadic_num_eq_zero_iff (m : Nat) (e : Int) : (dyadic m e).1 = 0 ↔ m = 0 := by
  rw [dyadic]
  split
  · have : Nat.pow 2 e.toNat ≠ 0 := Nat.ne_of_gt (Nat.two_pow_pos _)
    rw [Nat.mul_eq_zero, or_iff_left this]
  · exact Iff.rfl

theorem dyadic_eq (m : Nat) (e : Int) :
    ((dyadic m e).1 : ℚ) = m * 2 ^ e * ((dyadic m e).2 : ℚ) := by
  rw [dyadic]
  split
  · next h =>
    obtain ⟨n, rfl⟩ := Int.eq_ofNat_of_zero_le h
    simp
  · next h =>
    obtain ⟨n, hn⟩ := Int.eq_ofNat_of_zero_le (show 0 ≤ -e by omega)
    obtain rfl : e = -n := by omega
    have power : ((2 : ℚ) ^ n) ≠ 0 := by positivity
    simp [power]

/-! ### Exact values -/

/-- The exact value of a number: a fraction, or one of the two infinities. -/
inductive Amount where
  | finite (q : ℚ)
  | infinite (negative : Bool)
  deriving DecidableEq

/-- The exact value of what a double stands for, if it is a number. -/
def Binary.amount? : Binary → Option Amount
  | .finite negative m e => some (.finite ((if negative then -1 else 1) * (m * 2 ^ e)))
  | .infinite negative => some (.infinite negative)
  | .notANumber => none

/-- The mantissas and exponents that belong to doubles: a mantissa has 53 digits unless the exponent is
the least one. -/
def Binary.Fits : Binary → Prop
  | .finite _ m e => m < 2 ^ 53 ∧ -1074 ≤ e ∧ (-1074 < e → 2 ^ 52 ≤ m)
  | _ => True

theorem fits_decode (x : Float) : (decode x).Fits := by
  unfold decode
  dsimp only
  split
  · split <;> trivial
  · split
    · exact ⟨by omega, by omega, by omega⟩
    · exact ⟨by omega, by omega, fun _ => by omega⟩

/-- A double in normal form has no larger exponent than any other way to write the same size. -/
theorem le_of_scaled_eq {m n : Nat} {e f : Int} (hm : m < 2 ^ 53) (he : -1074 ≤ e)
    (hn : -1074 < f → 2 ^ 52 ≤ n) (h : (m * 2 ^ e : ℚ) = n * 2 ^ f) : f ≤ e := by
  by_contra less
  obtain ⟨k, hk⟩ := Int.eq_ofNat_of_zero_le (show 0 ≤ f - e by omega)
  obtain rfl : f = e + k := by omega
  have scaled : (m : ℚ) = n * 2 ^ k := by
    have power : ((2 : ℚ) ^ e) ≠ 0 := by positivity
    rw [zpow_add₀ two_ne_zero, zpow_natCast, mul_comm ((2 : ℚ) ^ e), ← mul_assoc] at h
    exact mul_right_cancel₀ power h
  have exact : m = n * 2 ^ k := by exact_mod_cast scaled
  have large : 2 ^ 52 ≤ n := hn (by omega)
  have double : 2 ≤ 2 ^ k := by
    have some_ : k ≠ 0 := by omega
    exact Nat.le_self_pow some_ 2
  have : 2 ^ 52 * 2 ≤ n * 2 ^ k := Nat.mul_le_mul large double
  omega

/-- Doubles of the same size are written with the same mantissa and exponent. -/
theorem scaled_inj {s t : Bool} {m n : Nat} {e f : Int} (hm : (Binary.finite s m e).Fits)
    (hn : (Binary.finite t n f).Fits) (h : (m * 2 ^ e : ℚ) = n * 2 ^ f) : m = n ∧ e = f := by
  have exponents : e = f := le_antisymm
    (le_of_scaled_eq hn.1 hn.2.1 hm.2.2 h.symm) (le_of_scaled_eq hm.1 hm.2.1 hn.2.2 h)
  subst exponents
  have power : ((2 : ℚ) ^ e) ≠ 0 := by positivity
  exact ⟨by exact_mod_cast mul_right_cancel₀ power h, rfl⟩

/-- Two data are equal if they are the same infinity, two zeros, or have all parts in common. -/
theorem beq_datum_iff (a b : UnpackedFloat) : a.beq b = true ↔
    (∃ s, a = .infinity s ∧ b = .infinity s) ∨ (∃ s t, a = .zero s ∧ b = .zero t) ∨
      ∃ s m e h, a = .finite s m e h ∧ b = .finite s m e h := by
  rw [UnpackedFloat.beq, beq_iff_eq]
  cases a with
  | notANumber => simp [UnpackedFloat.compare]
  | infinity s =>
    cases b with
    | infinity t => cases s <;> cases t <;> simp [UnpackedFloat.compare, compare]
    | _ => cases s <;> simp [UnpackedFloat.compare]
  | zero s =>
    cases b with
    | notANumber => simp [UnpackedFloat.compare]
    | zero t => simp [UnpackedFloat.compare]
    | infinity t => cases t <;> simp [UnpackedFloat.compare]
    | finite t m e h => cases t <;> simp [UnpackedFloat.compare]
  | finite s m e h =>
    cases b with
    | notANumber => simp [UnpackedFloat.compare]
    | zero t => cases s <;> simp [UnpackedFloat.compare]
    | infinity t => cases s <;> cases t <;> simp [UnpackedFloat.compare]
    | finite t n f h' =>
      have parts : (compare e f).then (compare m n) = .eq ↔ n = m ∧ f = e := by
        rw [Ordering.then_eq_eq, Int.compare_eq_eq, Nat.compare_eq_eq, and_comm, eq_comm, @eq_comm _ e]
      have swapped : ((compare e f).then (compare m n)).swap = .eq ↔ n = m ∧ f = e := by
        rw [Ordering.swap_eq_iff_eq_swap]
        exact parts
      cases s with
      | positive => cases t <;> simp [UnpackedFloat.compare, parts, h]
      | negative => cases t <;> simp [UnpackedFloat.compare, swapped, h]

theorem isMinus_inj : ∀ {s t : Sign}, isMinus s = isMinus t → s = t
  | .positive, .positive, _ => rfl
  | .negative, .negative, _ => rfl

theorem amount?_zero (s : Sign) : (Binary.ofDatum (.zero s)).amount? = some (.finite 0) := by
  simp [Binary.ofDatum, Binary.amount?]

theorem size_pos {m : Nat} {e : Int} (h : 0 < m) : (0 : ℚ) < m * 2 ^ e := by positivity

/-- **Two doubles are equal exactly if they have the same exact value.** -/
theorem beq_iff (x y : Float) : (x == y) = true ↔
    ∃ a, (decode x).amount? = some a ∧ (decode y).amount? = some a := by
  have fits (x : Float) : (Binary.ofDatum x.toModel.unpack).Fits := decode_eq x ▸ fits_decode x
  have hx := fits x
  have hy := fits y
  have datum : (x == y) = x.toModel.unpack.beq y.toModel.unpack := rfl
  rw [datum, decode_eq, decode_eq, beq_datum_iff]
  generalize x.toModel.unpack = a at hx ⊢
  generalize y.toModel.unpack = b at hy ⊢
  constructor
  · rintro (⟨s, rfl, rfl⟩ | ⟨s, t, rfl, rfl⟩ | ⟨s, m, e, h, rfl, rfl⟩)
    · exact ⟨_, rfl, rfl⟩
    · exact ⟨_, amount?_zero s, amount?_zero t⟩
    · exact ⟨_, rfl, rfl⟩
  · rintro ⟨v, ha, hb⟩
    cases a with
    | notANumber => cases ha
    | infinity s =>
      cases ha
      cases b with
      | infinity t =>
        obtain rfl : t = s := isMinus_inj (by injection Option.some.inj hb)
        exact Or.inl ⟨t, rfl, rfl⟩
      | notANumber => cases hb
      | zero t => cases hb
      | finite t n f h => cases hb
    | zero s =>
      rw [amount?_zero] at ha
      cases ha
      cases b with
      | zero t => exact Or.inr (Or.inl ⟨s, t, rfl, rfl⟩)
      | notANumber => cases hb
      | infinity t => cases hb
      | finite t n f h =>
        have size := size_pos (e := f) h
        injection Option.some.inj hb with value
        split at value <;> linarith
    | finite s m e h =>
      cases ha
      have size := size_pos (e := e) h
      cases b with
      | notANumber => cases hb
      | infinity t => cases hb
      | zero t =>
        rw [amount?_zero] at hb
        injection Option.some.inj hb with value
        split at value <;> linarith
      | finite t n f h' =>
        have size' := size_pos (e := f) h'
        injection Option.some.inj hb with value
        have signs : isMinus t = isMinus s := by
          by_contra differ
          cases s <;> cases t <;> simp [isMinus] at value differ <;> linarith
        rw [signs] at value
        have sizes : (n * 2 ^ f : ℚ) = m * 2 ^ e := by
          split at value <;> linarith
        obtain ⟨rfl, rfl⟩ := scaled_inj hy hx sizes
        obtain rfl := isMinus_inj signs
        exact Or.inr (Or.inr ⟨t, n, f, h, rfl, rfl⟩)

/-- A double is equal to an integer exactly if the integer is its exact value. -/
theorem compareInt_eq_iff (x : Float) (n : Int) :
    compareInt x n = some .eq ↔ (decode x).amount? = some (.finite n) := by
  unfold compareInt
  cases decode x with
  | notANumber => exact ⟨nofun, nofun⟩
  | infinite s => cases s <;> exact ⟨nofun, nofun⟩
  | finite s m e =>
    have den : ((dyadic m e).2 : ℚ) ≠ 0 := by exact_mod_cast dyadic_den_ne_zero m e
    have num := dyadic_eq m e
    simp only [Option.some.injEq, Int.compare_eq_eq, Binary.amount?, Amount.finite.injEq]
    generalize (dyadic m e).1 = p at num
    generalize (dyadic m e).2 = d at den num
    have cross : (if s then -(p : Int) else (p : Int)) = n * d ↔
        (if s then -(p : ℚ) else (p : ℚ)) = n * d := by
      cases s <;> norm_cast
    have scaled : (if s then -(m * 2 ^ e * d : ℚ) else m * 2 ^ e * d) =
        (if s then -1 else 1) * (m * 2 ^ e) * d := by
      cases s <;> simp
    rw [cross, num, scaled]
    exact mul_left_inj' den

end Pagewright.Number
