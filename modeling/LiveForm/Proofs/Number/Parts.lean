import LiveForm.Number.Binary
import Mathlib.Data.BitVec
import Mathlib.Tactic.NormNum

/-! # What a double stands for

The logic takes a double apart into a sign, a mantissa and an exponent, and so do the arithmetic and
the texts of this library; the two agree. Mantissas are canonical: only the smallest exponent has
mantissas that begin further down, so of two doubles with different exponents the one with the greater
exponent is farther from zero. -/

namespace LiveForm.Binary

open Float.Model (UnpackedFloat)
open Float.Model.UnpackedFloat (Sign unpack unpackMantissa unpackExponent unpackSign)

def isNegative : Sign → Bool
  | .negative => true
  | .positive => false

/-- The parts of a double that the logic has taken apart. -/
def partsOf : UnpackedFloat → Parts
  | .notANumber => .notNumber
  | .infinity s => .infinite (isNegative s)
  | .zero s => .finite (isNegative s) 0 (-1074)
  | .finite s m e _ => .finite (isNegative s) m e

theorem isNegative_ofBitVec (v : BitVec 1) :
    isNegative (Sign.ofBitVec v) = decide (v.toNat = 1) := by
  revert v
  decide

/-- A mantissa with the leading bit that is not stored. -/
theorem toNat_leading_append (m : BitVec 52) : (1#1 ++ m).toNat = m.toNat + 2 ^ 52 := by
  rw [BitVec.toNat_append, ← Nat.shiftLeft_add_eq_or_of_lt m.isLt, Nat.add_comm]
  rfl

/-- The parts of a double with their powers of two written out. -/
theorem parts_eq_ite (x : Float) : parts x =
    if x.toBits.toNat / 2 ^ 52 % 2048 = 2047 then
      if x.toBits.toNat % 2 ^ 52 = 0 then .infinite (decide (2 ^ 63 ≤ x.toBits.toNat))
      else .notNumber
    else if x.toBits.toNat / 2 ^ 52 % 2048 = 0 then
      .finite (decide (2 ^ 63 ≤ x.toBits.toNat)) (x.toBits.toNat % 2 ^ 52) (-1074)
    else .finite (decide (2 ^ 63 ≤ x.toBits.toNat)) (x.toBits.toNat % 2 ^ 52 + 2 ^ 52)
      (((x.toBits.toNat / 2 ^ 52 % 2048 : Nat) : Int) - 1075) := rfl

/-- What the logic takes a pattern of bits apart into. -/
theorem partsOf_unpack (b : BitVec 64) : partsOf (unpack .binary64 b) =
    if b.toNat / 2 ^ 52 % 2048 = 2047 then
      if b.toNat % 2 ^ 52 = 0 then .infinite (decide (2 ^ 63 ≤ b.toNat)) else .notNumber
    else if b.toNat / 2 ^ 52 % 2048 = 0 then
      .finite (decide (2 ^ 63 ≤ b.toNat)) (b.toNat % 2 ^ 52) (-1074)
    else .finite (decide (2 ^ 63 ≤ b.toNat)) (b.toNat % 2 ^ 52 + 2 ^ 52)
      (((b.toNat / 2 ^ 52 % 2048 : Nat) : Int) - 1075) := by
  have hm : (@unpackMantissa .binary64 b).toNat = b.toNat % 2 ^ 52 := by
    simp [unpackMantissa]
  have he : (@unpackExponent .binary64 b).toNat = b.toNat / 2 ^ 52 % 2048 := by
    simp [unpackExponent, Nat.shiftRight_eq_div_pow]
  have hs : isNegative (Sign.ofBitVec (@unpackSign .binary64 b)) =
      decide (2 ^ 63 ≤ b.toNat) := by
    have hlt : b.toNat < 2 ^ 64 := b.isLt
    have hs : (@unpackSign .binary64 b).toNat = b.toNat / 2 ^ 63 % 2 := by
      show (BitVec.cast _ (BitVec.extractLsb 63 63 b)).toNat = _
      simp [Nat.shiftRight_eq_div_pow]
    rw [isNegative_ofBitVec, hs, decide_eq_decide]
    omega
  have hfull : @unpackExponent .binary64 b = -1#11 ↔
      (@unpackExponent .binary64 b).toNat = 2047 := by
    rw [← BitVec.toNat_inj]
    rfl
  have hnone : @unpackExponent .binary64 b = 0#11 ↔
      (@unpackExponent .binary64 b).toNat = 0 := by
    rw [← BitVec.toNat_inj]
    rfl
  have hwhole : @unpackMantissa .binary64 b = 0#52 ↔
      (@unpackMantissa .binary64 b).toNat = 0 := by
    rw [← BitVec.toNat_inj]
    rfl
  rw [← hm, ← he, ← hs]
  simp only [← hfull, ← hnone, ← hwhole]
  unfold unpack
  by_cases hf : @unpackExponent .binary64 b = -1#11
  · rw [if_pos hf, if_pos hf]
    split <;> rfl
  · rw [if_neg hf, if_neg hf]
    by_cases h0 : @unpackExponent .binary64 b = 0#11
    · rw [if_pos h0, if_pos h0]
      by_cases hz : @unpackMantissa .binary64 b = 0#52
      · rw [dif_pos hz, hz]
        rfl
      · rw [dif_neg hz, h0]
        rfl
    · rw [if_neg h0, if_neg h0, ← toNat_leading_append]
      rfl

/-- **The parts of a double are those that the logic takes it apart into.** -/
theorem parts_eq (x : Float) : parts x = partsOf x.toModel.unpack :=
  (parts_eq_ite x).trans (partsOf_unpack x.toBits.toBitVec).symm

variable {x : Float} {negative : Bool}

theorem isNaN_iff : x.isNaN = true ↔ parts x = .notNumber := by
  show x.toModel.unpack.isNaN = true ↔ _
  rw [parts_eq]
  cases x.toModel.unpack with
  | notANumber => exact iff_of_true rfl rfl
  | _ => exact iff_of_false Bool.false_ne_true nofun

theorem not_isNaN (h : parts x ≠ .notNumber) : ¬x.isNaN = true := isNaN_iff.not.mpr h

theorem isInf_iff : x.isInf = true ↔ ∃ negative, parts x = .infinite negative := by
  show x.toModel.unpack.isInf = true ↔ _
  rw [parts_eq]
  cases x.toModel.unpack with
  | infinity s => exact iff_of_true rfl ⟨_, rfl⟩
  | _ => exact iff_of_false Bool.false_ne_true fun ⟨_, h⟩ => nomatch h

theorem infinite_lt_zero (h : parts x = .infinite negative) : x < 0 ↔ negative = true := by
  show decide (x.toModel.unpack.compare (.zero .positive) == some .lt) = true ↔ _
  rw [parts_eq] at h
  cases hu : x.toModel.unpack with
  | infinity s =>
    rw [hu] at h
    obtain rfl : isNegative s = negative := Parts.infinite.inj h
    cases s <;> decide
  | _ =>
    rw [hu] at h
    cases h

/-- Mantissas have 53 bits, all of them in use unless the exponent is the smallest. -/
def Canonical : Parts → Prop
  | .finite _ m e => m < 2 ^ 53 ∧ -1074 ≤ e ∧ (2 ^ 52 ≤ m ∨ e = -1074)
  | _ => True

theorem canonical_parts (x : Float) : Canonical (parts x) := by
  have hlt : x.toBits.toNat % 2 ^ 52 < 2 ^ 52 := Nat.mod_lt _ (by decide)
  rw [parts_eq_ite]
  split
  · split <;> trivial
  · split
    · exact ⟨by omega, by omega, .inr rfl⟩
    · exact ⟨by omega, by omega, .inl (by omega)⟩

end LiveForm.Binary
