import LiveForm.Proofs.Number.Exact

/-! # Doubles that are put together again

A sign, a canonical mantissa and an exponent in range are packed without loss, so a sum of doubles and a
pattern of bits stand for what the logic has packed. -/

namespace LiveForm.Binary

open Extended
open Float.Model (UnpackedFloat)
open Float.Model.UnpackedFloat (Sign unpack pack packComponents)

variable {s : Sign} {negative : Bool} {m : Nat} {e : Int}

def signBits (s : Sign) : Nat := if isNegative s then 2 ^ 63 else 0

theorem toNat_packComponents (s : Sign) (e : BitVec 11) (m : BitVec 52) :
    (packComponents .binary64 s e m).toNat = signBits s + (e.toNat * 2 ^ 52 + m.toNat) := by
  have he := e.isLt
  have hm := m.isLt
  show ((s.toBitVec ++ e) ++ m).toNat = _
  rw [BitVec.toNat_append, ← Nat.shiftLeft_add_eq_or_of_lt hm, BitVec.toNat_append,
    ← Nat.shiftLeft_add_eq_or_of_lt he, Nat.shiftLeft_eq, Nat.shiftLeft_eq]
  cases s
  · show (1 * 2 ^ 11 + e.toNat) * 2 ^ 52 + m.toNat = 2 ^ 63 + _
    omega
  · show (0 * 2 ^ 11 + e.toNat) * 2 ^ 52 + m.toNat = 0 + _
    omega

theorem decide_signBits_le (s : Sign) {n : Nat} (hn : n < 2 ^ 63) :
    decide (2 ^ 63 ≤ signBits s + n) = isNegative s := by
  cases s
  · exact decide_eq_true (Nat.le_add_right _ _)
  · exact decide_eq_false (by simpa [signBits, isNegative] using hn)

/-- What a pattern of a sign, an exponent and a mantissa stands for. -/
theorem partsOf_unpack_components (s : Sign) {n : Nat} (hn : n < 2 ^ 63) {b : BitVec 64}
    (hb : b.toNat = signBits s + n) : partsOf (unpack .binary64 b) =
    if n / 2 ^ 52 = 2047 then
      if n % 2 ^ 52 = 0 then .infinite (isNegative s) else .notNumber
    else if n / 2 ^ 52 = 0 then .finite (isNegative s) (n % 2 ^ 52) (-1074)
    else .finite (isNegative s) (n % 2 ^ 52 + 2 ^ 52) (((n / 2 ^ 52 : Nat) : Int) - 1075) := by
  have hfield : b.toNat / 2 ^ 52 % 2048 = n / 2 ^ 52 := by
    rw [hb]
    unfold signBits
    split <;> omega
  have hfraction : b.toNat % 2 ^ 52 = n % 2 ^ 52 := by
    rw [hb]
    unfold signBits
    split <;> omega
  rw [partsOf_unpack, hfield, hfraction, hb, decide_signBits_le s hn]

theorem partsOf_pack_zero (s : Sign) :
    partsOf (unpack .binary64 (pack .binary64 (.zero s))) = .finite (isNegative s) 0 (-1074) := by
  have hbits : (packComponents .binary64 s (0#11) (0#52)).toNat = signBits s + 0 :=
    toNat_packComponents s 0 0
  have hpack : pack .binary64 (.zero s) = packComponents .binary64 s (0#11) (0#52) := rfl
  rw [hpack, partsOf_unpack_components s (by decide) hbits, if_neg (by decide), if_pos (by decide),
    Nat.zero_mod]

theorem partsOf_pack_finite (hm : 0 < m) (hc : Canonical (.finite (isNegative s) m e))
    (he : e ≤ 971) :
    partsOf (unpack .binary64 (pack .binary64 (.finite s m e hm))) = .finite (isNegative s) m e := by
  obtain ⟨hlt, hle, hlead⟩ := hc
  have hfit : ¬2 ^ 11 ≤ (e + (1023 : Nat) + (52 : Nat)).toNat + 1 := by omega
  by_cases hfull : 2 ^ 52 ≤ m
  · have hlog : m.log2 + 1 = 53 := by
      have h := (Nat.log2_eq_iff hm.ne').mpr ⟨hfull, hlt⟩
      omega
    have hpack : pack .binary64 (.finite s m e hm) = packComponents .binary64 s
        (BitVec.ofNat 11 (e + (1023 : Nat) + (52 : Nat)).toNat) (BitVec.ofNat 52 m) :=
      (if_neg hfit).trans (if_pos hlog)
    have hbits := toNat_packComponents s (BitVec.ofNat 11 (e + (1023 : Nat) + (52 : Nat)).toNat)
      (BitVec.ofNat 52 m)
    rw [BitVec.toNat_ofNat, BitVec.toNat_ofNat] at hbits
    rw [hpack, partsOf_unpack_components s (by omega) hbits, if_neg (by omega), if_neg (by omega)]
    congr 1 <;> omega
  · obtain rfl := hlead.resolve_left hfull
    have hlog : ¬m.log2 + 1 = 53 := by
      have h := (Nat.log2_lt hm.ne').mpr (Nat.lt_of_not_le hfull)
      omega
    have hpack : pack .binary64 (.finite s m (-1074) hm) =
        packComponents .binary64 s (0#11) (BitVec.ofNat 52 m) := by
      unfold pack
      exact (if_neg hfit).trans (if_neg hlog)
    have hbits := toNat_packComponents s (0#11) (BitVec.ofNat 52 m)
    rw [BitVec.toNat_ofNat, BitVec.toNat_ofNat] at hbits
    rw [hpack, partsOf_unpack_components s (by omega) hbits, if_neg (by omega), if_pos (by omega)]
    congr 1
    omega

/-- The parts of a finite double: its mantissa is canonical and its exponent is no greater than that of
the largest one. -/
def Storable : Parts → Prop
  | .finite negative m e => Canonical (.finite negative m e) ∧ e ≤ 971
  | _ => False

theorem storable_of_parts {x : Float} (h : parts x = .finite negative m e) :
    Storable (.finite negative m e) := by
  have hcanonical := canonical_parts x
  rw [h] at hcanonical
  refine ⟨hcanonical, ?_⟩
  rw [parts_eq_ite] at h
  split at h
  · split at h <;> cases h
  · split at h
    · obtain ⟨-, -, rfl⟩ := Parts.finite.inj h
      decide
    · obtain ⟨-, -, rfl⟩ := Parts.finite.inj h
      omega

/-- The parts of a finite double are packed without loss. -/
theorem partsOf_pack {f : UnpackedFloat} (h : Storable (partsOf f)) :
    partsOf (unpack .binary64 (pack .binary64 f)) = partsOf f := by
  cases f with
  | notANumber => exact absurd h id
  | infinity s => exact absurd h id
  | zero s => exact partsOf_pack_zero s
  | finite s m e hm => exact partsOf_pack_finite hm h.1 h.2

theorem parts_ofBits {b : UInt64} (h : Storable (partsOf (unpack .binary64 b.toBitVec))) :
    parts (Float.ofBits b) = partsOf (unpack .binary64 b.toBitVec) :=
  (parts_eq _).trans (partsOf_pack h)

/-- The bits of a double with the given sign stand for the parts that they were made of. -/
theorem parts_ofBits_signed {n : Nat} {p : Parts} (hn : n < 2 ^ 63) (hp : Storable p)
    (h : ∀ (s : Sign) (b : BitVec 64), isNegative s = negative → b.toNat = signBits s + n →
      partsOf (unpack .binary64 b) = p) :
    parts (Float.ofBits (UInt64.ofNat (if negative then n + twoTo 63 else n))) = p := by
  have htoNat (k : Nat) : (UInt64.ofNat k).toBitVec.toNat = k % 2 ^ 64 := UInt64.toNat_ofNat'
  have hunpack : partsOf (unpack .binary64
      (UInt64.ofNat (if negative then n + twoTo 63 else n)).toBitVec) = p := by
    cases negative
    · refine h .positive _ rfl ?_
      rw [htoNat, if_neg Bool.false_ne_true, Nat.mod_eq_of_lt (by omega)]
      exact (Nat.zero_add n).symm
    · refine h .negative _ rfl ?_
      have hpow : twoTo 63 = 2 ^ 63 := by decide
      rw [htoNat, if_pos rfl, hpow, Nat.mod_eq_of_lt (by omega)]
      exact Nat.add_comm _ _
  rw [parts_ofBits (hunpack ▸ hp), hunpack]

theorem parts_add {x y : Float}
    (h : Storable (partsOf (UnpackedFloat.add .binary64 x.toModel.unpack y.toModel.unpack))) :
    parts (x + y) = partsOf (UnpackedFloat.add .binary64 x.toModel.unpack y.toModel.unpack) :=
  (parts_eq _).trans (partsOf_pack h)

/-! ## Mantissas that were rounded -/

/-- Whether rounding has made a mantissa of 53 bits into the next power of two. -/
def carry (m : Nat) : Nat := if m = 2 ^ 53 then 1 else 0

theorem carry_le (m : Nat) : carry m ≤ 1 := by
  unfold carry
  split <;> decide

/-- A mantissa that was rounded up to the next power of two has one bit too many, and is halved. -/
def carried (negative : Bool) (m : Nat) (e : Int) : Parts :=
  if m = 2 ^ 53 then .finite negative (2 ^ 52) (e + 1) else .finite negative m e

theorem value?_carried (negative : Bool) (m : Nat) (e : Int) :
    (carried negative m e).value? = some (ofRat (signed negative m * 2 ^ e)) := by
  unfold carried
  split
  · rename_i hm
    have hhalf : (signed negative (2 ^ 53) : ℚ) * 2 ^ e = signed negative (2 ^ 52) * 2 ^ (e + 1) := by
      rw [zpow_add_one₀ (by norm_num)]
      cases negative
      · show ((2 ^ 53 : Nat) : Int) * (2 : ℚ) ^ e = ((2 ^ 52 : Nat) : Int) * _
        push_cast
        ring
      · show ((-(2 ^ 53 : Nat) : Int) : ℚ) * 2 ^ e = (-(2 ^ 52 : Nat) : Int) * _
        push_cast
        ring
    rw [hm, hhalf]
    rfl
  · rfl

theorem storable_carried (negative : Bool) (h₁ : 2 ^ 52 ≤ m) (h₂ : m ≤ 2 ^ 53) (h₃ : -1074 ≤ e)
    (h₄ : e + carry m ≤ 971) : Storable (carried negative m e) := by
  unfold carry at h₄
  unfold carried
  split
  · rename_i hm
    rw [if_pos hm] at h₄
    exact ⟨⟨by decide, by omega, .inl le_rfl⟩, h₄⟩
  · rename_i hm
    rw [if_neg hm] at h₄
    exact ⟨⟨by omega, h₃, .inl h₁⟩, by omega⟩

/-- In a pattern of bits the carry goes into the exponent by itself. -/
theorem partsOf_unpack_carried {u : Nat} (h₁ : 2 ^ 52 ≤ m) (h₂ : m ≤ 2 ^ 53)
    (h₃ : u * 2 ^ 52 + m < infinityBits) {b : BitVec 64}
    (hb : b.toNat = signBits s + (u * 2 ^ 52 + m)) :
    partsOf (unpack .binary64 b) = carried (isNegative s) m ((u : Int) - 1074) := by
  have h₃ : u * 2 ^ 52 + m < 2047 * 2 ^ 52 := h₃
  rw [partsOf_unpack_components s (by omega) hb, if_neg (by omega), if_neg (by omega)]
  unfold carried
  split <;> congr 1 <;> omega

end LiveForm.Binary
