import LiveForm.Proofs.Number.Whole

/-! # A half added to a whole double

The logic adds doubles exactly and then shifts the sum to 53 significant bits, with a bit that says
whether the rest is a half or more and one that says whether it is anything else. That is rounding to the
nearest, a half to the even neighbour. -/

namespace LiveForm.Binary

open Extended
open Float.Model (UnpackedFloat totalExponent)
open Float.Model.UnpackedFloat (Sign Accuracy ExtendedMantissa)

variable {s : Sign} {μ : Nat} {ε : Int}

/-! ## Shifting and rounding -/

theorem shiftRight_exact (μ k : Nat) :
    (⟨μ, false, false⟩ : ExtendedMantissa) >>> (k + 1) =
      ⟨μ / 2 ^ k / 2, μ / 2 ^ k % 2 != 0, μ % 2 ^ k != 0⟩ := by
  show Nat.repeat _ (k + 1) _ = _
  induction k with
  | zero => simp [Nat.repeat, ExtendedMantissa.shiftRightOne, Nat.mod_one]
  | succ k ih =>
    rw [Nat.repeat, ih]
    have hsticky : (μ / 2 ^ k % 2 != 0 || μ % 2 ^ k != 0) = (μ % 2 ^ (k + 1) != 0) := by
      rw [Nat.mod_pow_succ, Bool.eq_iff_iff]
      simp only [Bool.or_eq_true, bne_iff_ne, ne_eq, Nat.add_eq_zero_iff, Nat.mul_eq_zero,
        Nat.pow_eq_zero]
      omega
    unfold ExtendedMantissa.shiftRightOne
    dsimp only
    rw [hsticky, Nat.div_div_eq_div_mul (μ) (2 ^ k) 2, ← Nat.pow_succ]

/-- The bit that was shifted out last and what was shifted out before it, `r` units of `d`, decide as
the whole remainder does. -/
theorem roundedMantissa_eq {a r d : Nat} (hr : r < d) :
    (⟨a / 2, a % 2 != 0, r != 0⟩ : ExtendedMantissa).roundedMantissa =
      if 2 * (r + d * (a % 2)) < d * 2 then a / 2
      else if d * 2 < 2 * (r + d * (a % 2)) then a / 2 + 1
      else if a / 2 % 2 = 0 then a / 2
      else a / 2 + 1 := by
  rcases Nat.mod_two_eq_zero_or_one a with ha | ha
  · -- Less than a half is left, and nothing is added.
    have hdown (rest : Bool) :
        (⟨a / 2, false, rest⟩ : ExtendedMantissa).roundedMantissa = a / 2 := by cases rest <;> rfl
    rw [ha, if_pos (by omega)]
    exact hdown _
  · rw [ha, Nat.mul_one, if_neg (by omega)]
    by_cases h0 : r = 0
    · -- Exactly a half is left.
      have htie : (⟨a / 2, true, false⟩ : ExtendedMantissa).roundedMantissa = a / 2 + a / 2 % 2 := rfl
      rw [h0, if_neg (by omega)]
      refine htie.trans ?_
      split <;> omega
    · have hup : (⟨a / 2, true, true⟩ : ExtendedMantissa).roundedMantissa = a / 2 + 1 := rfl
      have hrest : (r != 0) = true := bne_iff_ne.mpr h0
      rw [hrest, if_pos (by omega)]
      exact hup

theorem roundedMantissa_shiftRight (μ k : Nat) :
    ((⟨μ, false, false⟩ : ExtendedMantissa) >>> k).roundedMantissa = divHalfEven μ (2 ^ k) := by
  cases k with
  | zero =>
    rw [Nat.pow_zero, divHalfEven_one]
    rfl
  | succ k =>
    have hdiv : μ / 2 ^ (k + 1) = μ / 2 ^ k / 2 := by rw [Nat.pow_succ, Nat.div_div_eq_div_mul]
    have hmod : μ % 2 ^ (k + 1) = μ % 2 ^ k + 2 ^ k * (μ / 2 ^ k % 2) := Nat.mod_pow_succ
    rw [shiftRight_exact, roundedMantissa_eq (Nat.mod_lt μ (Nat.two_pow_pos k)), ← hdiv, ← hmod,
      ← Nat.pow_succ]
    rfl

/-- Shifting to 53 bits, when these are `k` less than there are. -/
theorem shiftToTargetExponent_eq {k : Nat}
    (h : max (totalExponent μ ε - 53) (-1074) = ε + k) :
    UnpackedFloat.shiftToTargetExponent .binary64 μ ε .exact =
      ((⟨μ, false, false⟩ : ExtendedMantissa) >>> k, ε + k) := by
  show UnpackedFloat.shiftToExponent μ ε .exact (max (totalExponent μ ε - 53) (-1074)) = _
  have hshift : (ε + k - ε).toNat = k := by omega
  rw [h]
  unfold UnpackedFloat.shiftToExponent
  dsimp only
  rw [hshift]
  rfl

theorem totalExponent_of_canonical (h₁ : 2 ^ 52 ≤ μ) (h₂ : μ < 2 ^ 53) (ε : Int) :
    totalExponent μ ε = ε + 53 := by
  have hlog : μ.log2 = 52 :=
    (Nat.log2_eq_iff ((by decide : 0 < 2 ^ 52).trans_le h₁).ne').mpr ⟨h₁, h₂⟩
  unfold totalExponent
  omega

/-- A mantissa is shifted, rounded and shifted again. -/
theorem partsOf_roundWithAccuracy {em₁ em₂ : ExtendedMantissa} {m : Nat} {e₁ e₂ : Int}
    (h₁ : UnpackedFloat.shiftToTargetExponent .binary64 μ ε .exact = (em₁, e₁))
    (hm : em₁.roundedMantissa = m)
    (h₂ : UnpackedFloat.shiftToTargetExponent .binary64 m e₁ .exact = (em₂, e₂))
    (hpos : em₂.mantissa ≠ 0) :
    partsOf (UnpackedFloat.roundWithAccuracy .binary64 s μ ε .exact) =
      .finite (isNegative s) em₂.mantissa e₂ := by
  unfold UnpackedFloat.roundWithAccuracy
  rw [h₁]
  dsimp only
  rw [hm, h₂]
  dsimp only
  rw [dif_neg hpos]
  rfl

/-- After rounding, the mantissa is shifted only if it has become `2 ^ 53`. -/
theorem partsOf_rounded {k m : Nat} (hk : max (totalExponent μ ε - 53) (-1074) = ε + k)
    (hm : divHalfEven μ (2 ^ k) = m) (hlow : 2 ^ 52 ≤ m) (hup : m ≤ 2 ^ 53) (hε : -1074 ≤ ε + k) :
    partsOf (UnpackedFloat.roundWithAccuracy .binary64 s μ ε .exact) =
      carried (isNegative s) m (ε + k) := by
  have hround : ((⟨μ, false, false⟩ : ExtendedMantissa) >>> k).roundedMantissa = m :=
    (roundedMantissa_shiftRight μ k).trans hm
  unfold carried
  split
  · rename_i hfull
    have hcarry : max (totalExponent m (ε + k) - 53) (-1074) = ε + k + (1 : Nat) := by
      have hlog : (2 ^ 53).log2 = 53 := by decide
      rw [hfull]
      unfold totalExponent
      omega
    have hhalf : ((⟨m, false, false⟩ : ExtendedMantissa) >>> 1).mantissa = 2 ^ 52 := by
      rw [hfull]
      rfl
    rw [partsOf_roundWithAccuracy (shiftToTargetExponent_eq hk) hround
      (shiftToTargetExponent_eq hcarry) (by rw [hhalf]; decide), hhalf]
    rfl
  · rename_i hfull
    have hstop : max (totalExponent m (ε + k) - 53) (-1074) = ε + k + (0 : Nat) := by
      rw [totalExponent_of_canonical hlow (lt_of_le_of_ne hup hfull)]
      omega
    have hsame : ((⟨m, false, false⟩ : ExtendedMantissa) >>> 0).mantissa = m := rfl
    have hpos : m ≠ 0 := ((by decide : 0 < 2 ^ 52).trans_le hlow).ne'
    rw [partsOf_roundWithAccuracy (shiftToTargetExponent_eq hk) hround
      (shiftToTargetExponent_eq hstop) (hsame.trans_ne hpos), hsame]
    simp

/-- A mantissa with bits to spare is rounded to 53 bits. -/
theorem partsOf_round (hμ : 2 ^ 52 ≤ μ) (hε : -1074 ≤ ε) :
    partsOf (UnpackedFloat.round .binary64 s μ ε) =
      carried (isNegative s) (mantissaOf μ) (ε + place μ) := by
  have hpos : 0 < μ := (by decide : 0 < 2 ^ 52).trans_le hμ
  have hlog : 52 ≤ μ.log2 := (Nat.le_log2 hpos.ne').mpr hμ
  have htarget : max (totalExponent μ ε - 53) (-1074) = ε + place μ := by
    unfold totalExponent place
    omega
  have hmantissa : divHalfEven μ (2 ^ place μ) = mantissaOf μ := by
    unfold mantissaOf
    rw [Nat.sub_eq_zero_of_le hlog]
    exact congrArg (divHalfEven · _) (Nat.mul_one μ).symm
  have hstay : UnpackedFloat.decreaseExponent μ ε (ε + place μ) = (μ, ε) := by
    unfold UnpackedFloat.decreaseExponent
    rw [show (ε - (ε + place μ)).toNat = 0 by omega]
    simp
  have hformat : Float.Model.Format.binary64.targetExponent (totalExponent μ ε) = ε + place μ :=
    htarget
  unfold UnpackedFloat.round
  dsimp only
  rw [hformat, hstay]
  exact partsOf_rounded htarget hmantissa (le_mantissaOf hpos.ne') (mantissaOf_le μ)
    (by omega)

theorem partsOf_normalize {n : Int} (hn : 2 ^ 52 ≤ n.natAbs) (hε : -1074 ≤ ε) (z : Sign) :
    partsOf (UnpackedFloat.normalize .binary64 n ε z) =
      carried (n < 0) (mantissaOf n.natAbs) (ε + place n.natAbs) := by
  unfold UnpackedFloat.normalize
  rcases lt_trichotomy n 0 with hneg | rfl | hpos
  · have habs : (-n).toNat = n.natAbs := by omega
    rw [compare_lt_iff_lt.mpr hneg, decide_eq_true hneg]
    dsimp only
    rw [habs]
    exact partsOf_round hn hε
  · exact absurd hn (by decide)
  · have habs : n.toNat = n.natAbs := by omega
    rw [compare_gt_iff_gt.mpr hpos, decide_eq_false (not_lt.mpr hpos.le)]
    dsimp only
    rw [habs]
    exact partsOf_round hn hε

/-! ## The sum -/

/-- Zeros at the end move the leading bit and leave the rounded mantissa. -/
theorem mantissaOf_two_pow_mul {n : Nat} (hn : n ≠ 0) :
    mantissaOf (2 ^ 52 * n) = mantissaOf n ∧ place (2 ^ 52 * n) = Nat.log2 n := by
  have hlog : Nat.log2 (2 ^ 52 * n) = Nat.log2 n + 52 := by
    rw [Nat.mul_comm]
    exact log2_mul_twoTo hn 52
  have hplace : place (2 ^ 52 * n) = Nat.log2 n := by
    unfold place
    omega
  refine ⟨?_, hplace⟩
  have hnum : n * twoTo (52 - Nat.log2 n) * twoTo (52 - (52 - Nat.log2 n)) = 2 ^ 52 * n := by
    rw [Nat.mul_assoc, twoTo_eq, twoTo_eq, ← Nat.pow_add, Nat.add_sub_cancel' (Nat.sub_le _ _),
      Nat.mul_comm]
  have hden : twoTo (place n) * twoTo (52 - (52 - Nat.log2 n)) = twoTo (Nat.log2 n) := by
    rw [twoTo_eq, twoTo_eq, ← Nat.pow_add]
    refine congrArg twoTo ?_
    unfold place
    omega
  have hone : twoTo (52 - Nat.log2 (2 ^ 52 * n)) = 1 := by
    rw [hlog, Nat.sub_eq_zero_of_le (Nat.le_add_left _ _)]
    rfl
  unfold mantissaOf
  rw [hplace, hone, Nat.mul_one, ← hnum, ← hden, divHalfEven_mul_mul (twoTo_pos _)]

/-- Whole doubles are multiples of the unit of a half, as far as they are not zero. -/
theorem WholeParts.neg_le {x : Float} {a e : Int} {negative : Bool} {m : Nat}
    (h : WholeParts x a negative m e) (hm : 0 < m) : -53 ≤ e := by
  by_contra hsmall
  have habs := h.natAbs
  rw [twoTo_toNat_of_nonpos (by omega), Nat.mul_one] at habs
  have hpos : 0 < a.natAbs := by
    rw [habs] at hm
    exact Nat.pos_of_mul_pos_right hm
  have hle : 2 ^ 53 ≤ m := by
    rw [habs]
    calc 2 ^ 53 ≤ 2 ^ (-e).toNat := Nat.pow_le_pow_right two_pos (by omega)
      _ ≤ a.natAbs * 2 ^ (-e).toNat := Nat.le_mul_of_pos_left _ hpos
  exact absurd h.lt (Nat.not_lt.mpr hle)

theorem apply_eq_signed (s : Sign) (n : Nat) : s.apply n = signed (isNegative s) n := by
  cases s <;> rfl

/-- A whole double and a half make an odd number of halves. -/
theorem partsOf_add_half {x : Float} {a e : Int} {m : Nat} (hm : 0 < m)
    (h : WholeParts x a (isNegative s) m e) :
    partsOf (UnpackedFloat.add .binary64 (.finite s m e hm)
      (.finite .positive (2 ^ 52) (-53) (by decide))) =
      carried (2 * a + 1 < 0) (mantissaOf (2 * a + 1).natAbs)
        ((Nat.log2 (2 * a + 1).natAbs : Int) - 53) := by
  have hle := h.neg_le hm
  have hunit : min e (-53) = -53 := min_eq_right hle
  have hleft : m <<< (e - -53).toNat = a.natAbs * 2 ^ 53 := by
    have habs := h.natAbs_at hle
    rw [twoTo_toNat_of_nonpos (e := -53) (by decide), Nat.mul_one] at habs
    rw [Nat.shiftLeft_eq]
    exact habs
  have hsum : s.apply (a.natAbs * 2 ^ 53 : Nat) + (2 ^ 52 : Nat) = 2 ^ 52 * (2 * a + 1) := by
    rw [apply_eq_signed, signed_mul, h.signed_natAbs]
    push_cast
    ring
  have hadd : UnpackedFloat.add .binary64 (.finite s m e hm)
      (.finite .positive (2 ^ 52) (-53) (by decide)) =
      UnpackedFloat.normalize .binary64 (2 ^ 52 * (2 * a + 1)) (-53) .positive := by
    show UnpackedFloat.normalize .binary64 (s.apply (m <<< (e - min e (-53)).toNat : Nat) +
      (2 ^ 52 <<< (-53 - min e (-53)).toNat : Nat)) (min e (-53)) .positive = _
    rw [hunit, hleft, ← hsum]
    rfl
  have hne : (2 * a + 1).natAbs ≠ 0 := by omega
  have habs : (2 ^ 52 * (2 * a + 1)).natAbs = 2 ^ 52 * (2 * a + 1).natAbs := Int.natAbs_mul _ _
  obtain ⟨hmantissa, hplace⟩ := mantissaOf_two_pow_mul hne
  rw [hadd, partsOf_normalize (by omega) (by decide), habs, hmantissa, hplace]
  congr 1
  exact decide_eq_decide.mpr (by omega)

theorem parts_add_half {x : Float} {f : UnpackedFloat} (hx : x.toModel.unpack = f)
    (h : Storable (partsOf (UnpackedFloat.add .binary64 f
      (.finite .positive (2 ^ 52) (-53) (by decide))))) :
    parts (x + 0.5) = partsOf (UnpackedFloat.add .binary64 f
      (.finite .positive (2 ^ 52) (-53) (by decide))) := by
  have hhalf : (0.5 : Float).toModel.unpack = .finite .positive (2 ^ 52) (-53) (by decide) := rfl
  rw [← hx, ← hhalf] at h ⊢
  exact parts_add h

/-- A whole double and a half, rounded to the nearest double. -/
theorem value?_add_half {x : Float} {a : Int} (hx : IsWhole x a)
    (hlt : nearestNat (2 * a + 1).natAbs < 2 ^ (1024 + 1)) :
    (parts (x + 0.5)).value? = some (ofRat ((nearestInt (2 * a + 1) : ℚ) / 2)) := by
  obtain ⟨negative, m, e, h⟩ := exists_wholeParts hx
  have hparts := h.parts
  rw [parts_eq] at hparts
  cases hu : x.toModel.unpack with
  | notANumber =>
    rw [hu] at hparts
    cases hparts
  | infinity s =>
    rw [hu] at hparts
    cases hparts
  | zero s =>
    rw [hu] at hparts
    obtain ⟨-, rfl, -⟩ := Parts.finite.inj hparts
    have habs := h.natAbs
    rw [Nat.zero_mul] at habs
    obtain rfl : a = 0 := Int.natAbs_eq_zero.mp
      ((Nat.mul_eq_zero.mp habs.symm).resolve_right (twoTo_pos _).ne')
    have hone : nearestInt (2 * 0 + 1) = 1 := by decide
    rw [parts_add_half hu ⟨⟨by decide, by decide, .inl le_rfl⟩, by decide⟩, hone]
    show some (ofRat (((2 ^ 52 : Nat) : Int) * 2 ^ (-53 : Int))) = _
    norm_num
  | finite s m' e' hm =>
    rw [hu] at hparts
    obtain ⟨rfl, rfl, rfl⟩ := Parts.finite.inj hparts
    have hodd : (2 * a + 1).natAbs ≠ 0 := by omega
    have hsum := partsOf_add_half hm h
    have hcarry := (nearestNat_lt_iff hodd (1024 + 1)).mp hlt
    have hstorable := storable_carried (decide (2 * a + 1 < 0)) (le_mantissaOf hodd)
      (mantissaOf_le _) (e := (Nat.log2 (2 * a + 1).natAbs : Int) - 53) (by omega) (by omega)
    have hexp : (2 : ℚ) ^ ((Nat.log2 (2 * a + 1).natAbs : Int) - 53) =
        2 ^ ((Nat.log2 (2 * a + 1).natAbs : Int) - 52) / 2 := by
      rw [div_eq_mul_inv, ← zpow_sub_one₀ (by norm_num)]
      congr 1
      omega
    rw [parts_add_half hu (hsum ▸ hstorable), hsum, value?_carried, hexp, ← mul_div_assoc,
      signed_mul_of_mul (mantissaOf_mul_zpow _)]
    rfl

end LiveForm.Binary
