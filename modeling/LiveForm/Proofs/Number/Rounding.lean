import LiveForm.Proofs.Number.Half

/-! # Whole numbers that pass through doubles

Sums, differences and products of whole numbers are exact. Remainders and rounding take their operands
as doubles: the remainder is the exact one of the nearest doubles, and rounding, which adds a half,
makes the odd numbers between `2 ^ 52` and `2 ^ 53` even. -/

namespace LiveForm

namespace Binary

variable {a b : Int}

/-- A whole double after a half was added to it, and the floor taken. -/
def withHalf (a : Int) : Int :=
  if 2 ^ 52 ≤ a.natAbs ∧ a.natAbs < 2 ^ 53 then a + a % 2 else a

theorem withHalf_of_natAbs_le (h : a.natAbs ≤ 2 ^ 52) : withHalf a = a := by
  unfold withHalf
  split <;> omega

/-- Half of the nearest double to an odd number. Up to `2 ^ 53` that number is a double, up to `2 ^ 54`
it lies half-way between two, and beyond it is nearer to its even neighbour than to any other. -/
theorem nearestInt_succ (h : Significant a.natAbs) : nearestInt (2 * a + 1) / 2 = withHalf a := by
  have hodd : (2 * a + 1).natAbs = 2 * ((2 * a + 1).natAbs / 2) + 1 := by omega
  unfold withHalf
  by_cases hsmall : (2 * a + 1).natAbs ≤ 2 ^ 53
  · rw [nearestInt_of_natAbs_le hsmall]
    split <;> omega
  · by_cases hmiddle : (2 * a + 1).natAbs < 2 ^ 54
    · have htie : nearestNat (2 * a + 1).natAbs =
          2 * ((2 * a + 1).natAbs / 2 + (2 * a + 1).natAbs / 2 % 2) := by
        rw [hodd, nearestNat_odd (by omega) (by omega)]
        omega
      rw [nearestInt_eq_ite, htie]
      split <;> split <;> omega
    · have hnear := nearestNat_of_near h (Nat.le_of_not_lt hmiddle) (by omega) (by omega)
      rw [nearestInt_eq_ite, hnear]
      split <;> split <;> omega

theorem nearestNat_succ_lt (h : Significant a.natAbs) {k : Nat} (hk : 53 < k)
    (ha : a.natAbs < 2 ^ k) : nearestNat (2 * a + 1).natAbs < 2 ^ (k + 1) := by
  by_cases hsmall : (2 * a + 1).natAbs < 2 ^ 54
  · have hne : (2 * a + 1).natAbs ≠ 0 := by omega
    have hlog := (Nat.log2_lt hne).mpr hsmall
    have hcarry := carry_le (mantissaOf (2 * a + 1).natAbs)
    exact (nearestNat_lt_iff hne _).mpr (by omega)
  · rw [nearestNat_of_near h (Nat.le_of_not_lt hsmall) (by omega) (by omega), Nat.pow_succ']
    exact Nat.mul_lt_mul_of_pos_left ha two_pos

theorem natAbs_nearestInt (a : Int) : (nearestInt a).natAbs = nearestNat a.natAbs :=
  natAbs_signed _ _

theorem nearestInt_ne_zero (h : a ≠ 0) : nearestInt a ≠ 0 := by
  have hpos := (nearestNat_lt_iff (Int.natAbs_ne_zero.mpr h) 0).not.mpr (Nat.not_lt_zero _)
  have habs := natAbs_nearestInt a
  omega

theorem ofInt?_of_lt (h : (nearestInt a).natAbs < 2 ^ 1024) :
    ∃ x, ofInt? a = some x ∧ IsWhole x (nearestInt a) := by
  rw [natAbs_nearestInt] at h
  obtain ⟨x, hx, hwhole⟩ := nearest?_of_lt h (a < 0) 0
  rw [show twoTo 0 = 1 from rfl, Nat.mul_one] at hx
  exact ⟨x, hx, hwhole⟩

theorem ofInt?_of_le (h : 2 ^ 1024 ≤ (nearestInt a).natAbs) : ofInt? a = none := by
  rw [natAbs_nearestInt] at h
  have hnone := nearest?_of_le h (a < 0) 0
  rwa [show twoTo 0 = 1 from rfl, Nat.mul_one] at hnone

/-- A double is this whole number, and no double that is a whole number is nearer to the given one. -/
structure IsNearest (a n : Int) : Prop where
  isDouble : ∃ x, IsWhole x n
  le : ∀ x c, IsWhole x c → (n - a).natAbs ≤ (c - a).natAbs

/-- **No double is nearer to a whole number than the one that it is rounded to.** -/
theorem isNearest_nearestInt (h : (nearestInt a).natAbs < 2 ^ 1024) : IsNearest a (nearestInt a) := by
  obtain ⟨x, -, hwhole⟩ := ofInt?_of_lt h
  refine ⟨⟨x, hwhole⟩, fun y c hc => ?_⟩
  have hnear := natAbs_nearestNat_sub_le (n := a.natAbs) (significant_of_isWhole hc)
  have hzero := natAbs_nearestNat_sub_le (n := a.natAbs) ⟨0, 0, by decide, rfl⟩
  rw [nearestInt_eq_ite]
  split <;> omega

end Binary

namespace Number

open Binary

variable {a b : Int}

theorem toFloat_int_of_lt (h : (nearestInt a).natAbs < 2 ^ 1024) :
    ∃ x, (Number.int a).toFloat = .ok x ∧ IsWhole x (nearestInt a) := by
  obtain ⟨x, hx, hwhole⟩ := ofInt?_of_lt h
  refine ⟨x, ?_, hwhole⟩
  unfold toFloat
  dsimp only
  rw [hx]

theorem toFloat_int_of_le (h : 2 ^ 1024 ≤ (nearestInt a).natAbs) :
    (Number.int a).toFloat = .error .range := by
  unfold toFloat
  dsimp only
  rw [ofInt?_of_le h]

theorem rem_int (ha : (nearestInt a).natAbs < 2 ^ 1024) (hb : (nearestInt b).natAbs < 2 ^ 1024)
    (h0 : b ≠ 0) :
    ∃ r, rem (.int a) (.int b) = .ok (.float r) ∧ IsWhole r ((nearestInt a).tmod (nearestInt b)) := by
  obtain ⟨x, hx, hwx⟩ := toFloat_int_of_lt ha
  obtain ⟨y, hy, hwy⟩ := toFloat_int_of_lt hb
  obtain ⟨r, hr, hwr⟩ := remainder?_of_isWhole hwx hwy (nearestInt_ne_zero h0)
  refine ⟨r, ?_, hwr⟩
  unfold rem
  rw [hx, hy]
  dsimp only [Bind.bind, Except.bind]
  rw [hr]
  rfl

theorem rem_int_of_le (h : 2 ^ 1024 ≤ (nearestInt a).natAbs ∨ 2 ^ 1024 ≤ (nearestInt b).natAbs) :
    rem (.int a) (.int b) = .error .range := by
  unfold rem
  by_cases ha : 2 ^ 1024 ≤ (nearestInt a).natAbs
  · rw [toFloat_int_of_le ha]
    rfl
  · obtain ⟨x, hx, -⟩ := toFloat_int_of_lt (Nat.lt_of_not_le ha)
    rw [hx, toFloat_int_of_le (h.resolve_left ha)]
    rfl

theorem round_int (ha : (nearestInt a).natAbs < 2 ^ 1024) :
    round (.int a) = .ok (.int (withHalf (nearestInt a))) := by
  obtain ⟨x, hx, hwhole⟩ := toFloat_int_of_lt ha
  have hbits := significant_of_isWhole hwhole
  have hsum := value?_add_half hwhole (nearestNat_succ_lt hbits (by decide) ha)
  have hfloor : ⌊(nearestInt (2 * nearestInt a + 1) : ℚ) / 2⌋ = withHalf (nearestInt a) := by
    rw [← nearestInt_succ hbits]
    exact Rat.floor_intCast_div_natCast _ 2
  have hfinite : Binary.isFinite x = true := isFinite_of_value? hwhole
  unfold round
  rw [hx]
  show (if Binary.isFinite x = true then wholeOr x (floor? (x + 0.5)) else .ok (.int a)) = _
  rw [if_pos hfinite, floor?_of_value? hsum, hfloor]
  rfl

theorem round_int_of_le (h : 2 ^ 1024 ≤ (nearestInt a).natAbs) :
    round (.int a) = .error .range := by
  unfold round
  rw [toFloat_int_of_le h]
  rfl

end Number

end LiveForm
