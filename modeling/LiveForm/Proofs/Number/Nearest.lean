import LiveForm.Proofs.Number.Packing

/-! # The double nearest to a whole number

A natural number is rounded to 53 significant bits, a half to the even neighbour. Up to `2 ^ 53` that
changes nothing; beyond, the spacing of doubles is more than one. -/

namespace LiveForm.Binary

open Extended
open Float.Model.UnpackedFloat (Sign unpack)

theorem twoTo_eq (n : Nat) : twoTo n = 2 ^ n := rfl

theorem twoTo_pos (n : Nat) : 0 < twoTo n := Nat.pow_pos (by decide)

theorem log2_mul_twoTo {n : Nat} (hn : n ≠ 0) (j : Nat) :
    Nat.log2 (n * twoTo j) = Nat.log2 n + j := by
  induction j with
  | zero => exact congrArg Nat.log2 (Nat.mul_one n)
  | succ j ih =>
    have hdouble : n * twoTo (j + 1) = 2 * (n * twoTo j) := by
      rw [twoTo_eq, Nat.pow_succ', Nat.mul_left_comm]
      rfl
    rw [hdouble, Nat.log2_two_mul (Nat.mul_ne_zero hn (twoTo_pos j).ne'), ih, Nat.add_assoc]

/-! ## Quotients rounded to the nearest -/

section Quotients

variable {n d k q : Nat}

theorem divHalfEven_mul (hd : 0 < d) (q : Nat) : divHalfEven (q * d) d = q := by
  unfold divHalfEven
  rw [Nat.mul_mod_left, Nat.mul_div_cancel q hd]
  exact if_pos hd

theorem divHalfEven_one (n : Nat) : divHalfEven n 1 = n := by simpa using divHalfEven_mul one_pos n

/-- A common factor does not change the quotient. -/
theorem divHalfEven_mul_mul (hk : 0 < k) (n d : Nat) :
    divHalfEven (n * k) (d * k) = divHalfEven n d := by
  have hlt (a b : Nat) : a * k < b * k ↔ a < b := Nat.mul_lt_mul_right hk
  unfold divHalfEven
  simp only [Nat.mul_div_mul_right n d hk, Nat.mul_mod_mul_right, ← Nat.mul_assoc, hlt]

/-- What is rounded down is not above the half, and what is rounded up not below it. -/
theorem divHalfEven_eq (n d : Nat) :
    divHalfEven n d = n / d ∧ 2 * (n % d) ≤ d ∨ divHalfEven n d = n / d + 1 ∧ d ≤ 2 * (n % d) := by
  unfold divHalfEven
  dsimp only
  split
  · rename_i hlow
    exact .inl ⟨rfl, hlow.le⟩
  · rename_i hlow
    have hhalf : d ≤ 2 * (n % d) := Nat.le_of_not_lt hlow
    split
    · exact .inr ⟨rfl, hhalf⟩
    · rename_i hhigh
      split
      · exact .inl ⟨rfl, Nat.le_of_not_lt hhigh⟩
      · exact .inr ⟨rfl, hhalf⟩

/-- Rounding is off by no more than a half. -/
theorem divHalfEven_mul_le (hd : 0 < d) (n : Nat) :
    2 * n ≤ 2 * (divHalfEven n d * d) + d ∧ 2 * (divHalfEven n d * d) ≤ 2 * n + d := by
  have hdiv := Nat.div_add_mod' n d
  have hmod := Nat.mod_lt n hd
  rcases divHalfEven_eq n d with ⟨heq, hhalf⟩ | ⟨heq, hhalf⟩
  · rw [heq]
    omega
  · rw [heq, Nat.add_mul]
    omega

theorem le_divHalfEven (hd : 0 < d) (h : 2 * (q * d) < 2 * n + d) : q ≤ divHalfEven n d := by
  have hoff := (divHalfEven_mul_le hd n).1
  refine Nat.lt_succ_iff.mp (Nat.lt_of_mul_lt_mul_right (a := d) ?_)
  rw [Nat.succ_mul]
  omega

theorem divHalfEven_le (hd : 0 < d) (h : 2 * n < 2 * (q * d) + d) : divHalfEven n d ≤ q := by
  have hoff := (divHalfEven_mul_le hd n).2
  refine Nat.lt_succ_iff.mp (Nat.lt_of_mul_lt_mul_right (a := d) ?_)
  rw [Nat.succ_mul]
  omega

end Quotients

/-! ## The nearest natural number -/

variable {n : Nat} {negative : Bool}

/-- The exponent that a natural number has as a double, when it has none below zero. -/
def place (n : Nat) : Nat := Nat.log2 n - 52

/-- The nearest natural number with at most 53 significant bits. -/
def nearestNat (n : Nat) : Nat := divHalfEven n (twoTo (place n)) * twoTo (place n)

/-- The nearest whole number whose distance from zero has at most 53 significant bits. -/
def nearestInt (n : Int) : Int := signed (n < 0) (nearestNat n.natAbs)

/-- The mantissa of the double nearest to a natural number. -/
def mantissaOf (n : Nat) : Nat :=
  divHalfEven (n * twoTo (52 - Nat.log2 n)) (twoTo (place n))

/-- The two units, one above and one below the line, make up the distance to the leading bit. -/
theorem twoTo_place (n : Nat) :
    2 ^ 52 * twoTo (place n) = 2 ^ Nat.log2 n * twoTo (52 - Nat.log2 n) := by
  rw [twoTo_eq, twoTo_eq, ← Nat.pow_add, ← Nat.pow_add]
  congr 1
  unfold place
  omega

theorem le_mantissaOf (hn : n ≠ 0) : 2 ^ 52 ≤ mantissaOf n := by
  have hle : 2 ^ 52 * twoTo (place n) ≤ n * twoTo (52 - Nat.log2 n) := by
    rw [twoTo_place]
    exact Nat.mul_le_mul_right _ (Nat.log2_self_le hn)
  have hpos := twoTo_pos (place n)
  exact le_divHalfEven hpos (by omega)

theorem mantissaOf_le (n : Nat) : mantissaOf n ≤ 2 ^ 53 := by
  have hle : n * twoTo (52 - Nat.log2 n) ≤ 2 ^ 53 * twoTo (place n) := by
    calc n * twoTo (52 - Nat.log2 n)
        ≤ 2 ^ (Nat.log2 n + 1) * twoTo (52 - Nat.log2 n) :=
          Nat.mul_le_mul_right _ Nat.lt_log2_self.le
      _ = 2 * (2 ^ 52 * twoTo (place n)) := by
          rw [twoTo_place]
          ring
      _ = 2 ^ 53 * twoTo (place n) := by ring
  have hpos := twoTo_pos (place n)
  exact divHalfEven_le hpos (by omega)

/-- The mantissa with its leading bit in the place of that of the number. -/
theorem nearestNat_mul (n : Nat) : nearestNat n * 2 ^ 52 = mantissaOf n * 2 ^ Nat.log2 n := by
  unfold nearestNat mantissaOf
  rcases Nat.le_total (Nat.log2 n) 52 with hlog | hlog
  · have hplace : place n = 0 := Nat.sub_eq_zero_of_le hlog
    have hone : twoTo 0 = 1 := rfl
    have hunit : twoTo (52 - Nat.log2 n) * 2 ^ Nat.log2 n = 2 ^ 52 := by
      rw [twoTo_eq, ← Nat.pow_add, Nat.sub_add_cancel hlog]
    rw [hplace, hone, divHalfEven_one, divHalfEven_one, Nat.mul_one, Nat.mul_assoc, hunit]
  · have hone : twoTo (52 - Nat.log2 n) = 1 := by
      rw [Nat.sub_eq_zero_of_le hlog]
      rfl
    have hunit : twoTo (place n) * 2 ^ 52 = 2 ^ Nat.log2 n := by
      rw [twoTo_eq, ← Nat.pow_add]
      exact congrArg _ (Nat.sub_add_cancel hlog)
    rw [hone, Nat.mul_one, Nat.mul_assoc, hunit]

theorem mantissaOf_mul_zpow (n : Nat) :
    (mantissaOf n : ℚ) * 2 ^ ((Nat.log2 n : Int) - 52) = nearestNat n := by
  have h : (nearestNat n : ℚ) * 2 ^ 52 = mantissaOf n * 2 ^ Nat.log2 n := mod_cast nearestNat_mul n
  rw [zpow_sub₀ (by norm_num), zpow_natCast, ← mul_div_assoc, ← h]
  norm_num

/-- A number of `k + 1` bits is rounded up to one of `k + 2` only as a power of two. -/
theorem nearestNat_lt_iff (hn : n ≠ 0) (k : Nat) :
    nearestNat n < 2 ^ k ↔ Nat.log2 n + carry (mantissaOf n) < k := by
  have hmul := nearestNat_mul n
  have hlow := le_mantissaOf hn
  have hlt (i : Nat) : 2 ^ i < 2 ^ k ↔ i < k := Nat.pow_lt_pow_iff_right (by decide)
  unfold carry
  split
  · rename_i hfull
    have heq : nearestNat n = 2 ^ (Nat.log2 n + 1) := by
      rw [hfull] at hmul
      rw [Nat.pow_succ]
      omega
    rw [heq, hlt]
  · rename_i hfull
    have hup : mantissaOf n < 2 ^ 53 := lt_of_le_of_ne (mantissaOf_le n) hfull
    have hge : 2 ^ Nat.log2 n ≤ nearestNat n := by
      have h := Nat.mul_le_mul_right (2 ^ Nat.log2 n) hlow
      omega
    have hle : nearestNat n < 2 ^ (Nat.log2 n + 1) := by
      have h := Nat.mul_lt_mul_of_pos_right hup (Nat.two_pow_pos (Nat.log2 n))
      rw [Nat.pow_succ]
      omega
    constructor
    · intro h
      exact (hlt _).mp (hge.trans_lt h)
    · intro h
      exact hle.trans_le (Nat.pow_le_pow_right (by decide) h)

/-- Only what the spacing of doubles divides stays as it is. -/
theorem nearestNat_eq_self (h : twoTo (place n) ∣ n) : nearestNat n = n := by
  obtain ⟨q, hq⟩ := h
  have hn : q * twoTo (place n) = n := by rw [Nat.mul_comm, ← hq]
  unfold nearestNat
  calc divHalfEven n (twoTo (place n)) * twoTo (place n)
      = divHalfEven (q * twoTo (place n)) (twoTo (place n)) * twoTo (place n) := by rw [hn]
    _ = n := by rw [divHalfEven_mul (twoTo_pos _), hn]

theorem place_le {j : Nat} (h : n < 2 ^ (53 + j)) : place n ≤ j := by
  unfold place
  by_cases hn : n = 0
  · rw [hn, Nat.log2_zero]
    omega
  · have hlog := (Nat.log2_lt hn).mpr h
    omega

/-- At most 53 bits, and then zeros: what a double can be. -/
def Significant (n : Nat) : Prop := ∃ m j, m < 2 ^ 53 ∧ n = m * twoTo j

theorem Significant.nearestNat_eq (h : Significant n) : nearestNat n = n := by
  obtain ⟨m, j, hm, rfl⟩ := h
  refine nearestNat_eq_self ?_
  have hlt : m * twoTo j < 2 ^ (53 + j) := by
    rw [Nat.pow_add]
    exact Nat.mul_lt_mul_of_pos_right hm (twoTo_pos j)
  exact (pow_dvd_pow 2 (place_le hlt)).mul_left m

theorem significant_of_le (h : n ≤ 2 ^ 53) : Significant n := by
  rcases Nat.lt_or_eq_of_le h with hlt | rfl
  · exact ⟨n, 0, hlt, (Nat.mul_one n).symm⟩
  · exact ⟨1, 53, by decide, by decide⟩

/-- Of the multiples of the spacing, none is nearer. -/
theorem natAbs_nearestNat_sub_le_of_dvd {c : Nat} (h : twoTo (place n) ∣ c) :
    ((nearestNat n : Int) - n).natAbs ≤ ((c : Int) - n).natAbs := by
  obtain ⟨k, rfl⟩ := h
  obtain ⟨hlow, hup⟩ := divHalfEven_mul_le (twoTo_pos (place n)) n
  unfold nearestNat
  rw [Nat.mul_comm (twoTo (place n)) k]
  generalize twoTo (place n) = d at hlow hup ⊢
  rcases lt_trichotomy k (divHalfEven n d) with hk | rfl | hk
  · have hstep : (k + 1) * d ≤ divHalfEven n d * d := Nat.mul_le_mul_right d hk
    rw [Nat.succ_mul] at hstep
    omega
  · exact le_rfl
  · have hstep : (divHalfEven n d + 1) * d ≤ k * d := Nat.mul_le_mul_right d hk
    rw [Nat.succ_mul] at hstep
    omega

/-- **No double is nearer.** What has a smaller unit than the spacing is below the power of two that the
number begins with, and that is a multiple of the spacing. -/
theorem natAbs_nearestNat_sub_le {c : Nat} (hc : Significant c) :
    ((nearestNat n : Int) - n).natAbs ≤ ((c : Int) - n).natAbs := by
  obtain ⟨m, j, hm, rfl⟩ := hc
  by_cases hj : place n ≤ j
  · exact natAbs_nearestNat_sub_le_of_dvd ((pow_dvd_pow 2 hj).mul_left m)
  · have hn : n ≠ 0 := by
      intro hn
      rw [hn] at hj
      exact hj (Nat.zero_le _)
    have hlog : Nat.log2 n = 52 + place n := by
      unfold place at hj ⊢
      omega
    have hle : 2 ^ 52 * twoTo (place n) ≤ n := by
      have h := Nat.log2_self_le hn
      rw [hlog, Nat.pow_add] at h
      exact h
    have hlt : m * twoTo j < 2 ^ 52 * twoTo (place n) := by
      have hunit : twoTo (j + 1) ≤ twoTo (place n) := Nat.pow_le_pow_right two_pos (by omega)
      have hdouble : twoTo (j + 1) = 2 * twoTo j := Nat.pow_succ'
      have h := Nat.mul_lt_mul_of_pos_right hm (twoTo_pos j)
      omega
    have hnear := natAbs_nearestNat_sub_le_of_dvd (n := n) (Dvd.intro_left (2 ^ 52) rfl)
    omega

/-- An even number with few bits is the nearest to its neighbours. -/
theorem nearestNat_of_near {b : Nat} (hb : Significant b) (hn : 2 ^ 54 ≤ n) (h₁ : n ≤ 2 * b + 1)
    (h₂ : 2 * b ≤ n + 1) : nearestNat n = 2 * b := by
  obtain ⟨m, j, hm, rfl⟩ := hb
  have hlt : n < 2 ^ (53 + (j + 1)) := by
    have h := Nat.mul_le_mul_right (twoTo j) (Nat.succ_le_iff.mpr hm)
    have hunit := twoTo_pos j
    rw [Nat.succ_mul] at h
    rw [← Nat.add_assoc, Nat.add_right_comm, Nat.pow_add, ← twoTo_eq j]
    omega
  have hfour : twoTo 2 ≤ twoTo (place n) := by
    have hlog : 54 ≤ Nat.log2 n := (Nat.le_log2 (by omega)).mpr hn
    refine Nat.pow_le_pow_right two_pos ?_
    unfold place
    omega
  have hdouble : 2 * (m * twoTo j) = m * twoTo (j + 1) := by
    show _ = m * 2 ^ (j + 1)
    rw [Nat.pow_succ, twoTo_eq]
    ring
  have hdvd : twoTo (place n) ∣ 2 * (m * twoTo j) :=
    hdouble ▸ (pow_dvd_pow 2 (place_le hlt)).mul_left m
  obtain ⟨q, hq⟩ := exists_eq_mul_left_of_dvd hdvd
  have hfour : 4 ≤ twoTo (place n) := hfour
  have hquotient : divHalfEven n (twoTo (place n)) = q :=
    le_antisymm (divHalfEven_le (twoTo_pos _) (by omega)) (le_divHalfEven (twoTo_pos _) (by omega))
  unfold nearestNat
  rw [hquotient, ← hq]

/-- Between `2 ^ 53` and `2 ^ 54` the odd numbers lie half-way between two doubles. -/
theorem nearestNat_odd {k : Nat} (h₁ : 2 ^ 53 ≤ 2 * k + 1) (h₂ : 2 * k + 1 < 2 ^ 54) :
    nearestNat (2 * k + 1) = 2 * (k + k % 2) := by
  have hlog : Nat.log2 (2 * k + 1) = 53 := (Nat.log2_eq_iff (Nat.succ_ne_zero _)).mpr ⟨h₁, h₂⟩
  have htie : divHalfEven (2 * k + 1) 2 = k + k % 2 := by
    unfold divHalfEven
    rw [show (2 * k + 1) / 2 = k by omega, show (2 * k + 1) % 2 = 1 by omega]
    dsimp only
    rw [if_neg (by decide), if_neg (by decide)]
    split <;> omega
  unfold nearestNat place
  rw [hlog]
  show divHalfEven (2 * k + 1) 2 * 2 = _
  rw [htie, Nat.mul_comm]

theorem nearestInt_eq_ite (n : Int) :
    nearestInt n = if n < 0 then -(nearestNat n.natAbs : Int) else nearestNat n.natAbs := by
  unfold nearestInt signed
  simp only [decide_eq_true_eq]

theorem Significant.nearestInt_eq {a : Int} (h : Significant a.natAbs) : nearestInt a = a := by
  rw [nearestInt_eq_ite, h.nearestNat_eq]
  split <;> omega

theorem nearestInt_of_natAbs_le {a : Int} (h : a.natAbs ≤ 2 ^ 53) : nearestInt a = a :=
  (significant_of_le h).nearestInt_eq

/-! ## Its double -/

/-- Where it is a power of two, the denominator only moves the exponent. -/
theorem log2Quotient_mul_twoTo (hn : n ≠ 0) (j : Nat) :
    log2Quotient (n * twoTo j) (twoTo j) = Nat.log2 n := by
  have hguess : ((Nat.log2 (n * twoTo j) : Nat) : Int) - Nat.log2 (twoTo j) = Nat.log2 n := by
    rw [log2_mul_twoTo hn, twoTo_eq, Nat.log2_two_pow]
    omega
  unfold log2Quotient
  dsimp only
  rw [hguess, if_pos]
  have hle : twoTo (Nat.log2 n) ≤ n := Nat.log2_self_le hn
  have hone : twoTo (-(Nat.log2 n : Int)).toNat = 1 := by
    rw [show (-(Nat.log2 n : Int)).toNat = 0 by omega]
    rfl
  rw [hone, Nat.mul_one, Int.toNat_natCast, Nat.mul_comm n]
  exact Nat.mul_le_mul_left _ hle

theorem nearestBits_mul_twoTo (hn : n ≠ 0) (j : Nat) :
    nearestBits (n * twoTo j) (twoTo j) = (Nat.log2 n + 1022) * 2 ^ 52 + mantissaOf n := by
  have hunit : max ((Nat.log2 n : Int) - 52) (-1074) = (Nat.log2 n : Int) - 52 :=
    max_eq_left (by omega)
  unfold nearestBits
  rw [if_neg (Nat.mul_pos (Nat.pos_of_ne_zero hn) (twoTo_pos j)).ne', log2Quotient_mul_twoTo hn,
    hunit]
  dsimp only
  rw [show (-((Nat.log2 n : Int) - 52)).toNat = 52 - Nat.log2 n by omega,
    show ((Nat.log2 n : Int) - 52).toNat = place n by unfold place; omega,
    show ((Nat.log2 n : Int) - 52 + 1074).toNat = Nat.log2 n + 1022 by omega,
    Nat.mul_right_comm, Nat.mul_comm (twoTo j), divHalfEven_mul_mul (twoTo_pos j)]
  rfl

/-- The exponent field is full when the nearest number is no less than `2 ^ 1024`. -/
theorem bits_lt_iff (hn : n ≠ 0) :
    (Nat.log2 n + 1022) * 2 ^ 52 + mantissaOf n < infinityBits ↔ nearestNat n < 2 ^ 1024 := by
  have hlow := le_mantissaOf hn
  have hup := mantissaOf_le n
  have hfull : infinityBits = 2047 * 2 ^ 52 := rfl
  rw [nearestNat_lt_iff hn, hfull]
  unfold carry
  split <;> omega

/-- The double is the given whole number. -/
def IsWhole (x : Float) (n : Int) : Prop := (parts x).value? = some (ofRat n)

theorem isWhole_of_parts {x : Float} {n : Int} {p : Parts} (h : parts x = p)
    (hp : p.value? = some (ofRat n)) : IsWhole x n := by
  unfold IsWhole
  rw [h, hp]

theorem nearestNat_zero : nearestNat 0 = 0 := by decide

theorem signed_mul_of_mul {m k : Nat} {q : ℚ} (h : (m : ℚ) * q = k) (negative : Bool) :
    (signed negative m : ℚ) * q = signed negative k := by
  cases negative
  · exact h
  · show ((-(m : Int) : Int) : ℚ) * q = (-(k : Int) : Int)
    push_cast
    rw [neg_mul, h]

/-- The double nearest to a natural number, with a sign, is the nearest whole number. -/
theorem nearest?_of_lt (h : nearestNat n < 2 ^ 1024) (negative : Bool) (j : Nat) :
    ∃ x, nearest? negative (n * twoTo j) (twoTo j) = some x ∧
      IsWhole x (signed negative (nearestNat n)) := by
  by_cases hn : n = 0
  · subst hn
    have hbits : nearestBits (0 * twoTo j) (twoTo j) = 0 := by
      rw [Nat.zero_mul]
      rfl
    refine ⟨_, by unfold nearest?; rw [hbits]; exact if_pos (by decide), ?_⟩
    refine isWhole_of_parts (p := .finite negative 0 (-1074)) ?_ ?_
    · refine parts_ofBits_signed (by decide) ⟨⟨by decide, le_rfl, .inr rfl⟩, by decide⟩ ?_
      intro s b hs hb
      rw [partsOf_unpack_components s (by decide) hb, hs]
      rfl
    · show some (ofRat (signed negative 0 * 2 ^ (-1074 : Int))) = _
      rw [nearestNat_zero, signed_mul_of_mul (k := 0) (by simp)]
  · have hbits := nearestBits_mul_twoTo hn j
    have hlt := (bits_lt_iff hn).mpr h
    have hlow := le_mantissaOf hn
    have hup := mantissaOf_le n
    have hsmall : (Nat.log2 n + 1022) * 2 ^ 52 + mantissaOf n < 2047 * 2 ^ 52 := hlt
    refine ⟨_, by unfold nearest?; rw [hbits]; exact if_pos hlt, ?_⟩
    refine isWhole_of_parts (parts_ofBits_signed (p := carried negative (mantissaOf n)
      (((Nat.log2 n + 1022 : Nat) : Int) - 1074)) (by omega) ?_ ?_) ?_
    · have hcarry := (nearestNat_lt_iff hn 1024).mp h
      exact storable_carried negative hlow hup (by omega) (by omega)
    · intro s b hs hb
      rw [partsOf_unpack_carried hlow hup hlt hb, hs]
    · have hexp : ((Nat.log2 n + 1022 : Nat) : Int) - 1074 = (Nat.log2 n : Int) - 52 := by omega
      rw [value?_carried, hexp, signed_mul_of_mul (mantissaOf_mul_zpow n)]

theorem ne_zero_of_two_pow_le {k : Nat} (h : 2 ^ k ≤ nearestNat n) : n ≠ 0 := by
  intro hn
  rw [hn, nearestNat_zero] at h
  exact absurd h (Nat.not_le_of_lt (Nat.two_pow_pos k))

theorem nearest?_of_le (h : 2 ^ 1024 ≤ nearestNat n) (negative : Bool) (j : Nat) :
    nearest? negative (n * twoTo j) (twoTo j) = none := by
  have hbits : ¬nearestBits (n * twoTo j) (twoTo j) < infinityBits := by
    rw [nearestBits_mul_twoTo (ne_zero_of_two_pow_le h), bits_lt_iff (ne_zero_of_two_pow_le h)]
    exact Nat.not_lt.mpr h
  exact if_neg hbits

end LiveForm.Binary
