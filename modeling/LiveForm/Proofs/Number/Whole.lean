import LiveForm.Proofs.Number.Nearest
import Mathlib.Data.Rat.Floor

/-! # Whole doubles

What is read off a double that is a whole number is exact: its floor, the whole number that it is, and
its remainder by another one. -/

namespace LiveForm.Binary

open Extended

variable {x y : Float} {a b : Int} {negative : Bool} {m : Nat} {e : Int} {q : ℚ}

theorem signed_mul (negative : Bool) (m k : Nat) :
    signed negative (m * k) = signed negative m * (k : Int) := by
  cases negative
  · exact Int.natCast_mul m k
  · show -((m * k : Nat) : Int) = -(m : Int) * k
    rw [Int.natCast_mul, Int.neg_mul]

theorem natAbs_signed (negative : Bool) (m : Nat) : (signed negative m).natAbs = m := by
  cases negative
  · rfl
  · exact Int.natAbs_neg m

/-- The value of finite parts without fractions: both sides are multiplied by the denominator. -/
theorem signed_mul_twoTo (h : (signed negative m : ℚ) * 2 ^ e = a) :
    signed negative (m * twoTo e.toNat) = a * (twoTo (-e).toNat : Int) := by
  have hscaled : (signed negative m : ℚ) * (twoTo e.toNat : Nat) = a * (twoTo (-e).toNat : Nat) := by
    rw [← h, mul_assoc, zpow_mul_twoTo]
  rw [signed_mul]
  exact_mod_cast hscaled

theorem exists_finite (h : (parts x).value? = some (ofRat q)) :
    ∃ negative m e, parts x = .finite negative m e ∧ (signed negative m : ℚ) * 2 ^ e = q := by
  cases hp : parts x with
  | notNumber =>
    rw [hp] at h
    cases h
  | infinite negative =>
    rw [hp] at h
    cases negative <;> cases h
  | finite negative m e =>
    rw [hp] at h
    exact ⟨negative, m, e, rfl, ofRat_inj.mp (Option.some.inj h)⟩

/-- The parts of a whole double. -/
structure WholeParts (x : Float) (a : Int) (negative : Bool) (m : Nat) (e : Int) : Prop where
  parts : parts x = .finite negative m e
  signed : signed negative (m * twoTo e.toNat) = a * (twoTo (-e).toNat : Int)

theorem exists_wholeParts (h : IsWhole x a) : ∃ negative m e, WholeParts x a negative m e := by
  obtain ⟨negative, m, e, hp, hvalue⟩ := exists_finite h
  exact ⟨negative, m, e, hp, signed_mul_twoTo hvalue⟩

namespace WholeParts

variable (h : WholeParts x a negative m e)
include h

theorem lt : m < 2 ^ 53 := (storable_of_parts h.parts).1.1

theorem natAbs : m * twoTo e.toNat = a.natAbs * twoTo (-e).toNat := by
  have habs := congrArg Int.natAbs h.signed
  rwa [natAbs_signed, Int.natAbs_mul, Int.natAbs_natCast] at habs

theorem signed_natAbs : Binary.signed negative a.natAbs = a := by
  have hsigned := h.signed
  rw [h.natAbs, signed_mul] at hsigned
  exact Int.eq_of_mul_eq_mul_right (mod_cast (twoTo_pos _).ne') hsigned

theorem natAbs_lt : a.natAbs < 2 ^ 1024 := by
  have hexp : 53 + e.toNat ≤ 1024 := by
    have he := (storable_of_parts h.parts).2
    omega
  have hlt : a.natAbs < 2 ^ (53 + e.toNat) := by
    calc a.natAbs ≤ a.natAbs * twoTo (-e).toNat := Nat.le_mul_of_pos_right _ (twoTo_pos _)
      _ = m * 2 ^ e.toNat := h.natAbs.symm
      _ < 2 ^ 53 * 2 ^ e.toNat := Nat.mul_lt_mul_of_pos_right h.lt (Nat.two_pow_pos _)
      _ = 2 ^ (53 + e.toNat) := (Nat.pow_add _ _ _).symm
  exact hlt.trans_le (pow_le_pow_right₀ one_le_two hexp)

/-- The whole number at any smaller unit. -/
theorem natAbs_at {unit : Int} (hunit : unit ≤ e) :
    m * twoTo (e - unit).toNat * twoTo unit.toNat = a.natAbs * twoTo (-unit).toNat := by
  have hpow : (e - unit).toNat + unit.toNat + (-e).toNat = e.toNat + (-unit).toNat := by omega
  refine Nat.eq_of_mul_eq_mul_right (twoTo_pos (-e).toNat) ?_
  calc m * twoTo (e - unit).toNat * twoTo unit.toNat * twoTo (-e).toNat
      = m * 2 ^ ((e - unit).toNat + unit.toNat + (-e).toNat) := by
        rw [Nat.pow_add, Nat.pow_add, Nat.mul_assoc, Nat.mul_assoc, Nat.mul_assoc]
        rfl
    _ = m * twoTo e.toNat * twoTo (-unit).toNat := by
        rw [hpow, Nat.pow_add, ← Nat.mul_assoc]
        rfl
    _ = a.natAbs * twoTo (-unit).toNat * twoTo (-e).toNat := by
        rw [h.natAbs, Nat.mul_right_comm]

end WholeParts

theorem twoTo_toNat_of_nonpos (he : e ≤ 0) : twoTo e.toNat = 1 := by
  rw [Int.toNat_of_nonpos he]
  rfl

theorem significant_of_scaled {k : Nat} (hm : m < 2 ^ 53)
    (h : m * twoTo e.toNat = k * twoTo (-e).toNat) : Significant k := by
  rcases le_total 0 e with he | he
  · rw [twoTo_toNat_of_nonpos (Int.neg_nonpos_of_nonneg he), Nat.mul_one] at h
    exact ⟨m, e.toNat, hm, h.symm⟩
  · rw [twoTo_toNat_of_nonpos he, Nat.mul_one] at h
    have hle : k ≤ m := h ▸ Nat.le_mul_of_pos_right _ (twoTo_pos _)
    exact ⟨k, 0, hle.trans_lt hm, (Nat.mul_one _).symm⟩

theorem significant_of_isWhole (h : IsWhole x a) : Significant a.natAbs := by
  obtain ⟨negative, m, e, hx⟩ := exists_wholeParts h
  exact significant_of_scaled hx.lt hx.natAbs

/-! ## What is read off -/

theorem isFinite_of_value? (h : (parts x).value? = some (ofRat q)) : isFinite x = true := by
  obtain ⟨negative, m, e, hp, -⟩ := exists_finite h
  unfold isFinite
  rw [hp]

theorem floor?_of_value? (h : (parts x).value? = some (ofRat q)) : floor? x = some ⌊q⌋ := by
  obtain ⟨negative, m, e, hp, rfl⟩ := exists_finite h
  have hpos : ((twoTo (-e).toNat : Nat) : ℚ) ≠ 0 := mod_cast (twoTo_pos _).ne'
  have hvalue : (signed negative m : ℚ) * 2 ^ e =
      (signed negative (m * twoTo e.toNat) : Int) / ((twoTo (-e).toNat : Nat) : ℚ) := by
    rw [eq_div_iff hpos, mul_assoc, zpow_mul_twoTo, signed_mul]
    push_cast
    rfl
  unfold floor? toIntWith
  rw [hvalue, hp, Rat.floor_intCast_div_natCast]
  exact congrArg some (Int.fdiv_eq_ediv_of_nonneg _ (Int.natCast_nonneg _))

theorem exactInt?_of_isWhole (h : IsWhole x a) : exactInt? x = some a := by
  obtain ⟨negative, m, e, hx⟩ := exists_wholeParts h
  have hdvd : m % twoTo (-e).toNat = 0 := by
    rcases le_total 0 e with he | he
    · rw [twoTo_toNat_of_nonpos (Int.neg_nonpos_of_nonneg he), Nat.mod_one]
    · have habs := hx.natAbs
      rw [twoTo_toNat_of_nonpos he, Nat.mul_one] at habs
      rw [habs, Nat.mul_mod_left]
  unfold exactInt?
  rw [hx.parts]
  dsimp only
  rw [if_pos hdvd, hx.natAbs, Nat.mul_div_cancel _ (twoTo_pos _), hx.signed_natAbs]

theorem signed_mod (ha : signed negative a.natAbs = a) (b : Int) :
    signed negative (a.natAbs % b.natAbs) = a.tmod b := by
  have habs (k : Nat) : ((k % b.natAbs : Nat) : Int) = (k : Int).tmod b := by
    rw [Int.natCast_mod, Int.natCast_natAbs, Int.emod_abs, Int.tmod_eq_emod_of_nonneg]
    exact Int.natCast_nonneg k
  cases negative
  · have ha : (a.natAbs : Int) = a := ha
    exact (habs _).trans (by rw [ha])
  · have ha : -(a.natAbs : Int) = a := ha
    show -((a.natAbs % b.natAbs : Nat) : Int) = _
    rw [habs, ← Int.neg_tmod, ha]

/-- The remainder of two whole doubles is taken without rounding: its mantissa has no more bits than
that of the operand with the smaller unit. -/
theorem remainder?_of_isWhole (hx : IsWhole x a) (hy : IsWhole y b) (hb : b ≠ 0) :
    ∃ r, remainder? x y = some r ∧ IsWhole r (a.tmod b) := by
  obtain ⟨negative, m, e, hx⟩ := exists_wholeParts hx
  obtain ⟨negative', n, f, hy⟩ := exists_wholeParts hy
  have hn : n ≠ 0 := by
    intro hzero
    have habs := hy.natAbs
    rw [hzero, Nat.zero_mul] at habs
    exact hb (Int.natAbs_eq_zero.mp
      ((Nat.mul_eq_zero.mp habs.symm).resolve_right (twoTo_pos _).ne'))
  have hscaled : (m * twoTo (e - min e f).toNat) % (n * twoTo (f - min e f).toNat) *
      twoTo (min e f).toNat = a.natAbs % b.natAbs * twoTo (-min e f).toNat := by
    rw [← Nat.mul_mod_mul_right, ← Nat.mul_mod_mul_right, hx.natAbs_at (min_le_left e f),
      hy.natAbs_at (min_le_right e f)]
  have hlt : (m * twoTo (e - min e f).toNat) % (n * twoTo (f - min e f).toNat) < 2 ^ 53 := by
    rcases le_total e f with hle | hle
    · rw [min_eq_left hle, twoTo_toNat_of_nonpos (e := e - e) (by omega), Nat.mul_one]
      exact (Nat.mod_le _ _).trans_lt hx.lt
    · rw [min_eq_right hle, twoTo_toNat_of_nonpos (e := f - f) (by omega), Nat.mul_one]
      exact (Nat.mod_lt _ (Nat.pos_of_ne_zero hn)).trans hy.lt
  have hbits := (significant_of_scaled hlt hscaled).nearestNat_eq
  have hrange : nearestNat (a.natAbs % b.natAbs) < 2 ^ 1024 := by
    rw [hbits]
    exact (Nat.mod_le _ _).trans_lt hx.natAbs_lt
  obtain ⟨r, hr, hwhole⟩ := nearest?_of_lt hrange negative (-min e f).toNat
  rw [hbits, signed_mod hx.signed_natAbs b] at hwhole
  refine ⟨r, ?_, hwhole⟩
  unfold remainder?
  rw [hx.parts, hy.parts]
  dsimp only
  rw [if_neg hn, hscaled, hr]

end LiveForm.Binary
