import LiveForm.Number.Arithmetic
import LiveForm.Proofs.Number.Parts
import Mathlib.Algebra.Order.Field.Power
import Mathlib.Algebra.Order.Ring.Rat
import Mathlib.Data.Rat.Cast.Order
import Mathlib.Order.Compare
import Mathlib.Order.WithBot
import Mathlib.Tactic.GCongr
import Mathlib.Tactic.Positivity
import Mathlib.Tactic.Ring

/-! # The exact value of a number

A number is a fraction, one of the two infinities, or undefined. Comparison is exact: it is the order of
these values, for whole numbers of any size and doubles in every mixture. -/

namespace LiveForm

/-- The fractions between two infinities. -/
abbrev Extended := WithBot (WithTop ℚ)

namespace Extended

def ofRat (q : ℚ) : Extended := ((q : WithTop ℚ) : WithBot (WithTop ℚ))

variable {p q : ℚ}

@[simp] theorem ofRat_lt : ofRat p < ofRat q ↔ p < q := by simp [ofRat]

@[simp] theorem ofRat_le : ofRat p ≤ ofRat q ↔ p ≤ q := by simp [ofRat]

@[simp] theorem ofRat_inj : ofRat p = ofRat q ↔ p = q := by simp [ofRat]

@[simp] theorem bot_lt_ofRat (p : ℚ) : ⊥ < ofRat p := WithBot.bot_lt_coe _

@[simp] theorem ofRat_lt_top (p : ℚ) : ofRat p < ⊤ := by
  show ((p : WithTop ℚ) : WithBot (WithTop ℚ)) < ((⊤ : WithTop ℚ) : WithBot (WithTop ℚ))
  exact WithBot.coe_lt_coe.mpr (WithTop.coe_lt_top p)

theorem ofRat_strictMono : StrictMono ofRat := fun _ _ h => ofRat_lt.mpr h

theorem ofRat_neg_strictAnti : StrictAnti fun q => ofRat (-q) :=
  fun _ _ h => ofRat_lt.mpr (neg_lt_neg h)

end Extended

namespace Binary

open Extended
open Float.Model (UnpackedFloat)
open Float.Model.UnpackedFloat (Sign)

def Parts.value? : Parts → Option Extended
  | .notNumber => none
  | .infinite negative => some (if negative then ⊥ else ⊤)
  | .finite negative m e => some (ofRat (signed negative m * 2 ^ e))

/-- The value of a double that the logic has taken apart, with its sign written out. -/
inductive Stands : UnpackedFloat → Extended → Prop
  | bot : Stands (.infinity .negative) ⊥
  | top : Stands (.infinity .positive) ⊤
  | zero (s : Sign) : Stands (.zero s) (ofRat 0)
  | negative {m : ℕ} {e : ℤ} (hm : 0 < m) :
      Stands (.finite .negative m e hm) (ofRat (-(m * 2 ^ e)))
  | positive {m : ℕ} {e : ℤ} (hm : 0 < m) :
      Stands (.finite .positive m e hm) (ofRat (m * 2 ^ e))

section Doubles

variable {m n : ℕ} {e f : ℤ}

theorem stands_of_value? {a : UnpackedFloat} {p : Extended} (h : (partsOf a).value? = some p) :
    Stands a p := by
  cases a with
  | notANumber => cases h
  | infinity s =>
    obtain rfl := Option.some.inj h
    cases s
    · exact .bot
    · exact .top
  | zero s =>
    have hzero : (partsOf (.zero s)).value? = some (ofRat 0) := by
      show some (ofRat (signed (isNegative s) 0 * 2 ^ (-1074 : ℤ))) = _
      simp [signed]
    obtain rfl := Option.some.inj (hzero.symm.trans h)
    exact .zero s
  | finite s m e hm =>
    cases s
    · have hneg : (partsOf (.finite .negative m e hm)).value? = some (ofRat (-(m * 2 ^ e))) := by
        show some (ofRat (signed true m * 2 ^ e)) = _
        simp [signed]
      obtain rfl := Option.some.inj (hneg.symm.trans h)
      exact .negative hm
    · have hpos : (partsOf (.finite .positive m e hm)).value? = some (ofRat (m * 2 ^ e)) := by
        show some (ofRat (signed false m * 2 ^ e)) = _
        simp [signed]
      obtain rfl := Option.some.inj (hpos.symm.trans h)
      exact .positive hm

/-- The double with the greater exponent is the farther one from zero, whatever the mantissas. -/
theorem value_lt_of_exponent_lt (hm : m < 2 ^ 53) (hn : 2 ^ 52 ≤ n) (he : e < f) :
    (m : ℚ) * 2 ^ e < n * 2 ^ f := by
  have hm : (m : ℚ) < 2 ^ 53 := mod_cast hm
  have hn : (2 ^ 52 : ℚ) ≤ n := mod_cast hn
  calc (m : ℚ) * 2 ^ e < 2 ^ 53 * 2 ^ e := by gcongr
    _ = 2 ^ 52 * 2 ^ (e + 1) := by rw [zpow_add_one₀ (by norm_num)]; ring
    _ ≤ 2 ^ 52 * 2 ^ f := by
      gcongr
      · norm_num
      · omega
    _ ≤ n * 2 ^ f := by gcongr

/-- Distances from zero compare by the exponents first. -/
theorem compares_distances {s t : Bool} (h₁ : Canonical (.finite s m e))
    (h₂ : Canonical (.finite t n f)) :
    ((compare e f).then (compare m n)).Compares ((m : ℚ) * 2 ^ e) (n * 2 ^ f) := by
  obtain ⟨hm, hle, he⟩ := h₁
  obtain ⟨hn, hlf, hf⟩ := h₂
  rcases lt_trichotomy e f with hlt | rfl | hlt
  · rw [compare_lt_iff_lt.mpr hlt]
    exact value_lt_of_exponent_lt hm (by omega) hlt
  · rw [compare_eq_iff_eq.mpr rfl]
    have hmono : StrictMono fun k : ℕ => (k : ℚ) * 2 ^ e :=
      fun _ _ h => mul_lt_mul_of_pos_right (mod_cast h) (by positivity)
    exact hmono.compares.mpr ((compare_iff m n).mp rfl)
  · rw [compare_gt_iff_gt.mpr hlt]
    exact value_lt_of_exponent_lt hn (by omega) hlt

/-- The order that the logic gives to doubles is that of their values. The cases are the kinds of
double on either side; only two that are finite and have one sign are told apart by their parts. -/
theorem unpacked_compares {a b : UnpackedFloat} {p q : Extended} (ha : Canonical (partsOf a))
    (hb : Canonical (partsOf b)) (hp : Stands a p) (hq : Stands b q) :
    ∃ o, a.compare b = some o ∧ o.Compares p q := by
  have hpos {m : ℕ} {e : ℤ} (hm : 0 < m) : (0 : ℚ) < m * 2 ^ e := by positivity
  have hneg {m : ℕ} {e : ℤ} (hm : 0 < m) : -(m * 2 ^ e : ℚ) < 0 := neg_lt_zero.mpr (hpos hm)
  cases hp with
  | bot =>
    cases hq with
    | bot => exact ⟨.eq, rfl, rfl⟩
    | top => exact ⟨.lt, rfl, bot_lt_top⟩
    | _ => exact ⟨.lt, rfl, bot_lt_ofRat _⟩
  | top =>
    cases hq with
    | bot => exact ⟨.gt, rfl, bot_lt_top⟩
    | top => exact ⟨.eq, rfl, rfl⟩
    | _ => exact ⟨.gt, rfl, ofRat_lt_top _⟩
  | zero s =>
    cases hq with
    | bot => exact ⟨.gt, rfl, bot_lt_ofRat _⟩
    | top => exact ⟨.lt, rfl, ofRat_lt_top _⟩
    | zero t => exact ⟨.eq, rfl, rfl⟩
    | negative hn => exact ⟨.gt, rfl, ofRat_lt.mpr (hneg hn)⟩
    | positive hn => exact ⟨.lt, rfl, ofRat_lt.mpr (hpos hn)⟩
  | negative hm =>
    cases hq with
    | bot => exact ⟨.gt, rfl, bot_lt_ofRat _⟩
    | top => exact ⟨.lt, rfl, ofRat_lt_top _⟩
    | zero t => exact ⟨.lt, rfl, ofRat_lt.mpr (hneg hm)⟩
    | negative hn => exact ⟨_, rfl, ofRat_neg_strictAnti.compares.mpr (compares_distances ha hb).swap⟩
    | positive hn => exact ⟨.lt, rfl, ofRat_lt.mpr ((hneg hm).trans (hpos hn))⟩
  | positive hm =>
    cases hq with
    | bot => exact ⟨.gt, rfl, bot_lt_ofRat _⟩
    | top => exact ⟨.lt, rfl, ofRat_lt_top _⟩
    | zero t => exact ⟨.gt, rfl, ofRat_lt.mpr (hpos hm)⟩
    | negative hn => exact ⟨.gt, rfl, ofRat_lt.mpr ((hneg hn).trans (hpos hm))⟩
    | positive hn => exact ⟨_, rfl, ofRat_strictMono.compares.mpr (compares_distances ha hb)⟩

end Doubles

section Comparison

variable {x y : Float} {p q : Extended} {n : Int}

theorem compareFloat_compares (hp : (parts x).value? = some p) (hq : (parts y).value? = some q) :
    ∃ o, compareFloat x y = some o ∧ o.Compares p q := by
  have hx := canonical_parts x
  have hy := canonical_parts y
  rw [parts_eq] at hp hq hx hy
  obtain ⟨o, ho, hc⟩ := unpacked_compares hx hy (stands_of_value? hp) (stands_of_value? hq)
  obtain ⟨o', ho', hc'⟩ := unpacked_compares hy hx (stands_of_value? hq) (stands_of_value? hp)
  have hlt : x < y ↔ o = .lt := by
    show decide (x.toModel.unpack.compare y.toModel.unpack == some .lt) = true ↔ _
    simp [ho]
  have hgt : y < x ↔ q < p := by
    show decide (y.toModel.unpack.compare x.toModel.unpack == some .lt) = true ↔ _
    simp [ho', hc'.eq_lt]
  have heq : x == y ↔ o = .eq := by
    show (x.toModel.unpack.compare y.toModel.unpack == some .eq) = true ↔ _
    simp [ho]
  refine ⟨o, ?_, hc⟩
  unfold compareFloat
  cases o with
  | lt => rw [if_pos (hlt.mpr rfl)]
  | eq =>
    have hpq : p = q := hc
    rw [if_neg (by simp [hlt]), if_neg (by simp [hgt, hpq]), if_pos (heq.mpr rfl)]
  | gt => rw [if_neg (by simp [hlt]), if_pos (hgt.mpr hc)]

/-- Of the two powers of two that an exponent stands for, one above and one below the line, one is 1. -/
theorem zpow_mul_twoTo (e : Int) : (2 : ℚ) ^ e * (twoTo (-e).toNat : ℕ) = (twoTo e.toNat : ℕ) := by
  have htwo (n : ℕ) : ((twoTo n : ℕ) : ℚ) = 2 ^ (n : ℤ) := by
    show ((2 ^ n : ℕ) : ℚ) = _
    push_cast
    rw [zpow_natCast]
  rw [htwo, htwo, ← zpow_add₀ (by norm_num)]
  congr 1
  omega

theorem compareInt_compares (hq : (parts x).value? = some q) :
    ∃ o, compareInt n x = some o ∧ o.Compares (ofRat n) q := by
  unfold compareInt
  cases h : parts x with
  | notNumber =>
    rw [h] at hq
    cases hq
  | infinite negative =>
    rw [h] at hq
    obtain rfl := Option.some.inj hq
    cases negative
    · exact ⟨.lt, rfl, ofRat_lt_top _⟩
    · exact ⟨.gt, rfl, bot_lt_ofRat _⟩
  | finite negative m e =>
    rw [h] at hq
    obtain rfl := Option.some.inj hq
    refine ⟨_, rfl, ofRat_strictMono.compares.mpr ?_⟩
    -- Both sides are compared as multiples of the smaller unit.
    have hunit : (0 : ℚ) < (twoTo (-e).toNat : ℕ) := by
      have : 0 < twoTo (-e).toNat := Nat.pow_pos (by decide)
      exact_mod_cast this
    have hscale : ((signed negative (m * twoTo e.toNat) : Int) : ℚ) =
        (signed negative m * 2 ^ e) * (twoTo (-e).toNat : ℕ) := by
      rw [mul_assoc, zpow_mul_twoTo]
      unfold signed
      split <;> push_cast <;> ring
    have hleft : ((n * (twoTo (-e).toNat : Int) : Int) : ℚ) = n * (twoTo (-e).toNat : ℕ) := by
      push_cast
      ring
    have hc := (Int.cast_strictMono (R := ℚ)).compares.mpr ((compare_iff
      (n * (twoTo (-e).toNat : Int)) (signed negative (m * twoTo e.toNat))).mp rfl)
    rw [hleft, hscale] at hc
    exact (strictMono_mul_right_of_pos hunit).compares.mp hc

end Comparison

end Binary

namespace Number

open Extended

/-- The exact value of a number; the undefined number has none. -/
def value? : Number → Option Extended
  | .int n => some (ofRat n)
  | .float x => (Binary.parts x).value?

theorem value?_float {x : Float} {m : Nat} {e : Int} {q : ℚ} (h : Binary.parts x = .finite false m e)
    (hq : m * 2 ^ e = q) : (Number.float x).value? = some (ofRat q) := by
  rw [value?, h, ← hq]
  rfl

variable {a b : Number} {p q : Extended}

/-- **Numbers are compared by their exact values.** -/
theorem compare?_compares (hp : a.value? = some p) (hq : b.value? = some q) :
    ∃ o, a.compare? b = some o ∧ o.Compares p q := by
  cases a with
  | int m =>
    obtain rfl := Option.some.inj hp
    cases b with
    | int n =>
      obtain rfl := Option.some.inj hq
      have hc := (Int.cast_strictMono (R := ℚ)).compares.mpr ((compare_iff m n).mp rfl)
      exact ⟨_, rfl, ofRat_strictMono.compares.mpr hc⟩
    | float y => exact Binary.compareInt_compares hq
  | float x =>
    cases b with
    | int n =>
      obtain rfl := Option.some.inj hq
      obtain ⟨o, ho, hc⟩ := Binary.compareInt_compares (n := n) hp
      exact ⟨o.swap, congrArg (Option.map Ordering.swap) ho, hc.swap⟩
    | float y => exact Binary.compareFloat_compares hp hq

theorem ge_iff (hp : a.value? = some p) (hq : b.value? = some q) : a.ge b = true ↔ q ≤ p := by
  obtain ⟨o, ho, hc⟩ := compare?_compares hp hq
  unfold ge gt
  rw [ho]
  cases o with
  | lt => exact iff_of_false (by decide) (not_le.mpr hc)
  | eq => exact iff_of_true (by decide) (le_of_eq (Eq.symm hc))
  | gt => exact iff_of_true (by decide) (le_of_lt hc)

end Number

end LiveForm
