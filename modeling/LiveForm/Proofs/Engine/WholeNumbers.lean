import LiveForm.Proofs.Engine.Escape
import LiveForm.Proofs.Number.Rounding

/-! # Arithmetic of whole numbers

Sums, differences, products, floors, ceilings and distances from zero of whole numbers are exact, however
large they are. A remainder is the exact one of the nearest doubles, and rounding adds a half to the
nearest double; both fail when there is none. -/

namespace LiveForm

namespace Expr

variable {room : Nat} {scope : Scope} {x y : Expr} {v w : Value}

theorem outcome_binary {op : BinaryOp} (hand : op ≠ .and) (hor : op ≠ .or)
    (hx : HasValue room scope x v) (hy : HasValue room scope y w) :
    ((binary op x y).evaluateWithin (room + 1) scope).outcome = applyBinary room op v w := by
  rw [evaluateWithin_binary hand hor, Reading.outcome_bind_of_ok hx, Reading.outcome_bind_of_ok hy]
  rfl

theorem outcome_call_singleton {function : String} (hf : function ≠ Builtin.lazyChoice)
    (hx : HasValue room scope x v) :
    ((call function [x]).evaluateWithin (room + 1) scope).outcome =
      Builtin.callWithin room function [v] := by
  have hargs : (evaluateAll room scope [x]).outcome = .ok [v] := by
    rw [evaluateAll, Reading.outcome_bind_of_ok hx]
    rfl
  rw [evaluateWithin, if_neg hf, Reading.outcome_bind_of_ok hargs]
  rfl

end Expr

theorem finalize_of_isWhole {r : Float} {n : Int} (h : Binary.IsWhole r n) :
    finalize (.float r) = .ok (.int n) := by
  obtain ⟨negative, m, e, hparts, -⟩ := Binary.exists_finite h
  have hnan : ¬r.isNaN = true := Binary.not_isNaN (by rw [hparts]; nofun)
  have hinf : ¬r.isInf = true := by
    rw [Binary.isInf_iff, hparts]
    rintro ⟨_, h⟩
    cases h
  unfold finalize
  dsimp only
  rw [if_neg hnan, if_neg hinf, Binary.exactInt?_of_isWhole h]

namespace Engine

open Binary

variable {room : Nat} {scope : Scope} {e x y : Expr} {v : Value} {f : Fault} {a b : Int}

/-- The tree has the value in so much room, and so has the answer to a text that is read as the tree,
if an engine has that room. -/
structure Yields (room : Nat) (scope : Scope) (e : Expr) (v : Value) : Prop where
  outcome : outcome room scope e = .ok (.ok v, e.reads room scope)
  reply : room = depthLimit → ∀ text, Expr.parse text = .ok e →
    reply text scope = .ok ⟨v, none, e.reads room scope⟩

/-- The tree fails, and the answer to a text that is read as the tree says why. -/
structure Fails (room : Nat) (scope : Scope) (e : Expr) (f : Fault) : Prop where
  outcome : outcome room scope e = .ok (.error f.message, [])
  reply : room = depthLimit → ∀ text, Expr.parse text = .ok e →
    reply text scope = failedReply text f.message

theorem yields_of_result (h : (e.evaluateWithin room scope).outcome >>= finalize = .ok v) :
    Yields room scope e v := by
  have hout : outcome room scope e = .ok (.ok v, e.reads room scope) := by
    unfold outcome
    dsimp only
    rw [h]
    rfl
  refine ⟨hout, fun hroom text hp => ?_⟩
  subst hroom
  unfold reply
  rw [hp]
  dsimp only
  rw [hout]

theorem fails_of_outcome (h : (e.evaluateWithin room scope).outcome = .error f)
    (hf : ∀ c, f ≠ .abort c) : Fails room scope e f := by
  have hout : outcome room scope e = .ok (.error f.message, []) := by
    unfold outcome
    dsimp only
    rw [h]
    cases f with
    | abort c => exact absurd rfl (hf c)
    | _ => rfl
  refine ⟨hout, fun hroom text hp => ?_⟩
  subst hroom
  unfold reply
  rw [hp]
  dsimp only
  rw [hout]

/-! ## The operations -/

/-- The nearest double of a whole number is not beyond the largest one. -/
def HasDouble (a : Int) : Prop := (nearestInt a).natAbs < 2 ^ 1024

theorem hasDouble_of_natAbs_lt {k : Nat} (hk : k < 1024) (h : a.natAbs < 2 ^ k) : HasDouble a := by
  unfold HasDouble
  rw [natAbs_nearestInt]
  by_cases h0 : a.natAbs = 0
  · rw [h0, nearestNat_zero]
    exact pow_pos two_pos 1024
  · have hlog := (Nat.log2_lt h0).mpr h
    have hcarry := carry_le (mantissaOf a.natAbs)
    exact (nearestNat_lt_iff h0 1024).mpr (by omega)

section Operations

theorem call_round (a : Int) : Builtin.callWithin room "round" [.int a] =
    match Builtin.numeric (Number.round (.int a)) with
    | .error (.abort .depth) => .error (.abort .depth)
    | .error (.abort _) => .error (.callFailed "round")
    | r => r := rfl

variable {n : Int} (hx : Expr.HasValue room scope x (.int a))
  (hy : Expr.HasValue room scope y (.int b))
include hx

theorem yields_call {function : String} (hf : function ≠ Builtin.lazyChoice)
    (h : Builtin.callWithin room function [.int a] = .ok (.int n)) :
    Yields (room + 1) scope (.call function [x]) (.int n) :=
  yields_of_result (by rw [Expr.outcome_call_singleton hf hx, h]; rfl)

theorem yields_round (ha : HasDouble a) :
    Yields (room + 1) scope (.call "round" [x]) (.int (withHalf (nearestInt a))) := by
  refine yields_call hx (by decide) ?_
  rw [call_round, Number.round_int ha]
  rfl

theorem fails_round (ha : ¬HasDouble a) :
    Fails (room + 1) scope (.call "round" [x]) (.callFailed "round") := by
  refine fails_of_outcome ?_ nofun
  rw [Expr.outcome_call_singleton (by decide) hx, call_round,
    Number.round_int_of_le (Nat.le_of_not_lt ha)]
  rfl

include hy

theorem yields_binary {op : BinaryOp} (hand : op ≠ .and) (hor : op ≠ .or)
    (h : applyBinary room op (.int a) (.int b) = .ok (.int n)) :
    Yields (room + 1) scope (.binary op x y) (.int n) :=
  yields_of_result (by rw [Expr.outcome_binary hand hor hx hy, h]; rfl)

theorem outcome_rem (h0 : b ≠ 0) :
    ((Expr.binary .rem x y).evaluateWithin (room + 1) scope).outcome =
      ranged "%" (Number.rem (.int a) (.int b)) := by
  rw [Expr.outcome_binary (by decide) (by decide) hx hy]
  exact if_neg (by simpa [Number.isZero] using h0)

theorem yields_rem (h0 : b ≠ 0) (ha : HasDouble a) (hb : HasDouble b) :
    Yields (room + 1) scope (.binary .rem x y) (.int ((nearestInt a).tmod (nearestInt b))) := by
  obtain ⟨r, hr, hwhole⟩ := Number.rem_int ha hb h0
  refine yields_of_result ?_
  rw [outcome_rem hx hy h0, hr]
  exact finalize_of_isWhole hwhole

theorem fails_rem (h0 : b ≠ 0) (h : ¬(HasDouble a ∧ HasDouble b)) :
    Fails (room + 1) scope (.binary .rem x y) (.overflow "%") := by
  have hbeyond : 2 ^ 1024 ≤ (nearestInt a).natAbs ∨ 2 ^ 1024 ≤ (nearestInt b).natAbs :=
    (not_and_or.mp h).imp Nat.le_of_not_lt Nat.le_of_not_lt
  refine fails_of_outcome ?_ nofun
  rw [outcome_rem hx hy h0, Number.rem_int_of_le hbeyond]
  rfl

end Operations

/-- **Arithmetic of whole numbers is exact, but for remainders and rounding beyond the whole numbers that
doubles can tell apart.** The remainder is that of the nearest doubles, with the sign of the dividend;
rounding gives the nearest double, or the even number above it where a half more is half-way between two
doubles. Without a nearest double both fail. -/
theorem whole_arithmetic (hx : Expr.HasValue room scope x (.int a))
    (hy : Expr.HasValue room scope y (.int b)) :
    Yields (room + 1) scope (.binary .add x y) (.int (a + b)) ∧
    Yields (room + 1) scope (.binary .sub x y) (.int (a - b)) ∧
    Yields (room + 1) scope (.binary .mul x y) (.int (a * b)) ∧
    Yields (room + 1) scope (.call "floor" [x]) (.int a) ∧
    Yields (room + 1) scope (.call "ceil" [x]) (.int a) ∧
    Yields (room + 1) scope (.call "abs" [x]) (.int a.natAbs) ∧
    (b ≠ 0 →
      (a.natAbs ≤ 2 ^ 53 → b.natAbs ≤ 2 ^ 53 →
        Yields (room + 1) scope (.binary .rem x y) (.int (a.tmod b))) ∧
      (HasDouble a → HasDouble b →
        Yields (room + 1) scope (.binary .rem x y) (.int ((nearestInt a).tmod (nearestInt b)))) ∧
      (¬(HasDouble a ∧ HasDouble b) → Fails (room + 1) scope (.binary .rem x y) (.overflow "%"))) ∧
    (a.natAbs ≤ 2 ^ 52 → Yields (room + 1) scope (.call "round" [x]) (.int a)) ∧
    (HasDouble a → Yields (room + 1) scope (.call "round" [x]) (.int (withHalf (nearestInt a)))) ∧
    (¬HasDouble a → Fails (room + 1) scope (.call "round" [x]) (.callFailed "round")) ∧
    (HasDouble a → IsNearest a (nearestInt a)) ∧ (HasDouble b → IsNearest b (nearestInt b)) := by
  refine ⟨yields_binary hx hy (by decide) (by decide) rfl,
    yields_binary hx hy (by decide) (by decide) rfl,
    yields_binary hx hy (by decide) (by decide) rfl, yields_call hx (by decide) rfl,
    yields_call hx (by decide) rfl, yields_call hx (by decide) rfl,
    fun h0 => ⟨fun ha hb => ?_, yields_rem hx hy h0, fails_rem hx hy h0⟩, fun ha => ?_,
    yields_round hx, fails_round hx, isNearest_nearestInt, isNearest_nearestInt⟩
  · have hrem := yields_rem hx hy h0 (hasDouble_of_natAbs_lt (k := 54) (by decide) (by omega))
      (hasDouble_of_natAbs_lt (k := 54) (by decide) (by omega))
    rw [nearestInt_of_natAbs_le ha, nearestInt_of_natAbs_le hb] at hrem
    exact hrem
  · have hround := yields_round hx (hasDouble_of_natAbs_lt (k := 54) (by decide) (by omega))
    rw [nearestInt_of_natAbs_le (ha.trans (by decide)), withHalf_of_natAbs_le ha] at hround
    exact hround

/-- One more than `2 ^ 53` is no double: its sum with 10 is exact and its remainder by 10 is not. -/
theorem whole_arithmetic_beyond :
    reply "9007199254740993 + 10" (fun _ => none) = .ok ⟨.int 9007199254741003, none, []⟩ ∧
    reply "9007199254740993 % 10" (fun _ => none) = .ok ⟨.int 2, none, []⟩ := by
  have h := whole_arithmetic
    (rfl : Expr.HasValue 999 (fun _ => none) (.literal (.int 9007199254740993)) (.int 9007199254740993))
    (rfl : Expr.HasValue 999 (fun _ => none) (.literal (.int 10)) (.int 10))
  obtain ⟨-, hrem, -⟩ := h.2.2.2.2.2.2.1 (by decide)
  have hnearest : (nearestInt 9007199254740993).tmod (nearestInt 10) = 2 := by decide
  have hdouble {a : Int} (h : a.natAbs < 2 ^ 54) : HasDouble a :=
    hasDouble_of_natAbs_lt (by decide) h
  have hvalue := (hrem (hdouble (by decide)) (hdouble (by decide))).reply rfl
    "9007199254740993 % 10" rfl
  rw [hnearest] at hvalue
  exact ⟨h.1.reply rfl "9007199254740993 + 10" rfl, hvalue⟩

/-- The remainder of one more than `2 ^ 53` by 10 is 3, and it is a whole number already. -/
theorem not_exact :
    reply "9007199254740993 % 10" (fun _ => none) ≠
      .ok ⟨.int ((9007199254740993 : Int).tmod 10), none, []⟩ ∧
    reply "round(9007199254740993)" (fun _ => none) ≠
      .ok ⟨.int 9007199254740993, none, []⟩ := by
  have hrem : reply "9007199254740993 % 10" (fun _ => none) = .ok ⟨.int 2, none, []⟩ := rfl
  have hround : reply "round(9007199254740993)" (fun _ => none) =
      .ok ⟨.int 9007199254740992, none, []⟩ := rfl
  have hvalue {m n : Int} (h : (Except.ok ⟨.int m, none, []⟩ : Except Abort Answer) =
      .ok ⟨.int n, none, []⟩) : m = n := Value.int.inj (Answer.mk.inj (Except.ok.inj h)).1
  rw [hrem, hround]
  exact ⟨fun h => absurd (hvalue h) (by decide), fun h => absurd (hvalue h) (by decide)⟩

end Engine

end LiveForm
