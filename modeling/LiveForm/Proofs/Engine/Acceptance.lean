import LiveForm.Proofs.Engine
import LiveForm.Proofs.Expr.Breakdown
import LiveForm.Proofs.Number.Reading

/-! # Which operands count as numbers

A sum adds the numbers of its operands where a difference has numbers to subtract, with one exception. Text
with an information separator among the blanks around it is a number to a difference and not to a sum,
which joins it to the other operand. -/

namespace LiveForm

namespace Value

/-- Text with an information separator before it or behind it. -/
def IsSeparated : Value → Prop
  | .text s => ∃ c ∈ Text.padding s.toList, Text.isInformationSeparator c
  | _ => False

theorem isNumeric_text_iff (s : String) : (Value.text s).isNumeric ↔
    (Value.text s).operand?.isSome ∧ ¬(Value.text s).IsSeparated := by
  have hempty : Text.readFloat? [] = none := rfl
  simp only [isNumeric, operand?, IsSeparated, Bool.and_eq_true, Bool.not_eq_true', Option.isSome_map,
    List.isEmpty_eq_false_iff, not_exists, not_and, Bool.not_eq_true]
  constructor
  · rintro ⟨-, hread⟩
    have hfree : ∀ c ∈ Text.padding s.toList, Text.isInformationSeparator c = false := by
      intro c hc
      by_contra hsep
      have hmem : c ∈ s.toList := Text.mem_of_mem_padding hc
      rw [Text.readFloat?_eq_none hmem (Bool.not_eq_false _ ▸ hsep)] at hread
      cases hread
    exact ⟨Text.readFloat?_trimWith hfree ▸ hread, hfree⟩
  · rintro ⟨hread, hfree⟩
    refine ⟨fun hblank => ?_, Text.readFloat?_trimWith hfree ▸ hread⟩
    rw [hblank, hempty] at hread
    cases hread

/-- A value takes part in a numeric sum if it is a number to other operators, and is not separated. -/
theorem isNumeric_iff (v : Value) : v.isNumeric ↔ v.operand?.isSome ∧ ¬v.IsSeparated := by
  cases v with
  | text s => exact isNumeric_text_iff s
  | bool _ | int _ | float _ | undefined _ => exact ⟨fun _ => ⟨rfl, id⟩, fun _ => rfl⟩
  | null | list _ | mapping _ => exact ⟨fun h => (by cases h), fun ⟨h, _⟩ => (by cases h)⟩

end Value

/-- What an operator refuses is one of its operands, and the fault says so. An operand that cannot be
written is refused too, but no message can show it. -/
def BinaryOp.Refuses (room : Nat) (op : BinaryOp) (v w : Value) : Prop :=
  ∃ u ∈ [v, w], applyBinary room op v w =
    .error (Fault.about (u.guardLiteral room) (.cannotApply op.symbol u))

/-- The sum of two values is that of the numbers that they are as operands. -/
def IsNumericSum (room : Nat) (v w : Value) : Prop :=
  ∃ a b, v.operand? = some a ∧ w.operand? = some b ∧
    applyBinary room .add v w = ranged "+" (a.add b)

section Sums

variable {room : Nat} {v w : Value} {a b : Number} {symbol : String}

/-- A sum or difference of numbers is a number, or leaves the range of doubles. -/
theorem ranged_lift (symbol : String) {exact' : Int → Int → Int} {rounded : Float → Float → Float} :
    (∃ n : Number, ranged symbol (Number.lift exact' rounded a b) = .ok (.ofNumber n)) ∨
      ranged symbol (Number.lift exact' rounded a b) = .error (.overflow symbol) := by
  cases h : Number.lift exact' rounded a b with
  | ok n => exact .inl ⟨n, rfl⟩
  | error c =>
    obtain rfl := eq_range_of_lift h
    exact .inr rfl

theorem about_ne_overflow {writing : Except Abort Unit} {f : Fault} (hf : f ≠ .overflow symbol) :
    Fault.about writing f ≠ .overflow symbol := by
  unfold Fault.about
  split
  · exact hf
  · nofun

/-- The display texts of two values, one behind the other. -/
def joinedText (room : Nat) (v w : Value) : Except Fault Value := do
  return .text ((← Builtin.lift (v.shown room)) ++ (← Builtin.lift (w.shown room)))

/-- A text that cannot be written aborts, and does not overflow. -/
theorem joinedText_ne_overflow : joinedText room v w ≠ .error (.overflow symbol) := by
  have hlift {r : Except Abort String} : Builtin.lift r ≠ .error (.overflow symbol) := by
    cases r <;> nofun
  intro h
  rcases bind_eq_error h with h | ⟨s, -, h⟩
  · exact hlift h
  · rcases bind_eq_error h with h | ⟨t, -, h⟩
    · exact hlift h
    · cases h

theorem plus_of_isNumeric (hv : v.isNumeric) (hw : w.isNumeric) (ha : v.operand? = some a)
    (hb : w.operand? = some b) : plus room v w = ranged "+" (a.add b) := by
  rw [plus, hv, hw, Bool.and_self, if_pos rfl, operand_eq_ok ha, operand_eq_ok hb]
  rfl

theorem plus_of_isText (hnumeric : (v.isNumeric && w.isNumeric) = false)
    (htext : v.isText || w.isText) : plus room v w = joinedText room v w := by
  rw [plus, hnumeric, if_neg Bool.false_ne_true, if_pos htext, joinedText]

/-- Without two numeric values there is no number to answer with. -/
theorem plus_ne_ranged (hnumeric : (v.isNumeric && w.isNumeric) = false) (a b : Number) :
    plus room v w ≠ ranged "+" (a.add b) := by
  intro h
  have hranged : (∃ n : Number, ranged "+" (a.add b) = .ok (.ofNumber n)) ∨
      ranged "+" (a.add b) = .error (.overflow "+") := ranged_lift "+"
  rw [← h] at hranged
  by_cases htext : v.isText || w.isText
  · rw [plus_of_isText hnumeric htext, joinedText] at hranged
    obtain ⟨n, hn⟩ | hoverflow := hranged
    · obtain ⟨s, -, hn⟩ := bind_eq_ok hn
      obtain ⟨t, -, hn⟩ := bind_eq_ok hn
      cases n <;> cases hn
    · exact joinedText_ne_overflow hoverflow
  · rw [plus, hnumeric, if_neg Bool.false_ne_true, if_neg htext] at hranged
    obtain ⟨n, hn⟩ | hoverflow := hranged
    · cases hn
    · have hcause : Fault.cannotAdd v w ≠ .overflow "+" := nofun
      exact about_ne_overflow hcause (Except.error.inj hoverflow)

theorem isNumericSum_iff : IsNumericSum room v w ↔ v.isNumeric ∧ w.isNumeric := by
  constructor
  · rintro ⟨a, b, -, -, hsum⟩
    by_contra hnumeric
    exact plus_ne_ranged (by simpa using hnumeric) a b hsum
  · rintro ⟨hv, hw⟩
    obtain ⟨a, ha⟩ := Option.isSome_iff_exists.mp ((Value.isNumeric_iff v).mp hv).1
    obtain ⟨b, hb⟩ := Option.isSome_iff_exists.mp ((Value.isNumeric_iff w).mp hw).1
    exact ⟨a, b, ha, hb, plus_of_isNumeric hv hw ha hb⟩

theorem isText_of_isSeparated (h : v.IsSeparated) : v.isText := by
  cases v with
  | text s => rfl
  | _ => exact h.elim

/-- A difference refuses just the operands that are no numbers. -/
theorem refuses_sub_iff : BinaryOp.sub.Refuses room v w ↔ ¬(v.operand?.isSome ∧ w.operand?.isSome) := by
  unfold BinaryOp.Refuses applyBinary
  cases hv : v.operand? with
  | none =>
    refine ⟨fun _ h => (by cases h.1), fun _ => ⟨v, List.mem_cons_self, ?_⟩⟩
    rw [operand_eq_error hv]
    rfl
  | some a =>
    cases hw : w.operand? with
    | none =>
      refine ⟨fun _ h => (by cases h.2), fun _ => ⟨w, List.mem_cons_of_mem _ List.mem_cons_self, ?_⟩⟩
      rw [operand_eq_ok hv, operand_eq_error hw]
      rfl
    | some b =>
      refine ⟨fun ⟨u, _, h⟩ => ?_, fun h => absurd ⟨rfl, rfl⟩ h⟩
      rw [operand_eq_ok hv, operand_eq_ok hw] at h
      have hranged : (∃ n : Number, ranged "-" (a.sub b) = .ok (.ofNumber n)) ∨
          ranged "-" (a.sub b) = .error (.overflow "-") := ranged_lift "-"
      obtain ⟨n, hn⟩ | hoverflow := hranged
      · cases hn.symm.trans h
      · exact absurd (Except.error.inj (hoverflow.symm.trans h)).symm (about_ne_overflow nofun)

end Sums

/-- **A sum takes as numbers what a difference does, but for text with an information separator around
it.** With such text a sum joins the display texts of two operands that a difference has numbers for. -/
theorem sum_accepts_iff (room : Nat) (v w : Value) :
    (v.isNumeric ↔ v.operand?.isSome ∧ ¬v.IsSeparated) ∧
      (IsNumericSum room v w ↔ ¬BinaryOp.sub.Refuses room v w ∧ ¬v.IsSeparated ∧ ¬w.IsSeparated) ∧
      (v.IsSeparated ∨ w.IsSeparated → applyBinary room .add v w = joinedText room v w) := by
  refine ⟨v.isNumeric_iff, ?_, fun hseparated => ?_⟩
  · rw [isNumericSum_iff, v.isNumeric_iff, w.isNumeric_iff, refuses_sub_iff, not_not]
    exact and_and_and_comm
  · have hnumeric : (v.isNumeric && w.isNumeric) = false := by
      rw [Bool.and_eq_false_iff]
      refine hseparated.imp (fun h => ?_) fun h => ?_
      · exact Bool.eq_false_iff.mpr fun hv => (v.isNumeric_iff.mp hv).2 h
      · exact Bool.eq_false_iff.mpr fun hw => (w.isNumeric_iff.mp hw).2 h
    refine plus_of_isText hnumeric (Bool.or_eq_true_iff.mpr ?_)
    exact hseparated.imp isText_of_isSeparated isText_of_isSeparated

/-- Five with a unit separator before it. -/
def separatedFive : Value := .text "\x1f5"

theorem isSeparated_separatedFive : separatedFive.IsSeparated :=
  ⟨'\x1f', by decide, by decide⟩

theorem sum_accepts_iff_separatedFive :
    separatedFive.IsSeparated ∧ ¬IsNumericSum depthLimit separatedFive (.text "1") ∧
      applyBinary depthLimit .add separatedFive (.text "1") = .ok (.text "\x1f51") := by
  obtain ⟨-, hsum, hjoined⟩ := sum_accepts_iff depthLimit separatedFive (.text "1")
  refine ⟨isSeparated_separatedFive, fun h => (hsum.mp h).2.1 isSeparated_separatedFive, ?_⟩
  rw [hjoined (.inl isSeparated_separatedFive)]
  rfl

namespace Engine

/-- A scope with the separated five and a plain one. -/
def fiveAndOne : Scope := fun name =>
  if name = "a" then some separatedFive else if name = "b" then some (.text "1") else none

/-- The difference subtracts what the sum joins. -/
theorem sum_not_numeric :
    reply "a - b" fiveAndOne = .ok ⟨.int 4, none, ["a", "b"]⟩ ∧
      reply "a + b" fiveAndOne = .ok ⟨.text "\x1f51", none, ["a", "b"]⟩ ∧
      ¬∀ v w, IsNumericSum depthLimit v w ↔ ¬BinaryOp.sub.Refuses depthLimit v w := by
  refine ⟨rfl, rfl, fun h => ?_⟩
  have hrefuses : ¬BinaryOp.sub.Refuses depthLimit separatedFive (.text "1") :=
    refuses_sub_iff.not.mpr (not_not.mpr ⟨by decide, by decide⟩)
  have hnumeric := isNumericSum_iff.mp ((h separatedFive (.text "1")).mpr hrefuses)
  exact (separatedFive.isNumeric_iff.mp hnumeric.1).2 isSeparated_separatedFive

end Engine

end LiveForm
