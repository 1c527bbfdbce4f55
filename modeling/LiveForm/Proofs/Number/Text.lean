import LiveForm.Number.Text
import LiveForm.Proofs.Number.Parts

/-! # The characters of numbers

Whole numbers are written with digits and a sign, and their text determines them. The text of a finite
double has digits and signs too, and in addition a point or the letter of its exponent, which tells it
from a whole number. -/

namespace LiveForm.Decimal

/-- The characters of finite numbers. -/
def isNumeral (c : Char) : Bool := c.isDigit || ['-', '+', '.', 'e'].contains c

/-- A text of such characters only. -/
def Numeral (cs : List Char) : Prop := ∀ c ∈ cs, isNumeral c

section Numeral

variable {a b cs : List Char} {c : Char}

theorem numeral_nil : Numeral [] := List.forall_mem_nil _

theorem Numeral.append (ha : Numeral a) (hb : Numeral b) : Numeral (a ++ b) :=
  fun c hc => (List.mem_append.mp hc).elim (ha c) (hb c)

theorem Numeral.cons (hc : isNumeral c) (h : Numeral cs) : Numeral (c :: cs) :=
  List.forall_mem_cons.mpr ⟨hc, h⟩

theorem Numeral.subset (hb : Numeral b) (h : a ⊆ b) : Numeral a := fun c hc => hb c (h hc)

theorem numeral_replicate (hc : isNumeral c) (n : Nat) : Numeral (List.replicate n c) :=
  fun d hd => by rw [List.eq_of_mem_replicate hd]; exact hc

theorem isDigit_of_mem_naturalDigits {n : Nat} (h : c ∈ naturalDigits n) : c.isDigit :=
  Nat.isDigit_of_mem_toDigits (by decide) (by decide) h

theorem numeral_naturalDigits (n : Nat) : Numeral (naturalDigits n) :=
  fun c hc => by rw [isNumeral, isDigit_of_mem_naturalDigits hc]; rfl

theorem numeral_sign (negative : Bool) : Numeral (if negative then ['-'] else []) := by
  cases negative
  · exact numeral_nil
  · exact .cons (by decide) numeral_nil

theorem numeral_significant (s : Scaled) : Numeral (significant s) := by
  refine (numeral_naturalDigits s.digits).subset fun c hc => ?_
  have h := (List.dropWhile_sublist _).subset (List.mem_reverse.mp hc)
  exact List.mem_reverse.mp h

theorem numeral_exponentText (e : Int) : Numeral (exponentText e) := by
  refine .cons (by decide) (.cons (by split <;> decide) ?_)
  exact (numeral_replicate (by decide) _).append (numeral_naturalDigits _)

end Numeral

section Doubles

variable {digits : List Char} {x : Float}

theorem numeral_positional (h : Numeral digits) (point : Int) :
    Numeral (positional digits point) := by
  unfold positional
  split
  · exact .cons (by decide) (.cons (by decide) ((numeral_replicate (by decide) _).append h))
  · refine ((h.subset (List.take_subset _ _)).append (numeral_replicate (by decide) _)).append ?_
    refine .cons (by decide) ?_
    split
    · exact .cons (by decide) numeral_nil
    · exact h.subset (List.drop_subset _ _)

theorem point_mem_positional (digits : List Char) (point : Int) :
    '.' ∈ positional digits point := by
  unfold positional
  split <;> simp

theorem numeral_scientific (h : Numeral digits) (e : Int) : Numeral (scientific digits e) := by
  refine .append (.append (h.subset (List.take_subset _ _)) ?_) (numeral_exponentText e)
  split
  · exact numeral_nil
  · exact .cons (by decide) (h.subset (List.drop_subset _ _))

theorem e_mem_scientific (digits : List Char) (e : Int) : 'e' ∈ scientific digits e := by
  simp [scientific, exponentText]

theorem numeral_positiveText (s : Scaled) : Numeral (positiveText s) := by
  unfold positiveText
  dsimp only
  split
  · exact numeral_positional (numeral_significant s) _
  · exact numeral_scientific (numeral_significant s) _

theorem marked_positiveText (s : Scaled) : '.' ∈ positiveText s ∨ 'e' ∈ positiveText s := by
  unfold positiveText
  dsimp only
  split
  · exact .inl (point_mem_positional _ _)
  · exact .inr (e_mem_scientific _ _)

variable {negative : Bool} {m : Nat} {e : Int}

theorem floatChars_of_finite (h : Binary.parts x = .finite negative m e) :
    floatChars x = (if negative then ['-'] else []) ++
      (if m = 0 then ['0', '.', '0'] else positiveText (shortest m e)) := by
  rw [floatChars, h]

theorem numeral_floatChars (h : Binary.parts x = .finite negative m e) :
    Numeral (floatChars x) := by
  rw [floatChars_of_finite h]
  refine (numeral_sign negative).append ?_
  split
  · exact .cons (by decide) (.cons (by decide) (.cons (by decide) numeral_nil))
  · exact numeral_positiveText _

/-- The text of a double is not that of a whole number. -/
theorem marked_floatChars (h : Binary.parts x = .finite negative m e) :
    '.' ∈ floatChars x ∨ 'e' ∈ floatChars x := by
  have hright {c : Char} {l r : List Char} : c ∈ r → c ∈ l ++ r := List.mem_append_right l
  rw [floatChars_of_finite h]
  by_cases hm : m = 0
  · rw [if_pos hm]
    exact .inl (hright (by simp))
  · rw [if_neg hm]
    exact (marked_positiveText _).imp hright hright

end Doubles

section Whole

variable {m n : Int}

theorem naturalDigits_inj {m n : Nat} (h : naturalDigits m = naturalDigits n) : m = n := by
  have h := congrArg (fun ds => Nat.ofDigitChars 10 ds 0) h
  simpa [naturalDigits] using h

theorem mem_intText {c : Char} (h : c ∈ (intText n).toList) : c.isDigit ∨ c = '-' := by
  rw [intText, String.toList_ofList] at h
  split at h
  · rcases List.mem_cons.mp h with rfl | h
    · exact .inr rfl
    · exact .inl (isDigit_of_mem_naturalDigits h)
  · exact .inl (isDigit_of_mem_naturalDigits h)

theorem numeral_intText (n : Int) : Numeral (intText n).toList := by
  intro c hc
  rcases mem_intText hc with h | rfl
  · rw [isNumeral, h]
    rfl
  · decide

/-- A sign stands before digits and is none. -/
theorem cons_sign_ne (cs : List Char) (n : Nat) : '-' :: cs ≠ naturalDigits n := by
  intro h
  have hd := isDigit_of_mem_naturalDigits (n := n) (c := '-') (h ▸ List.mem_cons_self)
  exact absurd hd (by decide)

/-- **The text of a whole number determines it.** -/
theorem intText_inj (h : intText m = intText n) : m = n := by
  have h := congrArg String.toList h
  rw [intText, intText, String.toList_ofList, String.toList_ofList] at h
  split at h <;> split at h
  · have := naturalDigits_inj (List.cons.inj h).2
    omega
  · exact absurd h (cons_sign_ne _ _)
  · exact absurd h.symm (cons_sign_ne _ _)
  · have := naturalDigits_inj h
    omega

end Whole

end LiveForm.Decimal
