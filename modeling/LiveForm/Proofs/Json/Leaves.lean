import LiveForm.Proofs.Json.Rendering

/-! # What kind of value a text is of

The text of a value shows its kind: by its first character, or, for numbers, by whether there is more
to it than digits and a sign. -/

namespace LiveForm.Json

/-- The kinds of values that JSON tells apart. -/
inductive Kind where
  | null
  | bool
  | int
  | double
  | undefined
  | text
  | list
  | mapping
deriving DecidableEq

/-- The undefined number, as it was entered or as it was computed. -/
def isUndefined (v : Value) : Bool := v.number?.any Number.isNaN

def kind : Value → Kind
  | .null => .null
  | .bool _ => .bool
  | .int _ => .int
  | .float x => if x.isNaN then .undefined else .double
  | .undefined _ => .undefined
  | .text _ => .text
  | .list _ => .list
  | .mapping _ => .mapping

/-- The kind that a text shows. -/
def kindOf? : List Char → Option Kind
  | [] => none
  | 'n' :: _ => some .null
  | 't' :: _ => some .bool
  | 'f' :: _ => some .bool
  | 'N' :: _ => some .undefined
  | '"' :: _ => some .text
  | '[' :: _ => some .list
  | '\x7b' :: _ => some .mapping
  | cs => some (if cs.all fun c => c.isDigit || c == '-' then .int else .double)

theorem kindOf?_numeral {cs : List Char} (h : Decimal.Numeral cs) (hne : cs ≠ []) :
    kindOf? cs = some (if cs.all fun c => c.isDigit || c == '-' then .int else .double) := by
  unfold kindOf?
  split
  · exact absurd rfl hne
  all_goals first
    | rfl
    | exact absurd (h _ List.mem_cons_self) (by decide)

/-- A double as JSON writes it. -/
theorem floatLiteral_eq (x : Float) : floatLiteral x =
    match Binary.parts x with
    | .notNumber => "NaN"
    | .infinite negative => if negative then "-Infinity" else "Infinity"
    | .finite .. => Decimal.floatText x := by
  unfold floatLiteral
  cases h : Binary.parts x with
  | notNumber => rw [if_pos (Binary.isNaN_iff.mpr h)]
  | infinite negative =>
    have hn : ¬x.isNaN = true := Binary.not_isNaN (by simp [h])
    rw [if_neg hn, if_pos (Binary.isInf_iff.mpr ⟨negative, h⟩)]
    exact if_congr (Binary.infinite_lt_zero h) rfl rfl
  | finite negative m e =>
    have hn : ¬x.isNaN = true := Binary.not_isNaN (by simp [h])
    have hi : ¬x.isInf = true := by simp [Binary.isInf_iff, h]
    rw [if_neg hn, if_neg hi]

theorem kindOf?_floatLiteral (x : Float) :
    kindOf? (floatLiteral x).toList = some (if x.isNaN then .undefined else .double) := by
  rw [floatLiteral_eq]
  cases h : Binary.parts x with
  | notNumber =>
    rw [if_pos (Binary.isNaN_iff.mpr h)]
    dsimp only
    decide
  | infinite negative =>
    rw [if_neg (Binary.not_isNaN (by simp [h]))]
    dsimp only
    cases negative <;> decide
  | finite negative m e =>
    rw [if_neg (Binary.not_isNaN (by simp [h]))]
    show kindOf? (String.ofList (Decimal.floatChars x)).toList = _
    rw [String.toList_ofList]
    obtain ⟨c, hc, hno⟩ : ∃ c ∈ Decimal.floatChars x, (c.isDigit || c == '-') = false := by
      rcases Decimal.marked_floatChars h with hc | hc
      · exact ⟨'.', hc, by decide⟩
      · exact ⟨'e', hc, by decide⟩
    rw [kindOf?_numeral (Decimal.numeral_floatChars h) (List.ne_nil_of_mem hc), if_neg]
    intro hall
    rw [List.all_eq_true.mp hall c hc] at hno
    cases hno

theorem kindOf?_intText (n : Int) : kindOf? (Decimal.intText n).toList = some .int := by
  have hne : (Decimal.intText n).toList ≠ [] := by
    rw [Decimal.intText, String.toList_ofList]
    split
    · exact List.cons_ne_nil _ _
    · exact Nat.toDigits_ne_nil
  rw [kindOf?_numeral (Decimal.numeral_intText n) hne, if_pos]
  refine List.all_eq_true.mpr fun c hc => ?_
  rcases Decimal.mem_intText hc with h | rfl
  · rw [h]
    rfl
  · decide

/-- **The text of a value shows its kind.** -/
theorem kindOf?_render {room depth : Nat} {v : Value} {text : String}
    (h : render room compact depth v = .ok text) : kindOf? text.toList = some (kind v) := by
  cases v with
  | list items =>
    rw [render] at h
    obtain ⟨left, -, h⟩ := bind_eq_ok h
    obtain ⟨parts, -, h⟩ := bind_eq_ok h
    obtain rfl := Except.ok.inj h
    rw [toList_enclosed]
    rfl
  | mapping entries =>
    rw [render] at h
    obtain ⟨left, -, h⟩ := bind_eq_ok h
    obtain ⟨parts, -, h⟩ := bind_eq_ok h
    obtain rfl := Except.ok.inj h
    rw [toList_enclosed]
    rfl
  | int n =>
    rw [render] at h
    rw [intLiteral_eq_ok h]
    exact kindOf?_intText n
  | float x =>
    rw [render] at h
    obtain rfl := Except.ok.inj h
    exact kindOf?_floatLiteral x
  | text s =>
    rw [render] at h
    obtain rfl := Except.ok.inj h
    rw [toList_textLiteral]
    rfl
  | null =>
    rw [render] at h
    obtain rfl := Except.ok.inj h
    decide
  | bool b =>
    rw [render] at h
    obtain rfl := Except.ok.inj h
    cases b <;> decide
  | undefined origin =>
    rw [render] at h
    obtain rfl := Except.ok.inj h
    show kindOf? "NaN".toList = some .undefined
    decide

/-- What a value of a kind is. -/
def OfKind : Kind → Value → Prop
  | .null, v => v = .null
  | .bool, v => ∃ b, v = .bool b
  | .int, v => ∃ n, v = .int n
  | .double, v => ∃ x, v = .float x ∧ x.isNaN = false
  | .undefined, v => isUndefined v = true
  | .text, v => ∃ s, v = .text s
  | .list, v => ∃ items, v = .list items
  | .mapping, v => ∃ entries, v = .mapping entries

theorem ofKind (v : Value) : OfKind (kind v) v := by
  cases v with
  | float x =>
    rw [kind]
    split
    · assumption
    · exact ⟨x, rfl, eq_false_of_ne_true ‹_›⟩
  | undefined origin => exact (rfl : isUndefined (.undefined origin) = true)
  | null => exact rfl
  | _ => exact ⟨_, rfl⟩

section Doubles

variable {x y : Float} {negative : Bool}

theorem floatLiteral_infinite (h : Binary.parts x = .infinite negative) :
    floatLiteral x = if negative then "-Infinity" else "Infinity" := by rw [floatLiteral_eq, h]

theorem floatText_infinite (h : Binary.parts x = .infinite negative) :
    Decimal.floatText x = if negative then "-inf" else "inf" := by
  rw [Decimal.floatText, Decimal.floatChars, h]
  cases negative <;> rfl

theorem floatLiteral_infinite_ne {s : Bool} {m : Nat} {e : Int}
    (h : Binary.parts x = .infinite negative) (hy : Binary.parts y = .finite s m e) :
    floatLiteral x ≠ Decimal.floatText y := by
  intro he
  have hx : 'I' ∈ (floatLiteral x).toList := by
    rw [floatLiteral_infinite h]
    cases negative <;> decide
  rw [he, Decimal.floatText, String.toList_ofList] at hx
  exact absurd (Decimal.numeral_floatChars hy 'I' hx) (by decide)

/-- Literals of doubles differ as the texts do, if one of them is not undefined. -/
theorem floatText_eq_of_floatLiteral_eq (hx : x.isNaN = false)
    (h : floatLiteral x = floatLiteral y) : Decimal.floatText x = Decimal.floatText y := by
  have hy : y.isNaN = false := by
    have hk := kindOf?_floatLiteral x
    rw [h, kindOf?_floatLiteral, hx] at hk
    cases hn : y.isNaN with
    | false => rfl
    | true =>
      rw [hn] at hk
      cases hk
  cases hpx : Binary.parts x with
  | notNumber => exact absurd (Binary.isNaN_iff.mpr hpx) (ne_true_of_eq_false hx)
  | infinite a =>
    cases hpy : Binary.parts y with
    | notNumber => exact absurd (Binary.isNaN_iff.mpr hpy) (ne_true_of_eq_false hy)
    | infinite b =>
      rw [floatLiteral_infinite hpx, floatLiteral_infinite hpy] at h
      rw [floatText_infinite hpx, floatText_infinite hpy]
      revert h
      cases a <;> cases b <;> decide
    | finite s m e =>
      rw [floatLiteral_eq y, hpy] at h
      exact absurd h (floatLiteral_infinite_ne hpx hpy)
  | finite s m e =>
    rw [floatLiteral_eq x, hpx] at h
    cases hpy : Binary.parts y with
    | notNumber => exact absurd (Binary.isNaN_iff.mpr hpy) (ne_true_of_eq_false hy)
    | infinite b => exact absurd h.symm (floatLiteral_infinite_ne hpy hpx)
    | finite s' m' e' =>
      rw [floatLiteral_eq y, hpy] at h
      exact h

end Doubles

end LiveForm.Json
