import LiveForm.Proofs.Json.Literal
import LiveForm.Proofs.Number.Text

/-! # Where a JSON value ends

The text of a value has no comma and no closing bracket outside of its own brackets and of text, so
in a list or mapping, where one of these follows it, nothing longer or shorter could be meant. The
reader that shows this counts open brackets and knows when it is inside of text. -/

namespace LiveForm.Json

/-- Where a reader stands: outside of text, inside of it, or behind a backslash in it. -/
inductive Place where
  | bare
  | quoted
  | escaped

/-- Reads on at a depth of brackets; a comma or a closing bracket at depth zero is no part of the
value. -/
def scan : Nat → Place → List Char → Bool
  | _, _, [] => true
  | depth, .bare, c :: cs =>
    if c = '"' then scan depth .quoted cs
    else if c = '[' ∨ c = '\x7b' then scan (depth + 1) .bare cs
    else if c = ',' then depth ≠ 0 && scan depth .bare cs
    else if c = ']' ∨ c = '\x7d' then depth ≠ 0 && scan (depth - 1) .bare cs
    else scan depth .bare cs
  | depth, .quoted, c :: cs =>
    if c = '"' then scan depth .bare cs
    else if c = '\\' then scan depth .escaped cs
    else scan depth .quoted cs
  | depth, .escaped, _ :: cs => scan depth .quoted cs

/-- A character that means nothing to a reader outside of text. -/
def isPlain (c : Char) : Bool := !(['"', '[', '\x7b', ',', ']', '\x7d'].contains c)

theorem scan_plain {c : Char} (h : isPlain c) (depth : Nat) (cs : List Char) :
    scan depth .bare (c :: cs) = scan depth .bare cs := by
  simp only [isPlain, List.contains_eq_mem, List.mem_cons, List.not_mem_nil, or_false,
    Bool.not_eq_true', decide_eq_false_iff_not, not_or] at h
  obtain ⟨hq, ho, hb, hm, hc, hd⟩ := h
  rw [scan, if_neg hq, if_neg (by simp [ho, hb]), if_neg hm, if_neg (by simp [hc, hd])]

theorem scan_quoted {c : Char} (hq : c ≠ '"') (hb : c ≠ '\\') (depth : Nat) (cs : List Char) :
    scan depth .quoted (c :: cs) = scan depth .quoted cs := by
  rw [scan, if_neg hq, if_neg hb]

/-- A text that leaves the reader where it was. -/
def Closed (cs : List Char) : Prop :=
  ∀ depth rest, scan depth .bare (cs ++ rest) = scan depth .bare rest

/-- A text that does so within brackets. -/
def Inner (cs : List Char) : Prop :=
  ∀ depth rest, scan (depth + 1) .bare (cs ++ rest) = scan (depth + 1) .bare rest

/-- A text that does so within text. -/
def Body (cs : List Char) : Prop :=
  ∀ depth rest, scan depth .quoted (cs ++ rest) = scan depth .quoted rest

/-- What can follow a value. -/
def EndsValue (c : Char) : Prop := c = ',' ∨ c = ']' ∨ c = '\x7d'

theorem scan_end {c : Char} (h : EndsValue c) (rest : List Char) :
    scan 0 .bare (c :: rest) = false := by
  rcases h with rfl | rfl | rfl <;> rfl

theorem Closed.not_longer {a s : List Char} {c : Char} (ha : Closed a) (hc : EndsValue c) :
    ¬Closed (a ++ c :: s) := by
  intro h
  have ht : scan 0 .bare (a ++ c :: s) = true := by
    rw [← List.append_nil (a ++ c :: s), h 0]
    rfl
  rw [ha 0, scan_end hc] at ht
  cases ht

/-- **A closed text is the only one with which a text can begin that ends a value behind it.** -/
theorem Closed.cancel {a b r r' : List Char} {c d : Char} (ha : Closed a) (hb : Closed b)
    (hc : EndsValue c) (hd : EndsValue d) (h : a ++ c :: r = b ++ d :: r') :
    a = b ∧ c :: r = d :: r' := by
  rcases List.append_eq_append_iff.mp h with ⟨s, hs, hr⟩ | ⟨s, hs, hr⟩
  · cases s with
    | nil => exact ⟨by simpa using hs.symm, by simpa using hr⟩
    | cons x s =>
      obtain ⟨rfl, -⟩ := List.cons.inj hr
      exact absurd (hs ▸ hb) (ha.not_longer hc)
  · cases s with
    | nil => exact ⟨by simpa using hs, by simpa using hr.symm⟩
    | cons x s =>
      obtain ⟨rfl, -⟩ := List.cons.inj hr
      exact absurd (hs ▸ ha) (hb.not_longer hd)

/-! ## Texts in sequence and in brackets -/

theorem closed_nil : Closed [] := fun _ _ => rfl

theorem Closed.inner {a : List Char} (h : Closed a) : Inner a := fun depth rest => h (depth + 1) rest

theorem Closed.append {a b : List Char} (ha : Closed a) (hb : Closed b) : Closed (a ++ b) := by
  intro depth rest
  rw [List.append_assoc, ha, hb]

theorem Inner.append {a b : List Char} (ha : Inner a) (hb : Inner b) : Inner (a ++ b) := by
  intro depth rest
  rw [List.append_assoc, ha, hb]

theorem Body.append {a b : List Char} (ha : Body a) (hb : Body b) : Body (a ++ b) := by
  intro depth rest
  rw [List.append_assoc, ha, hb]

theorem inner_comma : Inner [',', ' '] := fun _ _ => rfl

theorem Inner.bracketed {a : List Char} (h : Inner a) : Closed ('[' :: (a ++ [']'])) := by
  intro depth rest
  have ho : scan depth .bare ('[' :: (a ++ [']']) ++ rest) =
      scan (depth + 1) .bare (a ++ ([']'] ++ rest)) := by
    rw [← List.append_assoc]
    rfl
  rw [ho, h]
  rfl

theorem Inner.braced {a : List Char} (h : Inner a) : Closed ('\x7b' :: (a ++ ['\x7d'])) := by
  intro depth rest
  have ho : scan depth .bare ('\x7b' :: (a ++ ['\x7d']) ++ rest) =
      scan (depth + 1) .bare (a ++ (['\x7d'] ++ rest)) := by
    rw [← List.append_assoc]
    rfl
  rw [ho, h]
  rfl

theorem Inner.intercalate {parts : List (List Char)} (h : ∀ p ∈ parts, Closed p) :
    Inner ([',', ' '].intercalate parts) := by
  induction parts with
  | nil => exact closed_nil.inner
  | cons p rest ih =>
    have hp := (h p (by simp)).inner
    have hrest := ih fun q hq => h q (by simp [hq])
    cases rest with
    | nil => simpa using hp
    | cons q rest =>
      rw [List.intercalate_cons_cons]
      exact (hp.append inner_comma).append hrest

/-! ## Text -/

theorem body_flatMap {α : Type} {f : α → List Char} (h : ∀ a, Body (f a)) (as : List α) :
    Body (as.flatMap f) := by
  induction as with
  | nil => exact fun _ _ => rfl
  | cons a rest ih =>
    rw [List.flatMap_cons]
    exact (h a).append ih

theorem body_itself {c : Char} (hq : c ≠ '"') (hb : c ≠ '\\') : Body [c] :=
  fun depth rest => scan_quoted hq hb depth rest

theorem digitChar_ne : ∀ d < 16, d.digitChar ≠ '"' ∧ d.digitChar ≠ '\\' := by decide

theorem body_digits {unit : Nat} (hu : unit < 16 ^ 4) : Body (digits unit) := by
  have body (cs : List Char) (h : ∀ c ∈ cs, ∃ d < 16, c = Nat.digitChar d) : Body cs := by
    induction cs with
    | nil => exact fun _ _ => rfl
    | cons c cs ih =>
      obtain ⟨d, hd, rfl⟩ := h c (by simp)
      obtain ⟨hq, hb⟩ := digitChar_ne d hd
      exact (body_itself hq hb).append (ih fun c hc => h c (by simp [hc]))
  intro depth rest
  exact body (Text.hex 4 unit) (fun c hc => Text.mem_hex hu hc) depth rest

theorem Escapes.body {c : Char} {cs : List Char} (h : Escapes c cs) : Body cs := by
  cases h with
  | itself hq hb => exact body_itself hq hb
  | letter x hx => exact fun _ _ => rfl
  | digits =>
    have hu := unit_lt (toNat_lt c)
    revert hu
    generalize units16 c.toNat = us
    intro hu
    induction us with
    | nil => exact fun _ _ => rfl
    | cons u us ih =>
      rw [List.flatMap_cons]
      exact (body_digits (hu u (by simp))).append (ih fun v hv => hu v (by simp [hv]))

theorem closed_textLiteral (s : String) : Closed (textLiteral s).toList := by
  intro depth rest
  have hb := body_flatMap (fun c => (escapedChar_escapes c).body) s.toList
  have ho : scan depth .bare ((textLiteral s).toList ++ rest) =
      scan depth .quoted (s.toList.flatMap escapedChar ++ ('"' :: rest)) := by
    rw [toList_textLiteral, List.cons_append, List.append_assoc]
    rfl
  rw [ho, hb]
  rfl

/-! ## Numbers and names -/

/-- A text of such characters only. -/
def Plain (cs : List Char) : Prop := ∀ c ∈ cs, isPlain c

instance (cs : List Char) : Decidable (Plain cs) :=
  decidable_of_iff (cs.all isPlain = true) List.all_eq_true

theorem Plain.closed {cs : List Char} (h : Plain cs) : Closed cs := by
  induction cs with
  | nil => exact closed_nil
  | cons c cs ih =>
    intro depth rest
    rw [List.cons_append, scan_plain (h c (by simp))]
    exact ih (fun c hc => h c (by simp [hc])) depth rest

theorem Plain.append {a b : List Char} (ha : Plain a) (hb : Plain b) : Plain (a ++ b) :=
  fun c hc => (List.mem_append.mp hc).elim (ha c) (hb c)

theorem plain_of_numeral {cs : List Char} (h : Decimal.Numeral cs) : Plain cs := by
  have hall : ['"', '[', '\x7b', ',', ']', '\x7d'].all fun d => !Decimal.isNumeral d := by decide
  intro c hc
  unfold isPlain
  cases hm : List.contains ['"', '[', '\x7b', ',', ']', '\x7d'] c with
  | false => rfl
  | true =>
    have hd := List.all_eq_true.mp hall c (List.contains_iff_mem.mp hm)
    simp [h c hc] at hd

theorem plain_floatChars (x : Float) : Plain (Decimal.floatChars x) := by
  cases h : Binary.parts x with
  | finite negative m e => exact plain_of_numeral (Decimal.numeral_floatChars h)
  | notNumber =>
    rw [Decimal.floatChars, h]
    decide
  | infinite negative =>
    rw [Decimal.floatChars, h]
    exact (plain_of_numeral (Decimal.numeral_sign negative)).append (by decide)

theorem plain_floatLiteral (x : Float) : Plain (floatLiteral x).toList := by
  unfold floatLiteral
  split
  · decide
  · split
    · split <;> decide
    · rw [Decimal.floatText, String.toList_ofList]
      exact plain_floatChars x

theorem plain_intText (n : Int) : Plain (Decimal.intText n).toList :=
  plain_of_numeral (Decimal.numeral_intText n)

end LiveForm.Json
