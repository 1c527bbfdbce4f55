import LiveForm.Number.Numeral
import LiveForm.Value.Text

/-! How values are taken as numbers. An operand must be a number, a truth value or text that reads
as a number as a whole. The lenient conversions take the longest number at the front of a text, and
count anything else as nothing. -/

namespace LiveForm

open Text

namespace Value

/-- The number that a value is as an operand of arithmetic; blanks around text do not count. -/
def operand? : Value → Option Number
  | .bool b => some (boolNumber b)
  | .text s => (readFloat? (trimWith isBlank s.toList)).map .float
  | v => v.number?

/-- Whether a value takes part in a numeric sum. -/
def isNumeric : Value → Bool
  | .bool _ => true
  | .text s => !(trimWith isBlank s.toList).isEmpty && (readFloat? s.toList).isSome
  | v => v.number?.isSome

/-- The text that conversions look at. -/
def source (room : Nat) : Value → Except Abort (List Char)
  | .text s => .ok s.toList
  | v => String.toList <$> v.written room

/-- The number at the front of a text after blanks; the blanks must be such as may pad a number. -/
def leadingFloat (cs : List Char) : Except Abort Float :=
  let (negative, unsigned) := Numeral.takeSign (cs.dropWhile isBlank)
  match Numeral.scan? unsigned with
  | none => .ok Binary.notANumber
  | some (numeral, _) =>
    if (cs.takeWhile isBlank).all isNumberPadding then .ok (numeral.toFloat negative)
    else .error .domain

/-- The whole number at the front of a text after blanks. -/
def leadingInt (cs : List Char) : Except Abort Number :=
  let (negative, unsigned) := Numeral.takeSign (cs.dropWhile isBlank)
  let digits := unsigned.takeWhile isDecimal
  if digits.isEmpty then .ok (.float Binary.notANumber)
  else if (cs.takeWhile isBlank).all isNumberPadding then
    return .int (Binary.signed negative (← Numeral.whole digits))
  else .error .domain

/-- A value as a double: a number as it is, otherwise the number at the front of its text. -/
def toFloat (room : Nat) (v : Value) : Except Abort Float :=
  match v.number? with
  | some n => n.toFloat
  | none =>
    match v with
    | .null => .ok Binary.notANumber
    | _ => v.source room >>= leadingFloat

/-- Lenient conversion: what is not a finite number counts as zero. -/
def toNumber (room : Nat) (v : Value) : Except Abort Number :=
  match v with
  | .bool b => .ok (boolNumber b)
  | _ =>
    match v.number? with
    | some n => do return if ← n.isFinite then n else .int 0
    | none => do
      let x ← v.toFloat room
      return if x.isNaN then .int 0 else .float x

/-- The base of a conversion from text; none when it is text that is no whole number or the
undefined number. -/
def base? : Value → Except Abort (Option Int)
  | .int n => .ok (some n)
  | .bool b => .ok (some (if b then 1 else 0))
  | .float x =>
    match Binary.truncate? x with
    | some n => .ok (some n)
    | none => if x.isNaN then .ok none else .error .range
  | .undefined _ => .ok none
  | .text s => .ok (readInt? 10 s.toList)
  | _ => .error .mismatch

/-- A whole text as a number in a base; undefined when it is none, or a number in it has no text. -/
def inBase (room : Nat) (v base : Value) : Except Abort Number :=
  match v.source room with
  | .error .depth => .error .depth
  | .error _ => .ok (.float Binary.notANumber)
  | .ok cs => do
    let read? := (← base.base?).bind fun b =>
      if b < 0 then none else readInt? b.toNat (trimWith isBlank cs)
    return (read?.map Number.int).getD (.float Binary.notANumber)

/-- The integer part of a number, or the whole number at the front of a text; with a base other than
ten the whole text has to be a number in that base. -/
def toInt (room : Nat) (v base : Value) : Except Abort Number :=
  match v.number? with
  | some n => do if ← n.isFinite then n.truncate else return .float Binary.notANumber
  | none =>
    match v with
    | .null => .ok (.float Binary.notANumber)
    | _ =>
      if base.equal (.int 10) then v.source room >>= leadingInt
      else v.inBase room base

/-- Whole-value conversion: null and blank text are zero, and other text must be a number. -/
def wholeFloat (room : Nat) : Value → Except Abort Float
  | .null => .ok 0.0
  | .bool b => (boolNumber b).toFloat
  | .int n => (Number.int n).toFloat
  | .float x => .ok x
  | .text s =>
    let cs := trimWith isBlank s.toList
    .ok (if cs.isEmpty then 0.0 else (readFloat? cs).getD Binary.notANumber)
  | v => (fun _ => Binary.notANumber) <$> v.source room

/-- A numeric value as a double; text is read without taking off more than number padding. -/
def numericFloat (room : Nat) : Value → Except Abort Float
  | .text s => .ok ((readFloat? s.toList).getD Binary.notANumber)
  | v => v.wholeFloat room

end Value

end LiveForm
