import LiveForm.Limits
import LiveForm.Text.Class

/-! Numbers in text. A numeral is a run of decimal digits of any script with an optional point and
an optional exponent; `scan?` takes the longest one at the front of a text. A whole text reads as a
double when, without the padding around it and the underscores between its digits, it is a signed
numeral or a name of infinity or of the undefined number. -/

namespace LiveForm

open Text

/-- An unsigned decimal: `digits * 10 ^ exponent`. -/
structure Numeral where
  digits : Nat
  exponent : Int

namespace Numeral

def digitsValue (cs : List Char) : Nat := cs.foldl (fun n c => 10 * n + decimalValue c) 0

/-- The whole number that decimal digits stand for, unless there are too many of them. -/
def whole (cs : List Char) : Except Abort Nat := orTooLong cs (digitsValue cs)

/-- A minus or plus sign at the front, and what follows it. -/
def takeSign : List Char → Bool × List Char
  | '-' :: rest => (true, rest)
  | '+' :: rest => (false, rest)
  | cs => (false, cs)

/-- The exponent part at the front, if there is one with at least a digit. -/
def takeExponent? : List Char → Option (Int × List Char)
  | c :: rest =>
    if c == 'e' || c == 'E' then
      let (negative, unsigned) := takeSign rest
      let digits := unsigned.takeWhile isDecimal
      if digits.isEmpty then none
      else some (Binary.signed negative (digitsValue digits), unsigned.dropWhile isDecimal)
    else none
  | [] => none

def withExponent (digits : List Char) (places : Nat) (rest : List Char) : Numeral × List Char :=
  match takeExponent? rest with
  | some (e, rest) => (⟨digitsValue digits, e - places⟩, rest)
  | none => (⟨digitsValue digits, -(places : Int)⟩, rest)

/-- The longest numeral at the front of the text: digits with at most one point among or around
them, then an exponent. -/
def scan? (cs : List Char) : Option (Numeral × List Char) :=
  let whole := cs.takeWhile isDecimal
  match cs.dropWhile isDecimal with
  | '.' :: rest =>
    let fraction := rest.takeWhile isDecimal
    if whole.isEmpty && fraction.isEmpty then none
    else some (withExponent (whole ++ fraction) fraction.length (rest.dropWhile isDecimal))
  | rest => if whole.isEmpty then none else some (withExponent whole 0 rest)

/-- Beyond this power of ten every double is infinite, and below its inverse every double is zero.
-/
def farExponent : Int := 400

/-- The nearest double; infinity beyond the largest one. -/
def toFloat (negative : Bool) (n : Numeral) : Float :=
  let lead : Int := (Nat.toDigits 10 n.digits).length + n.exponent
  let nearest? :=
    if n.digits = 0 || lead < -farExponent then Binary.nearest? negative 0 1
    else if farExponent < lead then none
    else
      Binary.nearest? negative (n.digits * Binary.tenTo n.exponent.toNat)
        (Binary.tenTo (-n.exponent).toNat)
  nearest?.getD (if negative then -Binary.infinity else Binary.infinity)

end Numeral

namespace Text

/-- The digits without the underscores that stand between two of them; any other underscore makes
the text no number. -/
def withoutUnderscores? (afterDigit : Bool) : List Char → Option (List Char)
  | [] => some []
  | '_' :: rest =>
    if afterDigit && (rest.head?).any isDecimal then withoutUnderscores? false rest else none
  | c :: rest => (withoutUnderscores? (isDecimal c) rest).map (c :: ·)

/-- The names of the doubles that have no numeral, in any mixture of ASCII cases. -/
def specialFloat? (negative : Bool) (cs : List Char) : Option Float :=
  let name := cs.map Char.toLower
  if name = "inf".toList || name = "infinity".toList then
    some (if negative then -Binary.infinity else Binary.infinity)
  else if name = "nan".toList then some Binary.notANumber
  else none

/-- Reads a whole text as a double. -/
def readFloat? (cs : List Char) : Option Float := do
  let body ← withoutUnderscores? false (trimWith isNumberPadding cs)
  let (negative, unsigned) := Numeral.takeSign body
  match Numeral.scan? unsigned with
  | some (numeral, []) => some (numeral.toFloat negative)
  | _ => specialFloat? negative unsigned

/-- The value of a digit in a base above ten, where letters go on after nine. -/
def baseDigit? (c : Char) : Option Nat :=
  if isDecimal c then some (decimalValue c)
  else if isAsciiLower c then some (c.toNat - 87)
  else if isAsciiUpper c then some (c.toNat - 55)
  else none

/-- Digits below the base, at least one, with single underscores allowed between them. -/
def readDigits? (base : Nat) (value : Nat) (afterDigit : Bool) : List Char → Option Nat
  | [] => if afterDigit then some value else none
  | '_' :: rest => if afterDigit then readDigits? base value false rest else none
  | c :: rest => do
    let digit ← baseDigit? c
    if digit < base then readDigits? base (base * value + digit) true rest else none

/-- The letter that marks a base in front of its digits. -/
def baseMark? : Nat → Option Char
  | 2 => some 'b'
  | 8 => some 'o'
  | 16 => some 'x'
  | _ => none

/-- What follows the mark `0b`, `0o` or `0x` of the base; an underscore may follow the mark. -/
def dropBaseMark (base : Nat) (cs : List Char) : List Char :=
  match cs with
  | '0' :: mark :: rest =>
    if baseMark? base = some mark.toLower then
      match rest with
      | '_' :: after => after
      | _ => rest
    else cs
  | _ => cs

/-- Whether a whole number may have these digits: their count is limited, unless the base is a power
of two. -/
def fitsBase (base : Nat) (cs : List Char) : Bool :=
  [2, 4, 8, 16, 32].contains base || cs.countP (· != '_') ≤ digitLimit

/-- An unsigned whole number in a base, after the mark of the base if it has one. -/
def readBase? (base : Nat) (cs : List Char) : Option Nat :=
  let digits := dropBaseMark base cs
  if fitsBase base digits then readDigits? base 0 false digits else none

/-- Reads a whole text as a number in a base from 2 to 36. Base 0 takes the base from the mark, and
is ten without one; a number other than zero then has no leading zero. -/
def readInt? (base : Nat) (cs : List Char) : Option Int :=
  let (negative, unsigned) := Numeral.takeSign (trimWith isNumberPadding cs)
  let value? :=
    if base = 0 then
      match unsigned with
      | '0' :: mark :: _ =>
        match [2, 8, 16].find? fun b => baseMark? b = some mark.toLower with
        | some b => readBase? b unsigned
        | none => (readBase? 10 unsigned).filter (· = 0)
      | _ => readBase? 10 unsigned
    else if 2 ≤ base && base ≤ 36 then readBase? base unsigned
    else none
  value?.map (Binary.signed negative)

end Text

end LiveForm
