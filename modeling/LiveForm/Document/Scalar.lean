import LiveForm.Number.Numeral
import LiveForm.ReadFault
import LiveForm.Value

/-! What a plain scalar of a YAML 1.1 document stands for: null, a truth value, a whole number in
one of four bases or in base sixty, a double, or else text. Underscores inside numbers do not count.
-/

namespace LiveForm.Document

open Text

def nullWords : List String := ["", "~", "null", "Null", "NULL"]

def trueWords : List String :=
  ["yes", "Yes", "YES", "true", "True", "TRUE", "on", "On", "ON"]

def falseWords : List String :=
  ["no", "No", "NO", "false", "False", "FALSE", "off", "Off", "OFF"]

def infinityWords : List String := [".inf", ".Inf", ".INF"]

def undefinedWords : List String := [".nan", ".NaN", ".NAN"]

/-- The words that stand for no value: the marks of a merged mapping and of a default entry. -/
def markWords : List String := ["<<", "="]

/-- Whether the text is made of characters of a kind and of underscores. -/
def isMadeOf (p : Char → Bool) (cs : List Char) : Bool := cs.all fun c => p c || c == '_'

def withoutUnderscores (cs : List Char) : List Char := cs.filter (· != '_')

def isBinaryDigit (c : Char) : Bool := c == '0' || c == '1'

def isOctalDigit (c : Char) : Bool := 48 ≤ c.toNat && c.toNat ≤ 55

def isHexDigit (c : Char) : Bool := isAsciiDigit c || (97 ≤ c.toNat && c.toNat ≤ 102) ||
  (65 ≤ c.toNat && c.toNat ≤ 70)

/-- The parts between colons. -/
def colonParts (cs : List Char) : List (List Char) :=
  let rec go (current : List Char) : List Char → List (List Char)
    | [] => [current.reverse]
    | c :: rest => if c == ':' then current.reverse :: go [] rest else go (c :: current) rest
  go [] cs

/-- A digit in base sixty: at most 59, written with one or two digits. -/
def isSixtieth (cs : List Char) : Bool :=
  match cs with
  | [d] => isAsciiDigit d
  | [t, d] => 48 ≤ t.toNat && t.toNat ≤ 53 && isAsciiDigit d
  | _ => false

/-- Digits and underscores that start with a digit. -/
def isCount (cs : List Char) : Bool := (cs.head?).any isAsciiDigit && isMadeOf isAsciiDigit cs

/-- Digits of a base that is a power of two; without any digit they are no number. -/
def inBase (base : Nat) (cs : List Char) : Except Abort Nat :=
  match readDigits? base 0 false (withoutUnderscores cs) with
  | some n => .ok n
  | none => .error .domain

/-- An unsigned whole number in decimal digits or in base sixty. -/
def sixties (whole : List Char) (others : List (List Char)) : Except Abort Nat := do
  others.foldlM (fun n part => return 60 * n + (← Numeral.whole part))
    (← Numeral.whole (withoutUnderscores whole))

/-- An unsigned whole number, if the text has the form of one. -/
def natural? (cs : List Char) : Option (Except Abort Nat) :=
  match cs with
  | ['0'] => some (.ok 0)
  | '0' :: 'b' :: digits =>
    if !digits.isEmpty && isMadeOf isBinaryDigit digits then some (inBase 2 digits) else none
  | '0' :: 'x' :: digits =>
    if !digits.isEmpty && isMadeOf isHexDigit digits then some (inBase 16 digits) else none
  | '0' :: digits => if isMadeOf isOctalDigit digits then some (inBase 8 cs) else none
  | _ =>
    match colonParts cs with
    | whole :: others =>
      if isCount whole && others.all isSixtieth then some (sixties whole others) else none
    | [] => none

/-- An exponent has a sign. -/
def isExponent : List Char → Bool
  | [] => true
  | e :: sign :: rest =>
    (e == 'e' || e == 'E') && (sign == '+' || sign == '-') && !rest.isEmpty && rest.all isAsciiDigit
  | _ => false

/-- What stands before the first point, and what after it. -/
def atPoint? (cs : List Char) : Option (List Char × List Char) :=
  match cs.dropWhile (· != '.') with
  | _ :: after => some (cs.takeWhile (· != '.'), after)
  | [] => none

/-- Digits and underscores, and then an exponent or nothing. -/
def isFraction (cs : List Char) : Bool :=
  isExponent (cs.dropWhile fun c => isAsciiDigit c || c == '_')

/-- The double that digits in base sixty stand for, the least of them first. -/
def sixtiesFloat (parts : List (List Char)) : Float :=
  let digit (part : List Char) : Float := (readFloat? (withoutUnderscores part)).getD 0.0
  (parts.foldl (fun (sum, unit) part => (sum + digit part * unit, unit * 60.0)) (0.0, 1.0)).1

/-- An unsigned double, if the text has the form of one. Without digits in front of the point there
has to be one behind it, and no sign. -/
def unsignedFloat? (signed : Bool) (cs : List Char) : Option Float :=
  match atPoint? cs with
  | none => none
  | some (whole, fraction) =>
    if whole.isEmpty then
      if !signed && (fraction.head?).any isAsciiDigit && isFraction fraction then
        readFloat? (withoutUnderscores cs)
      else none
    else if isCount whole && isFraction fraction then readFloat? (withoutUnderscores cs)
    else
      match colonParts whole with
      | first :: second :: others =>
        if isCount first && (second :: others).all isSixtieth && isMadeOf isAsciiDigit fraction then
          some (sixtiesFloat (colonParts cs).reverse)
        else none
      | _ => none

def signed (negative : Bool) (x : Float) : Float := if negative then -x else x

/-- The value of a plain scalar. -/
def plainValue (cs : List Char) : Except ReadFault Value :=
  let word := String.ofList cs
  let (negative, unsigned) := Numeral.takeSign cs
  if markWords.contains word then .error .malformed
  else if nullWords.contains word then .ok .null
  else if trueWords.contains word then .ok (.bool true)
  else if falseWords.contains word then .ok (.bool false)
  else if undefinedWords.contains word then .ok (.undefined .document)
  else if infinityWords.contains (String.ofList unsigned) then
    .ok (.float (signed negative Binary.infinity))
  else
    match unsignedFloat? (unsigned.length < cs.length) unsigned with
    | some x => .ok (.float (signed negative x))
    | none =>
      match natural? unsigned with
      | some n => orTooLarge ((fun n => .int (Binary.signed negative n)) <$> n)
      | none => .ok (.text word)

end LiveForm.Document
