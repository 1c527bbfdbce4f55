import LiveForm.Number.Numeral
import LiveForm.ReadFault
import LiveForm.Value

/-! Reading JSON text into a value. Besides JSON proper, the doubles without a numeral can be
written by name. A number without a point and an exponent is a whole number. Of entries with the
same key the last one counts. A number that is too long or a collection that is nested too deeply
ends the reading where it stands. -/

namespace LiveForm.Json

open Text

/-- Takes a part off the front of the text. -/
abbrev Reader (α : Type) := List Char → Except ReadFault (α × List Char)

def isSpace (c : Char) : Bool := c == ' ' || c == '\t' || c == '\n' || c == '\r'

def skip (cs : List Char) : List Char := cs.dropWhile isSpace

/-- Takes a fixed word. -/
def word? (w : String) (cs : List Char) : Option (List Char) :=
  let mark := w.toList
  if mark.isPrefixOf cs then some (cs.drop mark.length) else none

def hexValue? (c : Char) : Option Nat := (baseDigit? c).filter fun d => d < 16 && c.toNat < 128

/-- Four hexadecimal digits. -/
def unit16? : List Char → Option (Nat × List Char)
  | a :: b :: c :: d :: rest => do
    let w ← hexValue? a
    let x ← hexValue? b
    let y ← hexValue? c
    let z ← hexValue? d
    return (((w * 16 + x) * 16 + y) * 16 + z, rest)
  | _ => none

/-- A code point from one unit or from a pair of surrogates. -/
def codePoint? (cs : List Char) : Option (Char × List Char) := do
  let (high, rest) ← unit16? cs
  if 0xd800 ≤ high && high < 0xdc00 then
    match rest with
    | '\\' :: 'u' :: after => do
      let (low, rest) ← unit16? after
      if 0xdc00 ≤ low && low < 0xe000 then
        return (Char.ofNat (0x10000 + (high - 0xd800) * 0x400 + (low - 0xdc00)), rest)
      else none
    | _ => none
  else if 0xdc00 ≤ high && high < 0xe000 then none
  else return (Char.ofNat high, rest)

def escapes : List (Char × Char) :=
  [('"', '"'), ('\\', '\\'), ('/', '/'), ('b', '\x08'), ('f', '\x0c'), ('n', '\n'), ('r', '\r'),
   ('t', '\t')]

/-- The characters up to the closing quote. -/
def textBody : Nat → List Char → List Char → Option (List Char × List Char)
  | _ + 1, acc, '"' :: rest => some (acc.reverse, rest)
  | fuel + 1, acc, '\\' :: 'u' :: rest => do
    let (c, rest) ← codePoint? rest
    textBody fuel (c :: acc) rest
  | fuel + 1, acc, '\\' :: c :: rest => do
    let d ← escapes.lookup c
    textBody fuel (d :: acc) rest
  | fuel + 1, acc, c :: rest =>
    if c.toNat < 32 then none else textBody fuel (c :: acc) rest
  | _, _, _ => none

/-- A text, after its opening quote. -/
def text? (cs : List Char) : Option (String × List Char) := do
  let (body, rest) ← textBody (cs.length + 1) [] cs
  return (String.ofList body, rest)

/-- The fraction of a number: a point and at least one digit. -/
def fraction (cs : List Char) : List Char × List Char :=
  match cs with
  | '.' :: rest =>
    let digits := rest.takeWhile isAsciiDigit
    if digits.isEmpty then ([], cs) else ('.' :: digits, rest.dropWhile isAsciiDigit)
  | _ => ([], cs)

/-- The exponent of a number: a mark, a sign or none, and at least one digit. -/
def exponent (cs : List Char) : List Char × List Char :=
  match cs with
  | mark :: rest =>
    let sign := (rest.take 1).filter fun c => c == '+' || c == '-'
    let unsigned := rest.drop sign.length
    let digits := unsigned.takeWhile isAsciiDigit
    if (mark == 'e' || mark == 'E') && !digits.isEmpty then
      (mark :: sign ++ digits, unsigned.dropWhile isAsciiDigit)
    else ([], cs)
  | [] => ([], [])

/-- An unsigned number; a whole part of several digits does not start with zero. -/
def number (negative : Bool) : Reader Value := fun cs =>
  let digits := cs.takeWhile isAsciiDigit
  let whole := if digits.head? == some '0' then ['0'] else digits
  if whole.isEmpty then .error .malformed
  else
    let (places, rest) := fraction (cs.drop whole.length)
    let (power, rest) := exponent rest
    if places.isEmpty && power.isEmpty then
      return (.int (Binary.signed negative (← orTooLarge (Numeral.whole whole))), rest)
    else do
      let (numeral, _) ← orMalformed (Numeral.scan? (whole ++ places ++ power))
      return (.float (numeral.toFloat negative), rest)

def words : List (String × Value) :=
  [("null", .null), ("true", .bool true), ("false", .bool false), ("NaN", .undefined .json),
   ("Infinity", .float Binary.infinity), ("-Infinity", .float (-Binary.infinity))]

def scalar : Reader Value := fun cs =>
  match words.findSome? fun (w, v) => (word? w cs).map (v, ·) with
  | some found => .ok found
  | none =>
    match cs with
    | '-' :: rest => number true rest
    | _ => number false cs

mutual

/-- A value whose collections are nested at most `depth` deep. -/
def valueFrom : Nat → Nat → Reader Value
  | 0, _, _ => .error .malformed
  | fuel + 1, depth, cs =>
    match skip cs with
    | '"' :: rest => (orMalformed (text? rest)).map fun (s, rest) => (.text s, rest)
    | '[' :: rest =>
      match depth with
      | 0 => .error (.abort .depth)
      | depth + 1 =>
        match skip rest with
        | ']' :: rest => .ok (.list [], rest)
        | _ => itemsFrom fuel depth [] rest
    | '\x7b' :: rest =>
      match depth with
      | 0 => .error (.abort .depth)
      | depth + 1 =>
        match skip rest with
        | '\x7d' :: rest => .ok (.mapping [], rest)
        | _ => membersFrom fuel depth .empty rest
    | cs => scalar cs

/-- The items of a list, at least one. -/
def itemsFrom : Nat → Nat → List Value → Reader Value
  | 0, _, _, _ => .error .malformed
  | fuel + 1, depth, found, cs => do
    let (v, rest) ← valueFrom fuel depth cs
    match skip rest with
    | ',' :: rest => itemsFrom fuel depth (v :: found) rest
    | ']' :: rest => .ok (.list (v :: found).reverse, rest)
    | _ => .error .malformed

/-- The entries of a mapping, at least one. -/
def membersFrom : Nat → Nat → Mapping → Reader Value
  | 0, _, _, _ => .error .malformed
  | fuel + 1, depth, m, cs =>
    match skip cs with
    | '"' :: rest => do
      let (name, rest) ← orMalformed (text? rest)
      match skip rest with
      | ':' :: rest => do
        let (v, rest) ← valueFrom fuel depth rest
        match skip rest with
        | ',' :: rest => membersFrom fuel depth (m.insert (.text name) v) rest
        | '\x7d' :: rest => .ok (.ofMapping (m.insert (.text name) v), rest)
        | _ => .error .malformed
      | _ => .error .malformed
    | _ => .error .malformed

end

/-- Reads a whole text. -/
def read (text : String) : Except ReadFault Value := do
  let cs := text.toList
  let (v, rest) ← valueFrom (cs.length + 1) depthLimit cs
  if (skip rest).isEmpty then return v else .error .malformed

end LiveForm.Json
