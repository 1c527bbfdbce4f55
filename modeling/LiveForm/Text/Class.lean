import LiveForm.Text.Ranges

/-! Character classes by code point. Below 128 each rule is written out, so that facts about ASCII
text need no table; above it the Unicode ranges decide. -/

namespace LiveForm.Text

/-- White space: the ASCII controls 9 to 13 and 28 to 31, the space, and the Unicode blanks. -/
def isBlank (c : Char) : Bool :=
  if c.toNat < 128 then (9 ≤ c.toNat && c.toNat ≤ 13) || (28 ≤ c.toNat && c.toNat ≤ 32)
  else Ranges.member Ranges.blank c.toNat

/-- The information separators 28 to 31 are blank, but a number may not be padded with them. -/
def isNumberPadding (c : Char) : Bool :=
  isBlank c && !(28 ≤ c.toNat && c.toNat ≤ 31)

def isDecimal (c : Char) : Bool :=
  if c.toNat < 128 then 48 ≤ c.toNat && c.toNat ≤ 57
  else Ranges.member Ranges.decimalDigit c.toNat

/-- The value of a decimal digit of any script. Every block of digits starts at its zero. -/
def decimalValue (c : Char) : Nat :=
  if c.toNat < 128 then c.toNat - 48
  else (c.toNat - Ranges.lastChange Ranges.decimalDigit c.toNat) % 10

/-- Characters with a digit value, such as superscripts, that need not be decimal digits. -/
def isDigitLike (c : Char) : Bool :=
  if c.toNat < 128 then 48 ≤ c.toNat && c.toNat ≤ 57
  else Ranges.member Ranges.digitLike c.toNat

def isAsciiLower (c : Char) : Bool := 97 ≤ c.toNat && c.toNat ≤ 122

def isAsciiUpper (c : Char) : Bool := 65 ≤ c.toNat && c.toNat ≤ 90

def isAsciiLetter (c : Char) : Bool := isAsciiLower c || isAsciiUpper c

def isAsciiDigit (c : Char) : Bool := 48 ≤ c.toNat && c.toNat ≤ 57

/-- Letters, numbers and the underscore. -/
def isWord (c : Char) : Bool :=
  if c.toNat < 128 then isAsciiLetter c || isAsciiDigit c || c == '_'
  else Ranges.member Ranges.letterOrNumber c.toNat

def isPrintable (c : Char) : Bool :=
  if c.toNat < 128 then 32 ≤ c.toNat && c.toNat ≤ 126
  else Ranges.member Ranges.printable c.toNat

/-- Identifiers start with an ASCII letter, an underscore or a dollar sign. -/
def isIdentStart (c : Char) : Bool := isAsciiLetter c || c == '_' || c == '$'

def isIdentPart (c : Char) : Bool := isWord c || c == '$'

/-- The text without the white space around it. -/
def trimWith (blank : Char → Bool) (cs : List Char) : List Char :=
  ((cs.dropWhile blank).reverse.dropWhile blank).reverse

def trim (s : String) : String := String.ofList (trimWith isBlank s.toList)

/-- Whether the characters of `part` stand together somewhere in the text. -/
def contains (part : List Char) : List Char → Bool
  | [] => part.isEmpty
  | c :: rest => part.isPrefixOf (c :: rest) || contains part rest

/-- What stands before the first dot; the whole name when there is none. -/
def beforeDot (name : String) : String := String.ofList (name.toList.takeWhile (· != '.'))

/-- What stands after the last dot; the whole name when there is none. -/
def afterLastDot (name : String) : String :=
  String.ofList (name.toList.reverse.takeWhile (· != '.')).reverse

def hasChar (c : Char) (name : String) : Bool := name.toList.contains c

end LiveForm.Text
