import LiveForm.Expr.SyntaxError
import LiveForm.Text.Class

/-! Cutting expression text into tokens. Each pattern says how many characters it matches at the
front of a text, zero meaning none. At every place the first pattern of the list that matches gives
the token; white space gives none. A row-scoped id such as `products[2].quantity` is one token. -/

namespace LiveForm

open Text

namespace Pattern

/-- A pattern that goes on from a mark it has already counted. -/
def after (count : Nat) (rest : Nat) : Nat := if rest = 0 then 0 else count + rest

def run (p : Char → Bool) (cs : List Char) : Nat := (cs.takeWhile p).length

def exact (mark : List Char) (cs : List Char) : Nat :=
  if mark.isPrefixOf cs then mark.length else 0

def sign : List Char → Nat
  | c :: _ => if c == '+' || c == '-' then 1 else 0
  | [] => 0

/-- An exponent mark with at least one digit. -/
def exponent : List Char → Nat
  | c :: rest =>
    if c == 'e' || c == 'E' then
      let signs := sign rest
      after (1 + signs) (run isDecimal (rest.drop signs))
    else 0
  | [] => 0

/-- Digits with a point or an exponent, or a point with digits after it. -/
def float (cs : List Char) : Nat :=
  let whole := run isDecimal cs
  match cs.drop whole with
  | '.' :: rest =>
    let places := run isDecimal rest
    if whole = 0 && places = 0 then 0
    else whole + 1 + places + exponent (rest.drop places)
  | rest => if whole = 0 then 0 else after whole (exponent rest)

/-- The characters up to and with the closing quote; a backslash takes the next character with it,
unless that is a line break. -/
def closing (quote : Char) : List Char → Option Nat
  | [] => none
  | [c] => if c == quote then some 1 else none
  | c :: d :: rest =>
    if c == quote then some 1
    else if c == '\\' then
      if d == '\n' then none else (closing quote rest).map (· + 2)
    else (closing quote (d :: rest)).map (· + 1)

def text (quote : Char) : List Char → Nat
  | c :: rest => if c == quote then ((closing quote rest).map (· + 1)).getD 0 else 0
  | [] => 0

def ident : List Char → Nat
  | c :: rest => if isIdentStart c then 1 + run isIdentPart rest else 0
  | [] => 0

/-- Any number of dots, each with an identifier. -/
def accesses : Nat → List Char → Nat
  | fuel + 1, '.' :: rest =>
    let length := ident rest
    if length = 0 then 0 else 1 + length + accesses fuel (rest.drop length)
  | _, _ => 0

/-- An index in brackets, decimal digits only. -/
def index : List Char → Nat
  | '[' :: rest =>
    let digits := run isDecimal rest
    if digits = 0 then 0
    else
      match rest.drop digits with
      | ']' :: _ => digits + 2
      | _ => 0
  | _ => 0

/-- An identifier, an index and at least one access. -/
def rowName (cs : List Char) : Nat :=
  let array := ident cs
  if array = 0 then 0
  else
    let bracket := index (cs.drop array)
    if bracket = 0 then 0
    else
      let rest := cs.drop (array + bracket)
      after (array + bracket) (accesses rest.length rest)

end Pattern

/-- The patterns in the order in which they are tried; white space carries no kind. -/
def patterns : List (Option TokenKind × (List Char → Nat)) :=
  [(none, Pattern.run isBlank),
   (some .float, Pattern.float),
   (some .int, Pattern.run isDecimal),
   (some .text, Pattern.text '"'),
   (some .text, Pattern.text '\''),
   (some .rowName, Pattern.rowName),
   (some .ident, Pattern.ident),
   (some .eq, Pattern.exact ['=', '=', '=']),
   (some .eq, Pattern.exact ['=', '=']),
   (some .ne, Pattern.exact ['!', '=', '=']),
   (some .ne, Pattern.exact ['!', '=']),
   (some .le, Pattern.exact ['<', '=']),
   (some .ge, Pattern.exact ['>', '=']),
   (some .and, Pattern.exact ['&', '&']),
   (some .or, Pattern.exact ['|', '|']),
   (some .not, Pattern.exact ['!']),
   (some .question, Pattern.exact ['?']),
   (some .colon, Pattern.exact [':']),
   (some .plus, Pattern.exact ['+']),
   (some .minus, Pattern.exact ['-']),
   (some .star, Pattern.exact ['*']),
   (some .slash, Pattern.exact ['/']),
   (some .percent, Pattern.exact ['%']),
   (some .lt, Pattern.exact ['<']),
   (some .gt, Pattern.exact ['>']),
   (some .lparen, Pattern.exact ['(']),
   (some .rparen, Pattern.exact [')']),
   (some .comma, Pattern.exact [',']),
   (some .dot, Pattern.exact ['.'])]

/-- The identifiers that are words of the language. -/
def keyword? (word : String) : Option TokenKind :=
  if word = "true" then some .trueWord
  else if word = "false" then some .falseWord
  else if word = "null" then some .nullWord
  else if word = "and" then some .and
  else if word = "or" then some .or
  else if word = "not" then some .not
  else none

namespace Token

/-- The kind and length of the first lexeme of a text, when a pattern matches there. -/
def lexeme? (cs : List Char) : Option (Option TokenKind × Nat) :=
  patterns.findSome? fun (kind, length) =>
    let n := length cs
    if n = 0 then none else some (kind, n)

def ofLexeme (kind : TokenKind) (lexeme : List Char) (position : Nat) : Token :=
  let text := String.ofList lexeme
  ⟨if kind = .ident then (keyword? text).getD .ident else kind, text, position⟩

/-- Emits a lexeme at its first character and passes over its others, counted by `skip`. -/
def scanFrom (position skip : Nat) : List Char → Except SyntaxError (List Token)
  | [] => .ok [⟨.eof, "", position⟩]
  | c :: rest =>
    match skip with
    | skip + 1 => scanFrom (position + 1) skip rest
    | 0 =>
      match lexeme? (c :: rest) with
      | none => .error ⟨.unexpectedChar c, position⟩
      | some (kind?, length) => do
        let tokens ← scanFrom (position + 1) (length - 1) rest
        match kind? with
        | some kind => return ofLexeme kind ((c :: rest).take length) position :: tokens
        | none => return tokens

/-- The tokens of a text, ended by one of kind `eof` at the length of the text. -/
def scan (source : String) : Except SyntaxError (List Token) := scanFrom 0 0 source.toList

end Token

end LiveForm
