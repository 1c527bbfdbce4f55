/-! A place in the text of a document: what follows it, and how far it is from the start of the text
and of its line. Five characters break lines; a carriage return and a line feed break one together.
-/

namespace LiveForm.Document

structure Cursor where
  rest : List Char
  index : Nat := 0
  line : Nat := 0
  column : Nat := 0

def isBreak (c : Char) : Bool :=
  c == '\n' || c == '\r' || c == '\u0085' || c == '\u2028' || c == '\u2029'

def isSpace (c : Char) : Bool := c == ' ' || c == '\t'

/-- Whether a word can end in front of the text. -/
def endsWord : List Char → Bool
  | [] => true
  | c :: _ => isSpace c || isBreak c

/-- The marks that start and end a document, where they stand at the start of a line. -/
def isSeparator (cs : List Char) : Bool :=
  (cs.take 3 == ['-', '-', '-'] || cs.take 3 == ['.', '.', '.']) && endsWord (cs.drop 3)

namespace Cursor

/-- One character on. A byte order mark takes no column. -/
def next (p : Cursor) : Cursor :=
  match p.rest with
  | [] => p
  | c :: rest =>
    if isBreak c && !(c == '\r' && rest.head? == some '\n') then ⟨rest, p.index + 1, p.line + 1, 0⟩
    else if c == '\ufeff' then { p with rest := rest, index := p.index + 1 }
    else ⟨rest, p.index + 1, p.line, p.column + 1⟩

def move : Nat → Cursor → Cursor
  | 0, p => p
  | n + 1, p => move n p.next

/-- The characters of a kind, and the place behind them. -/
def takeWhile (kind : Char → Bool) (p : Cursor) : List Char × Cursor :=
  let cs := p.rest.takeWhile kind
  (cs, p.move cs.length)

def starts (c : Char) (p : Cursor) : Bool := p.rest.head? == some c

/-- The line break at a place: what it counts as in text, and the place behind it. -/
def lineBreak? (p : Cursor) : Option (Char × Cursor) :=
  match p.rest with
  | '\r' :: '\n' :: _ => some ('\n', p.move 2)
  | c :: _ =>
    if isBreak c then some (if c == '\u2028' || c == '\u2029' then c else '\n', p.next) else none
  | [] => none

end Cursor

end LiveForm.Document
