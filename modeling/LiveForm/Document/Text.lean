import LiveForm.Document.Cursor
import LiveForm.Document.Scalar

/-! The text of a scalar, quoted or plain. A scalar may run over several lines: a single line break
in it counts as a space, and of several the first does not count. -/

namespace LiveForm.Document

/-- What a line break and the breaks of the empty lines after it stand for. -/
def folded (first : Char) (more : List Char) : List Char :=
  if first != '\n' then first :: more else if more.isEmpty then [' '] else more

/-- The breaks of empty lines inside quotes. No line there starts with the mark of a document. -/
def quotedBreaks : Nat → Cursor → Except ReadFault (List Char × Cursor)
  | 0, p => .ok ([], p)
  | fuel + 1, p =>
    if isSeparator p.rest then .error .malformed
    else
      let (_, q) := p.takeWhile isSpace
      match q.lineBreak? with
      | some (b, r) => do
        let (more, s) ← quotedBreaks fuel r
        return (b :: more, s)
      | none => .ok ([], q)

/-- The characters that a letter after a backslash stands for. -/
def escapes : List (Char × Char) :=
  [('0', '\x00'), ('a', '\x07'), ('b', '\x08'), ('t', '\t'), ('\t', '\t'), ('n', '\n'),
   ('v', '\x0b'), ('f', '\x0c'), ('r', '\r'), ('e', '\x1b'), (' ', ' '), ('"', '"'),
   ('\\', '\\'), ('/', '/'), ('N', '\u0085'), ('_', '\u00a0'), ('L', '\u2028'), ('P', '\u2029')]

/-- How many hexadecimal digits follow a letter after a backslash. -/
def hexWidth? (c : Char) : Option Nat :=
  if c == 'x' then some 2 else if c == 'u' then some 4 else if c == 'U' then some 8 else none

/-- The character with a code point in hexadecimal digits. -/
def hexChar (width : Nat) (cs : List Char) : Except ReadFault Char :=
  let digits := cs.take width
  match if digits.all isHexDigit then Text.readDigits? 16 0 false digits else none with
  | none => .error .malformed
  | some n =>
    if digits.length < width then .error .malformed
    else if n.isValidChar then .ok (Char.ofNat n)
    else .error (.abort (if n < Binary.twoTo 31 then .domain else .range))

/-- What a backslash and the text after it stand for, and the place behind that. -/
def escaped (p : Cursor) : Except ReadFault (List Char × Cursor) :=
  match p.rest with
  | [] => .error .malformed
  | c :: rest =>
    match escapes.lookup c, hexWidth? c, p.lineBreak? with
    | some d, _, _ => .ok ([d], p.next)
    | none, some width, _ => do
      let d ← hexChar width rest
      return ([d], p.move (width + 1))
    | none, none, some (_, q) => quotedBreaks (q.rest.length + 1) q
    | none, none, none => .error .malformed

/-- The rest of a quoted scalar. In double quotes a backslash escapes; in single quotes a doubled
quote stands for one. -/
def quotedFrom (quote : Char) : Nat → List Char → Cursor → Except ReadFault (List Char × Cursor)
  | 0, _, _ => .error .malformed
  | fuel + 1, text, p =>
    match p.rest with
    | [] => .error .malformed
    | c :: rest =>
      if c == quote then
        if quote == '\'' && rest.head? == some quote then
          quotedFrom quote fuel (text ++ [quote]) (p.move 2)
        else .ok (text, p.next)
      else if isSpace c || isBreak c then
        let (blanks, q) := p.takeWhile isSpace
        match q.lineBreak? with
        | some (b, r) => do
          let (more, s) ← quotedBreaks (r.rest.length + 1) r
          quotedFrom quote fuel (text ++ folded b more) s
        | none => quotedFrom quote fuel (text ++ blanks) q
      else if quote == '"' && c == '\\' then do
        let (cs, q) ← escaped p.next
        quotedFrom quote fuel (text ++ cs) q
      else quotedFrom quote fuel (text ++ [c]) p.next

/-- A quoted scalar, from its opening quote. -/
def quotedScalar (quote : Char) (p : Cursor) : Except ReadFault (List Char × Cursor) :=
  quotedFrom quote (p.rest.length + 1) [] p.next

def isFlowMark (c : Char) : Bool := c == ',' || c == '[' || c == ']' || c == '\x7b' || c == '\x7d'

/-- Characters that no plain scalar starts with; three more may start one when text follows them. -/
def isIndicator (c : Char) : Bool :=
  isFlowMark c || ['#', '&', '*', '!', '|', '>', '%', '@', '\x60', '\'', '"'].contains c

def startsPlain (inFlow : Bool) : List Char → Bool
  | c :: rest =>
    if isSpace c || isBreak c || isIndicator c then false
    else if c == '-' then !endsWord rest
    else if c == '?' || c == ':' then !endsWord rest && !inFlow
    else true
  | [] => false

/-- How many characters of a plain scalar stand together. Inside brackets more of them end it. -/
def plainRun (inFlow : Bool) : List Char → Nat
  | [] => 0
  | c :: rest =>
    if isSpace c || isBreak c then 0
    else if c == ':' && (endsWord rest || (inFlow && (rest.head?).any isFlowMark)) then 0
    else if inFlow && (isFlowMark c || c == '?') then 0
    else plainRun inFlow rest + 1

/-- The breaks of empty lines in a plain scalar; none in front of the mark of a document. -/
def plainBreaks : Nat → Cursor → Option (List Char) × Cursor
  | 0, p => (some [], p)
  | fuel + 1, p =>
    if isSeparator p.rest then (none, p)
    else
      let (_, q) := p.takeWhile (· == ' ')
      match q.lineBreak? with
      | some (b, r) =>
        let (more, s) := plainBreaks fuel r
        (more.map (b :: ·), s)
      | none => (some [], q)

/-- What stands between two runs of a plain scalar, if it goes on, and whether lines are broken. -/
def plainSpaces (p : Cursor) : Option (List Char) × Bool × Cursor :=
  let (blanks, q) := p.takeWhile (· == ' ')
  match q.lineBreak? with
  | some (b, r) =>
    let (more, s) := plainBreaks (r.rest.length + 1) r
    (more.map (folded b), true, s)
  | none => (some blanks, false, q)

/-- The rest of a plain scalar. Outside brackets it needs some indentation. The flag says whether
the scalar is followed by a line break. -/
def plainFrom (inFlow : Bool) (indent : Int) :
    Nat → List Char → List Char → Bool → Cursor → List Char × Bool × Cursor
  | 0, text, _, broken, p => (text, broken, p)
  | fuel + 1, text, spaces, broken, p =>
    let length := plainRun inFlow p.rest
    if p.starts '#' || length = 0 then (text, broken, p)
    else
      let text := text ++ spaces ++ p.rest.take length
      match plainSpaces (p.move length) with
      | (none, broken, q) => (text, broken, q)
      | (some spaces, broken, q) =>
        if spaces.isEmpty || q.starts '#' || (!inFlow && (q.column : Int) < indent) then
          (text, broken, q)
        else plainFrom inFlow indent fuel text spaces broken q

def plainScalar (inFlow : Bool) (indent : Int) (p : Cursor) : List Char × Bool × Cursor :=
  plainFrom inFlow indent (p.rest.length + 1) [] [] false p

end LiveForm.Document
