import LiveForm.Document.Text

/-! The tokens of a document. Outside brackets the structure is that of indentation: the first token
of a list or a mapping opens it, and a line that is indented less closes it. That a scalar is a key
shows only at the colon behind it, on the same line and not too far off; the marks of the key and of
its mapping are then put in front of it. Anchors, tags and block scalars are not read. -/

namespace LiveForm.Document

inductive Token where
  | directive
  | documentStart
  | documentEnd
  | blockList
  | blockMapping
  | blockEnd
  | openList
  | closeList
  | openMapping
  | closeMapping
  | entry
  | comma
  | key
  | value
  | scalar (text : List Char) (isPlain : Bool)
deriving Repr, DecidableEq

/-- A token that a colon would make a key. -/
structure PossibleKey where
  /-- How many tokens stand before it. -/
  number : Nat
  /-- Whether only a key can stand there. -/
  isRequired : Bool
  index : Nat
  line : Nat
  column : Nat

structure Scanner where
  cursor : Cursor
  /-- The last token comes first. -/
  tokens : List Token := []
  /-- The possible key within every open bracket and outside of them, the innermost first. -/
  keys : List (Option PossibleKey) := [none]
  /-- The indentation of the innermost open list or mapping, and of those around it. -/
  indent : Int := -1
  outer : List Int := []
  /-- Whether a key can start here. -/
  allowsKey : Bool := true

namespace Scanner

def inFlow (s : Scanner) : Bool := 1 < s.keys.length

def push (s : Scanner) (t : Token) : Scanner := { s with tokens := t :: s.tokens }

/-- Puts a token behind the first so many. -/
def insertAt (s : Scanner) (number : Nat) (t : Token) : Scanner :=
  { s with tokens := s.tokens.insertIdx (s.tokens.length - number) t }

/-- The farthest that a colon can be from the start of its key. -/
def keyReach : Nat := 1024

def isStale (p : Cursor) (k : PossibleKey) : Bool :=
  k.line != p.line || keyReach < p.index - k.index

/-- Forgets the keys that no colon can reach. -/
def dropStale (s : Scanner) : Except ReadFault Scanner :=
  if s.keys.any fun k => k.any fun k => isStale s.cursor k && k.isRequired then .error .malformed
  else .ok { s with keys := s.keys.map fun k => k.filter fun k => !isStale s.cursor k }

/-- Forgets the innermost possible key. -/
def dropKey (s : Scanner) : Except ReadFault Scanner :=
  match s.keys with
  | some k :: rest =>
    if k.isRequired then .error .malformed else .ok { s with keys := none :: rest }
  | _ => .ok s

/-- Remembers that the next token may be a key. -/
def saveKey (s : Scanner) : Except ReadFault Scanner :=
  if s.allowsKey then do
    let s ← s.dropKey
    let k : PossibleKey :=
      ⟨s.tokens.length, !s.inFlow && s.indent == s.cursor.column, s.cursor.index, s.cursor.line,
       s.cursor.column⟩
    return { s with keys := some k :: s.keys.drop 1 }
  else .ok s

/-- Closes the lists and mappings that are indented more. -/
def unwind (column : Int) : Nat → Scanner → Scanner
  | 0, s => s
  | fuel + 1, s =>
    if s.indent ≤ column then s
    else
      unwind column fuel
        { s.push .blockEnd with indent := s.outer.headD (-1), outer := s.outer.drop 1 }

def unwindTo (s : Scanner) (column : Int) : Scanner :=
  if s.inFlow then s else s.unwind column (s.outer.length + 1)

/-- Opens a list or mapping with the given indentation, unless one is open there. -/
def openBlock (s : Scanner) (column : Nat) (t : Token) (number : Nat) : Scanner :=
  if s.indent < column then
    { s.insertAt number t with indent := column, outer := s.indent :: s.outer }
  else s

/-- To the next token, over spaces, comments and line breaks. -/
def skipBetween : Nat → Scanner → Scanner
  | 0, s => s
  | fuel + 1, s =>
    let (_, p) := s.cursor.takeWhile (· == ' ')
    let p := if p.starts '#' then (p.takeWhile fun c => !isBreak c).2 else p
    match p.lineBreak? with
    | some (_, q) => skipBetween fuel { s with cursor := q, allowsKey := s.allowsKey || !s.inFlow }
    | none => { s with cursor := p }

/-- Takes a mark of some length as a token. -/
def take (s : Scanner) (length : Nat) (t : Token) : Scanner :=
  { s with cursor := s.cursor.move length, tokens := t :: s.tokens }

/-- A mark that stands outside of everything. -/
def outerMark (s : Scanner) (cursor : Cursor) (t : Token) : Except ReadFault Scanner := do
  let s ← (s.unwindTo (-1)).dropKey
  return { s.push t with cursor := cursor, allowsKey := false }

def openBracket (s : Scanner) (t : Token) : Except ReadFault Scanner := do
  let s ← s.saveKey
  return { s.take 1 t with keys := none :: s.keys, allowsKey := true }

def closeBracket (s : Scanner) (t : Token) : Except ReadFault Scanner := do
  let s ← s.dropKey
  let keys := if s.inFlow then s.keys.drop 1 else s.keys
  return { s.take 1 t with keys := keys, allowsKey := false }

def comma (s : Scanner) : Except ReadFault Scanner := do
  let s ← s.dropKey
  return { s.take 1 .comma with allowsKey := true }

def dash (s : Scanner) : Except ReadFault Scanner := do
  if !s.inFlow && !s.allowsKey then .error .malformed
  else
    let s :=
      if s.inFlow then s else s.openBlock s.cursor.column .blockList s.tokens.length
    let s ← s.dropKey
    return { s.take 1 .entry with allowsKey := true }

def questionMark (s : Scanner) : Except ReadFault Scanner := do
  if !s.inFlow && !s.allowsKey then .error .malformed
  else
    let s :=
      if s.inFlow then s else s.openBlock s.cursor.column .blockMapping s.tokens.length
    let allowsKey := !s.inFlow
    let s ← s.dropKey
    return { s.take 1 .key with allowsKey := allowsKey }

/-- A colon turns the possible key into a key; without one it stands for itself. -/
def colon (s : Scanner) : Except ReadFault Scanner := do
  match s.keys with
  | some k :: rest =>
    let s := { s.insertAt k.number .key with keys := none :: rest }
    let s := if s.inFlow then s else s.openBlock k.column .blockMapping k.number
    return { s.take 1 .value with allowsKey := false }
  | _ =>
    if !s.inFlow && !s.allowsKey then .error .malformed
    else
      let s :=
        if s.inFlow then s else s.openBlock s.cursor.column .blockMapping s.tokens.length
      let allowsKey := !s.inFlow
      let s ← s.dropKey
      return { s.take 1 .value with allowsKey := allowsKey }

def quoted (s : Scanner) (quote : Char) : Except ReadFault Scanner := do
  let s ← s.saveKey
  let (text, p) ← quotedScalar quote s.cursor
  return { s.push (.scalar text false) with cursor := p, allowsKey := false }

def plain (s : Scanner) : Except ReadFault Scanner := do
  let s ← s.saveKey
  let (text, broken, p) := plainScalar s.inFlow (s.indent + 1) s.cursor
  return { s.push (.scalar text true) with cursor := p, allowsKey := broken }

/-- Takes the token that starts with the given character. -/
def token (s : Scanner) (c : Char) (rest : List Char) : Except ReadFault Scanner :=
  let atLineStart := s.cursor.column == 0
  if c == '%' && atLineStart then
    s.outerMark (s.cursor.takeWhile fun c => !isBreak c).2 .directive
  else if atLineStart && isSeparator (c :: rest) then
    s.outerMark (s.cursor.move 3) (if c == '-' then .documentStart else .documentEnd)
  else if c == '[' then s.openBracket .openList
  else if c == '\x7b' then s.openBracket .openMapping
  else if c == ']' then s.closeBracket .closeList
  else if c == '\x7d' then s.closeBracket .closeMapping
  else if c == ',' then s.comma
  else if c == '-' && endsWord rest then s.dash
  else if c == '?' && (s.inFlow || endsWord rest) then s.questionMark
  else if c == ':' && (s.inFlow || endsWord rest) then s.colon
  else if c == '\'' || c == '"' then s.quoted c
  else if startsPlain s.inFlow (c :: rest) then s.plain
  else .error .malformed

/-- Takes every token up to the end of the text, where everything that is open closes. -/
def run : Nat → Scanner → Except ReadFault (List Token)
  | 0, _ => .error .malformed
  | fuel + 1, s => do
    let s ← (s.skipBetween (s.cursor.rest.length + 1)).dropStale
    let s := s.unwindTo s.cursor.column
    match s.cursor.rest with
    | [] =>
      let s ← (s.unwindTo (-1)).dropKey
      return s.tokens.reverse
    | c :: rest => run fuel (← s.token c rest)

end Scanner

/-- The tokens of a text. A byte order mark in front of it does not count. -/
def tokens (cs : List Char) : Except ReadFault (List Token) :=
  let start : Cursor := ⟨cs, 0, 0, 0⟩
  Scanner.run (cs.length + 1) { cursor := if start.starts '\ufeff' then start.next else start }

end LiveForm.Document
