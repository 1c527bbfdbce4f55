import LiveForm.Json.Order
import LiveForm.Limits
import LiveForm.Number.Text
import LiveForm.Text.Quoted
import LiveForm.Value

/-! Values as JSON text in ASCII. Doubles that JSON does not know are written by name. Mapping keys
become text; where keys are sorted they have to be of one kind, text or numbers, unless there is
only one of them. Collections that are nested more deeply than there is room for are not written. -/

namespace LiveForm.Json

/-- The two halves of a code point beyond the first plane, or the code point itself. -/
def units16 (n : Nat) : List Nat :=
  if n < 0x10000 then [n] else [0xd800 + (n - 0x10000) / 0x400, 0xdc00 + (n - 0x10000) % 0x400]

def escapedChar (c : Char) : List Char :=
  if c == '"' || c == '\\' then ['\\', c]
  else if c == '\n' then ['\\', 'n']
  else if c == '\r' then ['\\', 'r']
  else if c == '\t' then ['\\', 't']
  else if c == '\x08' then ['\\', 'b']
  else if c == '\x0c' then ['\\', 'f']
  else if 32 ≤ c.toNat && c.toNat ≤ 126 then [c]
  else (units16 c.toNat).flatMap fun unit => '\\' :: 'u' :: Text.hex 4 unit

def textLiteral (s : String) : String :=
  String.ofList ('"' :: s.toList.flatMap escapedChar ++ ['"'])

def floatLiteral (x : Float) : String :=
  if x.isNaN then "NaN"
  else if x.isInf then (if x < 0 then "-Infinity" else "Infinity")
  else Decimal.floatText x

def intLiteral (n : Int) : Except Abort String :=
  if isWritable n then .ok (Decimal.intText n) else .error .domain

def keyText : Key → Except Abort String
  | .null => .ok "null"
  | .bool b => .ok (if b then "true" else "false")
  | .int n => intLiteral n
  | .float x => .ok (floatLiteral x)
  | .undefined _ => .ok "NaN"
  | .text s => .ok s

/-- Whether two keys have an order: two texts, or two numbers. -/
def areComparable (j k : Key) : Bool :=
  match j, k with
  | .text _, .text _ => true
  | _, _ => j.number?.isSome && k.number?.isSome

/-- Whether the first of two keys stands before the second. -/
def keyBefore (j k : Key) : Bool :=
  match j, k with
  | .text s, .text t => s < t
  | _, _ =>
    match j.number?, k.number? with
    | some a, some b => a.lt b
    | _, _ => false

/-- Sorts entries by key. -/
def sortEntries {α : Type} (entries : List (Key × α)) : Except Abort (List (Key × α)) :=
  match entries with
  | [] => .ok []
  | (first, _) :: rest =>
    if rest.all fun e => areComparable first e.1 then
      .ok (inOrder (fun e f => keyBefore e.1 f.1) entries)
    else .error .mismatch

/-- How the parts of a list or mapping are laid out: on one line, or one to a line with indentation
by depth. -/
structure Layout where
  sorted : Bool
  indent : Option Nat

def compact : Layout := ⟨true, none⟩

def pretty : Layout := ⟨false, some 2⟩

def newline (step depth : Nat) : String := "\n" ++ String.ofList (List.replicate (step * depth) ' ')

def enclosed (layout : Layout) (depth : Nat) (opening closing : String) (parts : List String) :
    String :=
  if parts.isEmpty then opening ++ closing
  else
    match layout.indent with
    | none => opening ++ String.intercalate ", " parts ++ closing
    | some step =>
      opening ++ newline step (depth + 1) ++
        String.intercalate ("," ++ newline step (depth + 1)) parts ++ newline step depth ++ closing

/-- Puts keys in front of written values, sorted if the layout asks for it. -/
def members (layout : Layout) (parts : List (Key × Except Abort String)) :
    Except Abort (List String) := do
  let ordered ← if layout.sorted then sortEntries parts else pure parts
  ordered.mapM fun (k, text) => return textLiteral (← keyText k) ++ ": " ++ (← text)

mutual

def render (room : Nat) (layout : Layout) (depth : Nat) : Value → Except Abort String
  | .null => .ok "null"
  | .bool b => .ok (if b then "true" else "false")
  | .int n => intLiteral n
  | .float x => .ok (floatLiteral x)
  | .undefined _ => .ok "NaN"
  | .text s => .ok (textLiteral s)
  | .list items => do
    let room ← below 1 room
    return enclosed layout depth "[" "]" (← renderItems room layout (depth + 1) items)
  | .mapping entries => do
    let room ← below 1 room
    let parts ← members layout (renderEntries room layout (depth + 1) entries)
    return enclosed layout depth "\x7b" "\x7d" parts

def renderItems (room : Nat) (layout : Layout) (depth : Nat) :
    List Value → Except Abort (List String)
  | [] => .ok []
  | v :: rest => do
    let text ← render room layout depth v
    return text :: (← renderItems room layout depth rest)

def renderEntries (room : Nat) (layout : Layout) (depth : Nat) :
    List (Key × Value) → List (Key × Except Abort String)
  | [] => []
  | (k, v) :: rest => (k, render room layout depth v) :: renderEntries room layout depth rest

end

end LiveForm.Json
