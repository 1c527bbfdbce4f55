import LiveForm.Limits
import LiveForm.Number.Text
import LiveForm.Text.Quoted
import LiveForm.Value

/-! The two texts of a value. Its literal shows kind and structure and stands in messages: text is
quoted, and words start with a capital letter. Its display text is what a reader of the form sees:
text stands as it is, whole doubles lose their point, and list items are joined by commas. Neither can
be written when a whole number in the value has too many digits, or its collections are nested more
deeply than there is room for; of two such obstacles the first one met ends the writing. -/

namespace LiveForm

def boolLiteral (b : Bool) : String := if b then "True" else "False"

namespace Key

def literal : Key → String
  | .null => "None"
  | .bool b => boolLiteral b
  | .int n => Decimal.intText n
  | .float x => Decimal.floatText x
  | .undefined _ => "nan"
  | .text s => Text.quoted s

def isWritable : Key → Bool
  | .int n => LiveForm.isWritable n
  | _ => true

/-- The key as a part of a name. -/
def bare : Key → String
  | .text s => s
  | k => k.literal

end Key

namespace Value

def joined (opening closing : String) (parts : List String) : String :=
  opening ++ String.intercalate ", " parts ++ closing

mutual

def literal : Value → String
  | .null => "None"
  | .bool b => boolLiteral b
  | .int n => Decimal.intText n
  | .float x => Decimal.floatText x
  | .undefined _ => "nan"
  | .text s => Text.quoted s
  | .list items => joined "[" "]" (literalItems items)
  | .mapping entries => joined "\x7b" "\x7d" (literalEntries entries)

def literalItems : List Value → List String
  | [] => []
  | v :: rest => literal v :: literalItems rest

def literalEntries : List (Key × Value) → List String
  | [] => []
  | (k, v) :: rest => (k.literal ++ ": " ++ literal v) :: literalEntries rest

end

def floatDisplay (x : Float) : String :=
  match Binary.exactInt? x with
  | some n => Decimal.intText n
  | none => Decimal.floatText x

mutual

def display : Value → String
  | .null => "null"
  | .bool b => if b then "true" else "false"
  | .int n => Decimal.intText n
  | .float x => floatDisplay x
  | .undefined _ => "nan"
  | .text s => s
  | .list items => String.intercalate "," (displayItems items)
  | .mapping entries => literal (.mapping entries)

def displayItems : List Value → List String
  | [] => []
  | v :: rest => display v :: displayItems rest

end

/-- The levels that the display text of a list takes for each level of the list. -/
def displayLevels : Nat := 3

mutual

/-- Passes a value whose literal can be written. -/
def guardLiteral (room : Nat) : Value → Except Abort Unit
  | .int n => orUnwritable (LiveForm.isWritable n)
  | .list items => do guardLiterals (← below 1 room) items
  | .mapping entries => do guardEntries (← below 1 room) entries
  | _ => .ok ()

def guardLiterals (room : Nat) : List Value → Except Abort Unit
  | [] => .ok ()
  | v :: rest => do
    guardLiteral room v
    guardLiterals room rest

def guardEntries (room : Nat) : List (Key × Value) → Except Abort Unit
  | [] => .ok ()
  | (k, v) :: rest => do
    orUnwritable k.isWritable
    guardLiteral room v
    guardEntries room rest

end

mutual

/-- Passes a value whose display text can be written. -/
def guardDisplay (room : Nat) : Value → Except Abort Unit
  | .list items => do guardDisplays (← below displayLevels room) items
  | v => guardLiteral room v

def guardDisplays (room : Nat) : List Value → Except Abort Unit
  | [] => .ok ()
  | v :: rest => do
    guardDisplay room v
    guardDisplays room rest

end

/-- The literal of a value that can be written. -/
def written (room : Nat) (v : Value) : Except Abort String := do
  guardLiteral room v
  return v.literal

/-- The display text of a value that can be written. -/
def shown (room : Nat) (v : Value) : Except Abort String := do
  guardDisplay room v
  return v.display

end Value

end LiveForm
