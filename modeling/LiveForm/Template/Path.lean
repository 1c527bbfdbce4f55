import LiveForm.Abort
import LiveForm.Number.Numeral
import LiveForm.Text.Lowercase
import LiveForm.Value

/-! Finding a value by a path such as `items[0].name`. A key of a mapping is found by the strongest
kind of match that any key has: the name itself, the name in another case, another spelling of its
words, or a key that holds the name. Among equal matches the first key wins. -/

namespace LiveForm.Template

open Text

/-- Puts an underscore where a lowercase letter or digit meets a capital. -/
def splitWords : List Char → List Char
  | c :: d :: rest =>
    if (isAsciiLower c || isAsciiDigit c) && isAsciiUpper d then c :: '_' :: splitWords (d :: rest)
    else c :: splitWords (d :: rest)
  | cs => cs

/-- Camel, snake and dashed spellings of a name become one. -/
def normalize (name : String) : List Char :=
  lower ((splitWords name.toList).map fun c => if c == '-' then '_' else c)

/-- How a key can match a name, from the strongest kind to the weakest. -/
inductive Match where
  | sameCase | anyCase | spelling | part
deriving Repr, DecidableEq

def Match.holds (kind : Match) (name key : String) : Bool :=
  match kind with
  | sameCase => key == name
  | anyCase => lower key.toList == lower name.toList
  | spelling => normalize key == normalize name
  | part => contains (lower name.toList) (lower key.toList)

def Match.all : List Match := [sameCase, anyCase, spelling, part]

/-- The first key with the strongest kind of match. -/
def lookupKey? (m : Mapping) (name : String) : Option String :=
  let keys := m.keys.filterMap Key.text?
  Match.all.findSome? fun kind => keys.find? (kind.holds name)

/-- The parts of a path between dots and brackets; empty ones do not count. -/
def splitFrom (current : List Char) : List Char → List (List Char)
  | [] => [current.reverse]
  | c :: rest =>
    if c == '.' || c == '[' || c == ']' then current.reverse :: splitFrom [] rest
    else splitFrom (c :: current) rest

def splitPath (path : String) : List String :=
  ((splitFrom [] path.toList).filter fun part => !part.isEmpty).map String.ofList

/-- The index that a segment of digit-like characters stands for. -/
def index? (segment : String) : Except Abort (Option Nat) :=
  let cs := segment.toList
  if cs.isEmpty || !cs.all isDigitLike then .ok none
  else if cs.all isDecimal then some <$> Numeral.whole cs
  else .error .domain

/-- One step into a value. -/
def step (current : Value) (segment : String) : Except Abort (Option Value) :=
  match current with
  | .mapping entries =>
    match lookupKey? ⟨entries⟩ segment with
    | some key => .ok (Table.get? ⟨entries⟩ (.text key))
    | none => .ok (if segment = "length" then some (.int entries.length) else none)
  | .list items =>
    if segment = "length" then .ok (some (.int items.length))
    else return (← index? segment).bind fun i => items[i]?
  | .text s => .ok (if segment = "length" then some (.int s.length) else none)
  | _ => .ok none

def walk : List String → Value → Except Abort (Option Value)
  | [], v => .ok (some v)
  | segment :: rest, v => do
    match ← step v segment with
    | some next => walk rest next
    | none => return none

/-- The value at a path; a path that is itself a key names the value under it. -/
def resolvePath (path : String) (values : Mapping) : Except Abort (Option Value) :=
  match values.get? (.text path) with
  | some v => .ok (some v)
  | none => walk (splitPath path) (.ofMapping values)

end LiveForm.Template
