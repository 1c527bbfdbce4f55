import LiveForm.Number.Arithmetic
import LiveForm.Table

/-! Field values: null, truth values, numbers, text, lists and mappings. Mapping keys need not be
text. Truth values count as the whole numbers zero and one wherever values or keys are compared for
equality, and whole numbers and doubles are equal when they are the same number; lists are compared
item by item, and mappings without regard to order. The undefined number equals nothing, itself
included. Within lists and mappings, however, two of them are the same if they have one origin. -/

namespace LiveForm

/-- Where an undefined number that was not computed comes from. All those in documents are one,
and so are all those in JSON text; any other is told apart by a number. -/
inductive Origin where
  | document
  | json
  | entry (n : Nat)
deriving Repr, DecidableEq

inductive Key where
  | null
  | bool (b : Bool)
  | int (n : Int)
  | float (x : Float)
  | undefined (origin : Origin)
  | text (s : String)
deriving Inhabited

inductive Value where
  | null
  | bool (b : Bool)
  | int (n : Int)
  | float (x : Float)
  /-- The undefined number as it was entered. -/
  | undefined (origin : Origin)
  | text (s : String)
  | list (items : List Value)
  | mapping (entries : List (Key × Value))
deriving Inhabited

abbrev Mapping := Table Key Value

/-- A table of values under names: what expressions read. -/
abbrev Context := Table String Value

def boolNumber (b : Bool) : Number := .int (if b then 1 else 0)

namespace Key

/-- The number that a key is compared as. -/
def number? : Key → Option Number
  | .bool b => some (boolNumber b)
  | .int n => some (.int n)
  | .float x => some (.float x)
  | .undefined _ => some (.float Binary.notANumber)
  | _ => none

/-- Whether two keys are one. -/
def equal : Key → Key → Bool
  | .undefined a, .undefined b => a == b
  | .text s, .text t => s == t
  | .null, .null => true
  | j, k =>
    match j.number?, k.number? with
    | some a, some b => a.equal b
    | _, _ => false

instance : BEq Key := ⟨equal⟩

def text? : Key → Option String
  | .text s => some s
  | _ => none

end Key

def Key.toValue : Key → Value
  | .null => .null
  | .bool b => .bool b
  | .int n => .int n
  | .float x => .float x
  | .undefined origin => .undefined origin
  | .text s => .text s

namespace Value

/-- The number that a value is, truth values aside. -/
def number? : Value → Option Number
  | .int n => some (.int n)
  | .float x => some (.float x)
  | .undefined _ => some (.float Binary.notANumber)
  | _ => none

def ofNumber : Number → Value
  | .int n => .int n
  | .float x => .float x

/-- The number that a value is compared as. -/
def comparable? : Value → Option Number
  | .bool b => some (boolNumber b)
  | v => v.number?

def isNull : Value → Bool
  | .null => true
  | _ => false

def isText : Value → Bool
  | .text _ => true
  | _ => false

def ofMapping (m : Mapping) : Value := .mapping m.entries

/-- The key that a scalar makes; lists and mappings make none. -/
def key? : Value → Option Key
  | .null => some .null
  | .bool b => some (.bool b)
  | .int n => some (.int n)
  | .float x => some (.float x)
  | .undefined origin => some (.undefined origin)
  | .text s => some (.text s)
  | .list _ => none
  | .mapping _ => none

/-- Whether two values are undefined numbers of one origin. -/
def sameUndefined : Value → Value → Bool
  | .undefined a, .undefined b => a == b
  | _, _ => false

mutual

/-- Whether two values are equal, at any depth. A value does not tell whether two of its parts are one
object, which are equal without a descent, so that equality takes no room. -/
def equal : Value → Value → Bool
  | .text s, .text t => s == t
  | .null, .null => true
  | .list xs, .list ys => equalItems xs ys
  | .mapping xs, .mapping ys => xs.length == ys.length && equalEntries xs ys
  | v, w =>
    match v.comparable?, w.comparable? with
    | some a, some b => a.equal b
    | _, _ => false

def equalItems : List Value → List Value → Bool
  | [], [] => true
  | x :: xs, y :: ys => (sameUndefined x y || equal x y) && equalItems xs ys
  | _, _ => false

/-- Whether every entry has an equal value under its key in the other mapping. -/
def equalEntries : List (Key × Value) → List (Key × Value) → Bool
  | [], _ => true
  | (k, v) :: rest, others =>
    (match others.lookup k with
      | some w => sameUndefined v w || equal v w
      | none => false) && equalEntries rest others

end

/-- Null, false, zero, the undefined number and empty text do not hold; lists and mappings do. -/
def truthy : Value → Bool
  | .null => false
  | .bool b => b
  | .int n => n != 0
  | .float x => !(x.isNaN || x == 0.0)
  | .undefined _ => false
  | .text s => !s.isEmpty
  | .list _ => true
  | .mapping _ => true

end Value

namespace Mapping

/-- An entry whose key is text, as a binding. -/
def binding? (e : Key × Value) : Option (String × Value) := e.1.text?.map (·, e.2)

/-- The bindings of a mapping, when all its keys are text. -/
def context? (m : Mapping) : Option Context := (m.entries.mapM binding?).map Table.mk

def ofContext (c : Context) : Mapping := c.mapKeys .text

def find? (m : Mapping) (name : String) : Option Value := m.get? (.text name)

end Mapping

end LiveForm
