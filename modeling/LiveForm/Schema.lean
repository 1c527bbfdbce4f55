import LiveForm.Number.Numeral
import LiveForm.Value

/-! Reading fields out of a document. Scalars convert leniently: a number may be a truth value or
text that reads as one, and a truth value may be one of a few words. Text converts from text only. A
mapping with fixed fields may have no others. -/

namespace LiveForm.Schema

open Text

/-- The text without underscores, where they stand inside it and never side by side. -/
def dropUnderscores? (cs : List Char) : Option (List Char) :=
  if cs.head? == some '_' || cs.getLast? == some '_' || !cs.contains '_' || contains ['_', '_'] cs
  then none
  else some (cs.filter (· != '_'))

/-- A whole text as a double, in ASCII digits and without padding. -/
def plainFloat? (cs : List Char) : Option Float :=
  if cs.all (fun c => c.toNat < 128 && c != '_' && !isBlank c) then readFloat? cs else none

def floatOfText? (cs : List Char) : Option Float :=
  (plainFloat? (trimWith isNumberPadding cs)).or ((dropUnderscores? cs).bind plainFloat?)

def float? : Value → Option Float
  | .float x => some x
  | .int n => Binary.ofInt? n
  | .bool b => some (if b then 1.0 else 0.0)
  | .text s => floatOfText? s.toList
  | _ => none

def trueWords : List String := ["1", "on", "t", "true", "y", "yes"]

def falseWords : List String := ["0", "off", "f", "false", "n", "no"]

def boolOfInt? (n : Int) : Option Bool :=
  if n = 0 then some false else if n = 1 then some true else none

def bool? : Value → Option Bool
  | .bool b => some b
  | .int n => boolOfInt? n
  | .float x => (Binary.exactInt? x).bind boolOfInt?
  | .text s =>
    let word := String.ofList (s.toList.map Char.toLower)
    if trueWords.contains word then some true
    else if falseWords.contains word then some false
    else none
  | _ => none

def text? : Value → Option String
  | .text s => some s
  | _ => none

def optional? {α : Type} (read : Value → Option α) : Value → Option (Option α)
  | .null => some none
  | v => (read v).map some

def mapping? : Value → Option Mapping
  | .mapping entries => some ⟨entries⟩
  | _ => none

/-- Every item converts. -/
def list? {α : Type} (read : Value → Option α) : Value → Option (List α)
  | .list items => items.mapM read
  | _ => none

def member? {α : Type} (read : Value → Option α) (e : Key × Value) : Option (String × α) :=
  match e.1.text?, read e.2 with
  | some name, some a => some (name, a)
  | _, _ => none

/-- A mapping from names, each of whose values converts. -/
def table? {α : Type} (read : Value → Option α) : Value → Option (Table String α)
  | .mapping entries => (entries.mapM (member? read)).map Table.mk
  | _ => none

/-- Whether a mapping has no keys but the given names. -/
def hasOnly (names : List String) (m : Mapping) : Bool :=
  m.keys.all fun k => k.text?.any names.contains

/-- A field with a value for when it is missing. -/
def field? {α : Type} (m : Mapping) (name : String) (default : α) (read : Value → Option α) :
    Option α :=
  match m.get? (.text name) with
  | some v => read v
  | none => some default

def required? {α : Type} (m : Mapping) (name : String) (read : Value → Option α) : Option α :=
  (m.get? (.text name)).bind read

end LiveForm.Schema
