import LiveForm.Text.Class

/-! Sorting command-line words into options and positional words. An option may be shortened as long
as it stays the only one with that beginning, short flags may stand together behind one dash, and a
value may follow an equals sign. Negative numbers and words with a space in them are no options, and
after a double dash nothing is. -/

namespace LiveForm.Arguments

structure OptionSpec (α : Type) where
  spellings : List String
  flag : α
  takesValue : Bool := false

/-- What a word is. An option may be unknown, and may carry a value of its own. -/
inductive Word (α : Type) where
  | plain (text : String)
  | doubleDash
  | option (spelling : String) (spec : OptionSpec α) (value : Option String)
  | unknown

/-- How many words the positional part takes. -/
inductive Arity where
  | one | many
  /-- A word and everything that follows it, options included. -/
  | rest
deriving Repr, DecidableEq

variable {α : Type}

def find? (specs : List (OptionSpec α)) (spelling : String) : Option (OptionSpec α) :=
  specs.find? fun s => s.spellings.contains spelling

/-- A word cut at its first equals sign. -/
def cutEquals? (cs : List Char) : Option (String × String) :=
  match cs.dropWhile (· != '=') with
  | '=' :: value => some (String.ofList (cs.takeWhile (· != '=')), String.ofList value)
  | _ => none

def beginsWith (part word : List Char) : Bool := part.isPrefixOf word

/-- The options that a word abbreviates or runs together with a value. -/
def abbreviated (specs : List (OptionSpec α)) (cs : List Char) :
    List (String × OptionSpec α × Option String) :=
  let all := specs.flatMap fun s => s.spellings.map fun spelling => (spelling, s)
  match cs with
  | '-' :: '-' :: _ =>
    let (name, value) := match cutEquals? cs with
      | some (name, value) => (name, some value)
      | none => (String.ofList cs, none)
    (all.filter fun e => beginsWith name.toList e.1.toList).map fun e => (e.1, e.2, value)
  | '-' :: c :: rest =>
    all.filterMap fun e =>
      if e.1.toList = ['-', c] then some (e.1, e.2, some (String.ofList rest))
      else if beginsWith cs e.1.toList then some (e.1, e.2, none)
      else none
  | _ => []

def isNegativeNumber : List Char → Bool
  | '-' :: cs =>
    match cs.dropWhile Text.isDecimal with
    | [] => !cs.isEmpty
    | '.' :: places => !places.isEmpty && places.all Text.isDecimal
    | _ => false
  | _ => false

/-- Sorts a word; none when it abbreviates several options. -/
def classify? (specs : List (OptionSpec α)) (word : String) : Option (Word α) :=
  let cs := word.toList
  if cs.head? != some '-' then some (.plain word)
  else
    match find? specs word with
    | some s => some (.option word s none)
    | none =>
      if cs.length = 1 then some (.plain word)
      else
        match (cutEquals? cs).bind fun (name, v) =>
            (find? specs name).map fun s => (name, s, v) with
        | some (name, s, v) => some (.option name s (some v))
        | none =>
          match abbreviated specs cs with
          | [(name, s, v)] => some (.option name s v)
          | [] =>
            if isNegativeNumber cs || cs.contains ' ' then some (.plain word) else some .unknown
          | _ => none

/-- Sorts all words; after a double dash every word is plain. -/
def classifyAll? (specs : List (OptionSpec α)) : List String → Option (List (String × Word α))
  | [] => some []
  | word :: rest =>
    if word = "--" then some ((word, .doubleDash) :: rest.map fun w => (w, .plain w))
    else do
      let w ← classify? specs word
      return (word, w) :: (← classifyAll? specs rest)

def isOption : Word α → Bool
  | .option .. => true
  | .unknown => true
  | _ => false

/-- What has been sorted out. -/
structure Sorted (α : Type) where
  flags : List (α × Option String) := []
  positional : Option (List String) := none
  /-- Whether some word belongs nowhere. -/
  leftover : Bool := false

def words (ws : List (String × Word α)) : List String := ws.map (·.1)

def isDoubleDash : Word α → Bool
  | .doubleDash => true
  | _ => false

/-- The positional words at the front, with what follows them; a double dash is not one of them,
unless the positional part takes everything. -/
def takePositional? (arity : Arity) (ws : List (String × Word α)) :
    Option (List String × List (String × Word α)) :=
  let dashes := ws.takeWhile fun w => isDoubleDash w.2
  match ws.drop dashes.length with
  | [] => none
  | first :: rest =>
    if isOption first.2 then none
    else
      match arity with
      | .rest => some (words ws, [])
      | .one =>
        some ([first.1], rest.dropWhile fun w => isDoubleDash w.2)
      | .many =>
        let more := rest.takeWhile fun w => !isOption w.2
        some (first.1 :: words (more.filter fun w => !isDoubleDash w.2),
          rest.dropWhile fun w => !isOption w.2)

/-- Flags behind one dash: each letter is an option of its own. -/
def runTogether? (specs : List (OptionSpec α)) (flags : List (α × Option String)) :
    List Char → Option (List (α × Option String))
  | [] => some flags
  | c :: rest => do
    let s ← find? specs (String.ofList ['-', c])
    if s.takesValue then
      if rest.isEmpty then none else some (flags ++ [(s.flag, some (String.ofList rest))])
    else runTogether? specs (flags ++ [(s.flag, none)]) rest

/-- Takes an option off the front, with its value if it needs one. -/
def takeOption? (specs : List (OptionSpec α)) (sorted : Sorted α) (spelling : String)
    (s : OptionSpec α) (value : Option String) (rest : List (String × Word α)) :
    Option (Sorted α × List (String × Word α)) :=
  match s.takesValue, value with
  | true, some v => some ({ sorted with flags := sorted.flags ++ [(s.flag, some v)] }, rest)
  | true, none =>
    match rest with
    | (word, .plain _) :: rest =>
      some ({ sorted with flags := sorted.flags ++ [(s.flag, some word)] }, rest)
    | _ => none
  | false, none => some ({ sorted with flags := sorted.flags ++ [(s.flag, none)] }, rest)
  | false, some v =>
    if spelling.toList.length = 2 && !v.isEmpty then do
      let flags ← runTogether? specs (sorted.flags ++ [(s.flag, none)]) v.toList
      return ({ sorted with flags := flags }, rest)
    else none

/-- Goes through the words from the left. -/
def sortFrom (specs : List (OptionSpec α)) (arity : Arity) :
    Nat → Sorted α → List (String × Word α) → Option (Sorted α)
  | _, sorted, [] => some sorted
  | 0, sorted, _ => some sorted
  | fuel + 1, sorted, (word, w) :: rest =>
    match w with
    | .unknown => sortFrom specs arity fuel { sorted with leftover := true } rest
    | .option spelling s value => do
      let (sorted, rest) ← takeOption? specs sorted spelling s value rest
      sortFrom specs arity fuel sorted rest
    | _ =>
      let here := (word, w) :: rest
      match if sorted.positional.isNone then takePositional? arity here else none with
      | some (taken, rest) =>
        sortFrom specs arity fuel { sorted with positional := some taken } rest
      | none => sortFrom specs arity fuel { sorted with leftover := true } rest

/-- Sorts the words of a command; none when they cannot be read. -/
def sort? (specs : List (OptionSpec α)) (arity : Arity) (args : List String) :
    Option (Sorted α) := do
  let ws ← classifyAll? specs args
  sortFrom specs arity (ws.length + 1) {} ws

end LiveForm.Arguments
