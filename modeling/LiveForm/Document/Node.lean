import LiveForm.Document.Token

/-! The tree of a document. Entries of mappings stand in the order of the text, and scalars as their
text; a scalar that is missing is empty. -/

namespace LiveForm.Document

inductive Node where
  | scalar (text : List Char) (isPlain : Bool)
  | list (items : List Node)
  | mapping (entries : List (Node × Node))

def Node.empty : Node := .scalar [] true

/-- Takes a part off the front of the tokens. -/
abbrev Step (α : Type) := List Token → Except ReadFault (α × List Token)

/-- Whether the next token is one of these. -/
def isNext (stops : List Token) : List Token → Bool
  | t :: _ => stops.contains t
  | [] => false

mutual

/-- A node whose collections are nested at most `depth` deep. Outside brackets it can be a block; a
value in a mapping can also be a list that is indented no more than its key. -/
def node (inBlock isLoose : Bool) : Nat → Nat → Step Node
  | 0, _, _ => .error .malformed
  | fuel + 1, depth, ts =>
    match ts with
    | .scalar text isPlain :: rest => .ok (.scalar text isPlain, rest)
    | t :: rest =>
      if depth = 0 then .error (.abort .depth)
      else
        match t with
        | .openList => flowItems fuel (depth - 1) true [] rest
        | .openMapping => flowEntries fuel (depth - 1) true [] rest
        | .blockList =>
          if inBlock then blockItems fuel (depth - 1) false [] rest else .error .malformed
        | .blockMapping =>
          if inBlock then blockEntries fuel (depth - 1) [] rest else .error .malformed
        | .entry =>
          if isLoose then blockItems fuel (depth - 1) true [] ts else .error .malformed
        | _ => .error .malformed
    | [] => .error .malformed
termination_by structural fuel => fuel

/-- The items of a block list. A loose one ends where no item follows, any other at its end mark. -/
def blockItems : Nat → Nat → Bool → List Node → Step Node
  | 0, _, _, _, _ => .error .malformed
  | fuel + 1, depth, isLoose, items, ts =>
    match ts with
    | .entry :: rest => do
      let stops := if isLoose then [.entry, .key, .value, .blockEnd] else [.entry, .blockEnd]
      let (item, rest) ←
        if isNext stops rest then pure (.empty, rest) else node true false fuel depth rest
      blockItems fuel depth isLoose (item :: items) rest
    | .blockEnd :: rest => .ok (.list items.reverse, if isLoose then ts else rest)
    | _ => if isLoose then .ok (.list items.reverse, ts) else .error .malformed
termination_by structural fuel => fuel

def blockEntries : Nat → Nat → List (Node × Node) → Step Node
  | 0, _, _, _ => .error .malformed
  | fuel + 1, depth, entries, ts =>
    match ts with
    | .key :: rest => do
      let (k, rest) ← blockPart fuel depth rest
      match rest with
      | .value :: rest => do
        let (v, rest) ← blockPart fuel depth rest
        blockEntries fuel depth ((k, v) :: entries) rest
      | _ => blockEntries fuel depth ((k, .empty) :: entries) rest
    | .blockEnd :: rest => .ok (.mapping entries.reverse, rest)
    | _ => .error .malformed
termination_by structural fuel => fuel

/-- A key or a value of a block mapping, which may be missing. -/
def blockPart : Nat → Nat → Step Node
  | 0, _, _ => .error .malformed
  | fuel + 1, depth, ts =>
    if isNext [.key, .value, .blockEnd] ts then .ok (.empty, ts) else node true true fuel depth ts
termination_by structural fuel => fuel

/-- A key or a value inside brackets, which may be missing in front of the given tokens. -/
def flowPart : Nat → Nat → List Token → Step Node
  | 0, _, _, _ => .error .malformed
  | fuel + 1, depth, stops, ts =>
    if isNext stops ts then .ok (.empty, ts) else node false false fuel depth ts
termination_by structural fuel => fuel

/-- The rest of a list in brackets; an item can be a mapping with a single entry. -/
def flowItems : Nat → Nat → Bool → List Node → Step Node
  | 0, _, _, _, _ => .error .malformed
  | fuel + 1, depth, isFirst, items, ts =>
    match ts with
    | .closeList :: rest => .ok (.list items.reverse, rest)
    | _ => do
      let ts ← match isFirst, ts with
        | true, ts => pure ts
        | false, .comma :: rest => pure rest
        | false, _ => .error .malformed
      match ts with
      | .closeList :: rest => .ok (.list items.reverse, rest)
      | .key :: rest => do
        let (entry, rest) ← flowEntry fuel depth .closeList rest
        flowItems fuel depth false (.mapping [entry] :: items) rest
      | _ => do
        let (item, rest) ← node false false fuel depth ts
        flowItems fuel depth false (item :: items) rest
termination_by structural fuel => fuel

/-- A key and its value, behind the mark of the key. -/
def flowEntry : Nat → Nat → Token → Step (Node × Node)
  | 0, _, _, _ => .error .malformed
  | fuel + 1, depth, close, ts => do
    let (k, rest) ← flowPart fuel depth [.value, .comma, close] ts
    match rest with
    | .value :: rest => do
      let (v, rest) ← flowPart fuel depth [.comma, close] rest
      return ((k, v), rest)
    | _ => return ((k, .empty), rest)
termination_by structural fuel => fuel

/-- The rest of a mapping in brackets; what is no key with a value is a key without one. -/
def flowEntries : Nat → Nat → Bool → List (Node × Node) → Step Node
  | 0, _, _, _, _ => .error .malformed
  | fuel + 1, depth, isFirst, entries, ts =>
    match ts with
    | .closeMapping :: rest => .ok (.mapping entries.reverse, rest)
    | _ => do
      let ts ← match isFirst, ts with
        | true, ts => pure ts
        | false, .comma :: rest => pure rest
        | false, _ => .error .malformed
      match ts with
      | .closeMapping :: rest => .ok (.mapping entries.reverse, rest)
      | .key :: rest => do
        let (entry, rest) ← flowEntry fuel depth .closeMapping rest
        flowEntries fuel depth false (entry :: entries) rest
      | _ => do
        let (k, rest) ← node false false fuel depth ts
        flowEntries fuel depth false ((k, .empty) :: entries) rest
termination_by structural fuel => fuel

end

/-- The depth to which collections may be nested. -/
def nestingLimit : Nat := depthLimit / 2

/-- The only document of some tokens; none when they hold none. Its start has to be marked after
directives, and its end may be. -/
def root (ts : List Token) : Except ReadFault (Option Node) := do
  let isMarked := isNext [.directive, .documentStart] ts
  let ts := ts.dropWhile (· == .directive)
  let ts ← match isMarked, ts with
    | true, .documentStart :: rest => pure rest
    | true, _ => .error .malformed
    | false, ts => pure ts
  if ts.isEmpty && !isMarked then return none
  else
    let (n, rest) ←
      if ts.isEmpty || (isMarked && isNext [.directive, .documentStart, .documentEnd] ts) then
        pure (.empty, ts)
      else node true false (8 * ts.length + 8) nestingLimit ts
    if rest.all (· == .documentEnd) then return some n else .error .malformed

end LiveForm.Document
