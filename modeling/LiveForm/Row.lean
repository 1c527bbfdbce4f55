import LiveForm.Number.Text
import LiveForm.Number.Numeral
import LiveForm.Value.Text

/-! Rows of repeated groups. A field such as `products[2].lineTotal` belongs to row 2 of the array
`products`. Expressions on it may name their siblings by local names, which are bound for the right
row; dependencies that are local names are rewritten to ids of that row; and a computed value is
written back into its cell, on a copy of the array. -/

namespace LiveForm

open Text

structure RowRef where
  array : String
  index : Nat
  child : String
deriving Repr, DecidableEq

namespace RowRef

def isBracket (c : Char) : Bool := c == '[' || c == ']'

/-- What a cell of the row is called before its child name. -/
def stem (r : RowRef) : String := r.array ++ "[" ++ Decimal.intText r.index ++ "]."

def qualify (r : RowRef) (name : String) : String := r.stem ++ name

/-- Reads an id of the form `array[index].child`, with no further brackets. Other ids are none of a
row; an index of too many digits ends the request. -/
def parse? (id : String) : Except Abort (Option RowRef) :=
  let cs := id.toList
  let array := cs.takeWhile fun c => !isBracket c
  match cs.dropWhile fun c => !isBracket c with
  | '[' :: rest =>
    let digits := rest.takeWhile isDecimal
    match rest.dropWhile isDecimal with
    | ']' :: '.' :: child =>
      if array.isEmpty || digits.isEmpty || child.isEmpty || child.any isBracket then .ok none
      else return some ⟨String.ofList array, ← Numeral.whole digits, String.ofList child⟩
    | _ => .ok none
  | _ => .ok none

/-- The mapping that a context holds as this row, if there is one. -/
def row? (r : RowRef) (c : Context) : Option (List Value × List (Key × Value)) :=
  match c.get? r.array with
  | some (.list rows) =>
    match rows[r.index]? with
    | some (.mapping entries) => some (rows, entries)
    | _ => none
  | _ => none

end RowRef

def isRowId (id : String) : Except Abort Bool := Option.isSome <$> RowRef.parse? id

/-- A name that can stand for a sibling: it has neither dots nor brackets. -/
def isLocalName (name : String) : Bool := !hasChar '.' name && !hasChar '[' name

/-- The first part of a dotted id that is not of a row. -/
def dottedHead? (id : String) : Except Abort (Option String) :=
  if hasChar '.' id then return if ← isRowId id then none else some (beforeDot id)
  else .ok none

/-- The last part of a dotted id. -/
def leafName? (id : String) : Option String :=
  if hasChar '.' id then some (afterLastDot id) else none

/-- Adds the head of each dotted id that is not a registered field itself: `products.length` reads
the value of `products`. -/
def withHeads (ids registered : List String) : Except Abort (List String) := do
  let expanded ← ids.mapM fun id => do
    match ← dottedHead? id with
    | some head => return if registered.contains id then [id] else [id, head]
    | none => return [id]
  return expanded.flatten.eraseDups

/-- The id of a cell. Any key can be the last part of it, if it can be written. -/
def cellId (array : String) (index : Nat) (child : Key) : Except Abort String :=
  if child.isWritable then
    .ok (array ++ "[" ++ Decimal.intText index ++ "]." ++ child.bare)
  else .error .domain

/-- The cells of a row under their ids. -/
def rowCells (array : String) (index : Nat) : Value → Except Abort (List (String × Value))
  | .mapping entries => entries.mapM fun (k, v) => return (← cellId array index k, v)
  | _ => .ok []

/-- The cells of the mappings in a list, each under the id of its row. -/
def listCells (array : String) : Value → Except Abort (List (String × Value))
  | .list rows =>
    return (← rows.zipIdx.mapM fun (row, index) => rowCells array index row).flatten
  | _ => .ok []

/-- Every cell of the lists of mappings in a context. -/
def flattenRows (c : Context) : Except Abort Context :=
  return .ofList (← c.entries.mapM fun (array, v) => listCells array v).flatten

namespace RowRef

/-- The local name by which a key of the context is known in this row. -/
def sibling? (r : RowRef) (key : String) : Option String :=
  let stem := r.stem.toList
  let cs := key.toList
  if stem.isPrefixOf cs then
    let name := String.ofList (cs.drop stem.length)
    if isLocalName name then some name else none
  else none

/-- The context with the siblings of the row under their local names. Entries of the context under
ids of the row win over the cells of the array, since they may have been computed meanwhile. -/
def scope (r : RowRef) (c : Context) : Mapping :=
  let withCells : Mapping :=
    match r.row? c with
    | some (_, cells) => (Mapping.ofContext c).merge ⟨cells⟩
    | none => Mapping.ofContext c
  c.entries.foldl (fun m (key, v) =>
    match r.sibling? key with
    | some name => m.insert (.text name) v
    | none => m) withCells

/-- Turns local names into ids of the row: the declared children of the array, or, when none are
declared, every name that is not registered as a field of its own. -/
def qualifyDependencies (r : RowRef) (dependencies : List String) (children : Option (List String))
    (registered : List String) : List String :=
  (dependencies.map fun id =>
    if !isLocalName id then id
    else
      match children with
      | some names => if names.contains id then r.qualify id else id
      | none => if registered.contains id then id else r.qualify id).eraseDups

/-- Stores a value in the cell, when the array has this row and the row is a mapping. -/
def writeBack (r : RowRef) (value : Value) (c : Context) : Context :=
  match r.row? c with
  | some (rows, cells) =>
    c.insert r.array (.list (rows.set r.index (.mapping (Table.put (.text r.child) value cells))))
  | none => c

end RowRef

end LiveForm
