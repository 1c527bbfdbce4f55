import LiveForm.Coercion

/-! Lengths, counts and sums over values, shared by expressions and templates. -/

namespace LiveForm.Aggregate

open Value

def length : Value → Nat
  | .list items => items.length
  | .mapping entries => entries.length
  | .text s => s.length
  | _ => 0

/-- Adds the items from the left; items that are no numbers count as zero. -/
def sumItems (room : Nat) (start : Number) (items : List Value) : Except Abort Number :=
  items.foldlM (fun total item => do total.add (← item.toNumber room)) start

/-- Lists among the arguments are summed on their own first. -/
def sum (room : Nat) (args : List Value) : Except Abort Number :=
  args.foldlM (fun total arg => do
    match arg with
    | .list items => total.add (← sumItems room (.int 0) items)
    | _ => total.add (← arg.toNumber room)) (.int 0)

/-- Whether there is something: neither null nor empty text. -/
def isPresent : Value → Bool
  | .null => false
  | .text s => !s.isEmpty
  | _ => true

def count (args : List Value) : Nat :=
  args.foldl (fun n arg =>
    match arg with
    | .list items => n + items.countP isPresent
    | _ => n + [arg].countP isPresent) 0

/-- An entry of a row that is there and not null. -/
def cell? (row : List (Key × Value)) (name : String) : Option Value :=
  (row.lookup (.text name)).filter fun v => !v.isNull

/-- What a row adds to the total: its line total, or quantity times unit price. -/
def lineTotal? (room : Nat) (row : List (Key × Value)) : Except Abort (Option Number) :=
  match cell? row "lineTotal" with
  | some total => some <$> total.toNumber room
  | none =>
    match cell? row "quantity", cell? row "unitPrice" with
    | some quantity, some price => do
      return some (← (← quantity.toNumber room).mul (← price.toNumber room))
    | _, _ => .ok none

/-- The sum of the line totals of the mappings in a list. -/
def sumLineTotal (room : Nat) : Value → Except Abort Number
  | .list rows =>
    rows.foldlM (fun total row =>
      match row with
      | .mapping entries => do
        match ← lineTotal? room entries with
        | some n => total.add n
        | none => return total
      | _ => .ok total) (.int 0)
  | _ => .ok (.int 0)

end LiveForm.Aggregate
