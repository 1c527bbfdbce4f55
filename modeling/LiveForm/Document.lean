import LiveForm.Document.Node

/-! Reading the text of a document into a value. The whole text is read into a tree before any
scalar gets its value, so a malformed text is malformed whatever it holds. -/

namespace LiveForm.Document

/-- The mark of a default entry, which is text where it is a key. -/
def Node.isDefaultMark : Node → Bool
  | scalar text true => text == ['=']
  | _ => false

mutual

/-- The value of a tree. Of equal keys the last one counts, in the place of the first. -/
def Node.toValue : Node → Except ReadFault Value
  | scalar text true => plainValue text
  | scalar text false => .ok (.text (String.ofList text))
  | list items => return .list (← listValues items)
  | mapping entries => return .ofMapping (.ofList (← entryValues entries))

def Node.listValues : List Node → Except ReadFault (List Value)
  | [] => .ok []
  | n :: rest => do
    let v ← n.toValue
    return v :: (← Node.listValues rest)

def Node.entryValues : List (Node × Node) → Except ReadFault (List (Key × Value))
  | [] => .ok []
  | (k, n) :: rest => do
    let k ← orMalformed (← if k.isDefaultMark then pure (.text "=") else k.toValue).key?
    let v ← n.toValue
    return (k, v) :: (← Node.entryValues rest)

end

/-- Characters that a document may hold. -/
def isAllowed (c : Char) : Bool :=
  let n := c.toNat
  n == 9 || n == 10 || n == 13 || (32 ≤ n && n ≤ 126) || n == 0x85 ||
    (0xa0 ≤ n && n ≤ 0xfffd) || 0x10000 ≤ n

/-- Reads the text of a document; a text without one is null. -/
def read (text : String) : Except ReadFault Value := do
  let cs := text.toList
  if cs.all isAllowed then
    match ← root (← tokens cs) with
    | some n => n.toValue
    | none => return .null
  else .error .malformed

end LiveForm.Document
