import LiveForm.Abort
import LiveForm.Number.Binary

/-! What is too large to be handled: trees and collections that are nested beyond a depth, and whole
numbers with more digits in text than a limit, be it for reading or for writing. Doubles, and whole
numbers in text of a base that is a power of two, have no such limit.

A function that descends into trees or collections is given room: how many levels it may go down. It
aborts at the level for which there is none, and has the answer if it does not get there. -/

namespace LiveForm

/-- The room that a request has: for the parentheses, calls, conditionals and signs that are read, for
a tree that is walked or evaluated, and for collections that are written. -/
def depthLimit : Nat := 1000

/-- The room that is left so many levels further down. -/
def below (levels room : Nat) : Except Abort Nat :=
  if levels ≤ room then .ok (room - levels) else .error .depth

/-- The most digits of a whole number in text. -/
def digitLimit : Nat := 4300

/-- Whether a whole number has a text. -/
def isWritable (n : Int) : Bool := n.natAbs < Binary.tenTo digitLimit

/-- Passes what has a text. -/
def orUnwritable (writable : Bool) : Except Abort Unit := if writable then .ok () else .error .domain

/-- Digits, leading zeros included, that may be read as a whole number. -/
def orTooLong {α : Type} (digits : List Char) (a : α) : Except Abort α :=
  if digits.length ≤ digitLimit then .ok a else .error .domain

end LiveForm
