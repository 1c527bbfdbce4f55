import LiveForm.Abort

/-! Why a text gives no value: it is malformed, or it is well-formed as far as it was read and holds
something that is too large. -/

namespace LiveForm

inductive ReadFault where
  | malformed
  | abort (cause : Abort)
deriving Repr, DecidableEq

/-- Nothing readable is a malformed text. -/
def orMalformed {α : Type} : Option α → Except ReadFault α
  | some a => .ok a
  | none => .error .malformed

def orTooLarge {α : Type} : Except Abort α → Except ReadFault α
  | .ok a => .ok a
  | .error cause => .error (.abort cause)

end LiveForm
