/-! Faults that no layer reports as a message: they end the request in which they arise. -/

namespace LiveForm

inductive Abort where
  /-- A whole number or a quotient is beyond the largest double. -/
  | range
  /-- An argument is outside the domain of a function, a text is no number, or a whole number has
  too many digits for a text. -/
  | domain
  /-- Values of kinds that do not go together, such as mapping keys without a common order. -/
  | mismatch
  /-- An expression is nested too deeply. -/
  | depth
  /-- The values offered as a context are not bound to names. -/
  | context
deriving Repr, DecidableEq

end LiveForm
