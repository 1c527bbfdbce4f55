import LiveForm.Expr.Evaluation
import LiveForm.Json.Writer

/-! The values that an expression depends on as one text: a sorted JSON object of the ids, with null
for what the scope does not bind. -/

namespace LiveForm

def snapshotWithin (room : Nat) (scope : Scope) (ids : List String) : Except Abort String :=
  let bound := ids.eraseDups.map fun id => (Key.text id, (scope id).getD .null)
  Json.render room Json.compact 0 (.mapping bound)

def snapshot (scope : Scope) (ids : List String) : Except Abort String :=
  snapshotWithin depthLimit scope ids

end LiveForm
