import LiveForm.Expr.Evaluation
import LiveForm.Expr.Parser
import LiveForm.Expr.References

/-! Expression text to answers. An engine remembers the tree, or the syntax error, of every text it
has read, and the ids that the tree mentions. A text that cannot be read or evaluated gives an
answer with a message; only an abort goes past the engine. -/

namespace LiveForm

structure Answer where
  value : Value
  error : Option String
  /-- The ids that were read; after a failure, those that the expression mentions. -/
  dependencies : List String

structure Verdict where
  valid : Bool
  error : Option String

structure Engine where
  trees : Table String (Except SyntaxError Expr) := .empty
  references : Table String (List String) := .empty

namespace Engine

/-- A computation that may abort and keeps what the engine has learned in either case. -/
abbrev Action := ExceptT Abort (StateM Engine)

def failed (message : String) : String := "Expression evaluation failed: " ++ message

def invalid (message : String) : String := "Invalid expression: " ++ message

/-- Reads a text, unless it has been read before. Only trees and syntax errors are kept. -/
def tree (text : String) (g : Engine) : Except ParseFault Expr × Engine :=
  match g.trees.get? text with
  | some (.ok e) => (.ok e, g)
  | some (.error s) => (.error (.badSyntax s), g)
  | none =>
    match Expr.parse text with
    | .ok e => (.ok e, { g with trees := g.trees.insert text (.ok e) })
    | .error (.badSyntax s) =>
      (.error (.badSyntax s), { g with trees := g.trees.insert text (.error s) })
    | .error f => (.error f, g)

/-- The ids that a text mentions; none when it is no expression. All of a tree is walked for them, so
its height tells whether there is room. -/
def mentioned : Except ParseFault Expr → Except Abort (List String)
  | .ok e => if depthLimit < e.height then .error .depth else .ok e.references
  | .error (.badSyntax _) => .ok []
  | .error .tooDeep => .error .depth
  | .error .tooLong => .error .domain

def dependencies (text : String) : Action (List String) := do
  match (← get).references.get? text with
  | some ids => return ids
  | none =>
    let tree ← modifyGet (tree text)
    let ids ← mentioned tree
    modify fun g => { g with references := g.references.insert text ids }
    return ids

/-- What is reported of a text that cannot be read or evaluated in the room there is. -/
def nestedTooDeeply : String := "expression nested too deeply"

/-- The value of a tree or the message of its failure, and the ids it read. -/
def outcome (room : Nat) (scope : Scope) (e : Expr) :
    Except Abort (Except String Value × List String) :=
  let reading := e.evaluateWithin room scope
  match reading.outcome >>= finalize with
  | .ok v => .ok (.ok v, reading.reads.eraseDups)
  | .error (.abort .depth) => .ok (.error nestedTooDeeply, [])
  | .error (.abort .range) => .ok (.error "numeric overflow (<host>)", [])
  | .error (.abort cause) => .error cause
  | .error fault => .ok (.error fault.message, [])

def failure (text message : String) : Action Answer := do
  return ⟨.null, some (failed message), ← dependencies text⟩

def evaluate (text : String) (scope : Scope) : Action Answer := do
  match ← modifyGet (tree text) with
  | .error (.badSyntax s) => failure text s.message
  | .error .tooDeep => failure text nestedTooDeeply
  | .error .tooLong => throw .domain
  | .ok e =>
    match ← outcome depthLimit scope e with
    | (.ok v, reads) => return ⟨v, none, reads⟩
    | (.error message, _) => failure text message

def validate (text : String) : Action Verdict := do
  match ← modifyGet (tree text) with
  | .ok _ => return ⟨true, none⟩
  | .error (.badSyntax s) => return ⟨false, some (invalid s.message)⟩
  | .error .tooDeep => return ⟨false, some (invalid "nested too deeply")⟩
  | .error .tooLong => throw .domain

end Engine

end LiveForm
