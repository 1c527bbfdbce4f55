import LiveForm.Abort
import LiveForm.Expr.SyntaxError
import LiveForm.Value.Text

/-! Why an expression has no value. Each cause carries what its message shows. Where the wording of
a cause lies outside this library, the message has `<host>` in its place. -/

namespace LiveForm

inductive Fault where
  /-- A name that the scope does not bind. -/
  | undefined (name : String)
  | notANumber (function : String) (value : Value)
  | cannotApply (op : String) (value : Value)
  | cannotAdd (left right : Value)
  | divisionByZero
  | moduloByZero
  | unknownOperator (op : String)
  | unknownUnary (op : String)
  /-- The conditional function takes a condition and two branches. -/
  | branchCount
  | unsupportedFunction (name : String)
  | unknownFunction (name : String)
  /-- A known function refused its arguments or ran out of the range of doubles. -/
  | callFailed (name : String)
  | overflow (op : String)
  | noMember (field : String) (value : Value)
  | undefinedResult
  | infiniteResult
  /-- A fault of the second order, which the engine reports or passes on. -/
  | abort (cause : Abort)

namespace Fault

/-- A fault whose message shows values; when they cannot be written, there is no message. -/
def about (writing : Except Abort Unit) (f : Fault) : Fault :=
  match writing with
  | .ok _ => f
  | .error cause => abort cause

/-- The causes that are reported as messages have one; for an abort it is empty. -/
def message : Fault → String
  | undefined name => "undefined: " ++ name
  | notANumber function value => function ++ "() expects a number, got " ++ value.literal
  | cannotApply op value => "cannot apply '" ++ op ++ "' to " ++ value.literal
  | cannotAdd left right => "cannot apply '+' to " ++ left.literal ++ " and " ++ right.literal
  | divisionByZero => "division by zero"
  | moduloByZero => "modulo by zero"
  | unknownOperator op => "unknown op: " ++ op
  | unknownUnary op => "unknown unary op: " ++ op
  | branchCount => "if() expects 3 arguments"
  | unsupportedFunction name => "Function " ++ name ++ " is not supported"
  | unknownFunction name => "unknown function: " ++ name
  | callFailed name => name ++ "(): <host>"
  | overflow op => "numeric overflow in '" ++ op ++ "'"
  | noMember field value => "cannot read property '" ++ field ++ "' of " ++ value.display
  | undefinedResult => "expression produced NaN"
  | infiniteResult => "expression produced Infinity"
  | abort _ => ""

end Fault

end LiveForm
