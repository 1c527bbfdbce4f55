import LiveForm.Text.Class
import LiveForm.Value

/-! Expression trees. A name is a field id, possibly one of a row such as `products[2].quantity`; an
access `a.b` may turn out to name a field of its own or a member of the value of `a`. -/

namespace LiveForm

inductive BinaryOp where
  | or | and | eq | ne | lt | gt | le | ge | add | sub | mul | div | rem
  /-- An operator without a meaning; only trees that were not read from text hold one. -/
  | other (symbol : String)
deriving Repr, DecidableEq

namespace BinaryOp

def symbol : BinaryOp → String
  | or => "||"
  | and => "&&"
  | eq => "=="
  | ne => "!="
  | lt => "<"
  | gt => ">"
  | le => "<="
  | ge => ">="
  | add => "+"
  | sub => "-"
  | mul => "*"
  | div => "/"
  | rem => "%"
  | other s => s

def known : List BinaryOp := [or, and, eq, ne, lt, gt, le, ge, add, sub, mul, div, rem]

def ofSymbol (s : String) : BinaryOp := (known.find? (·.symbol == s)).getD (other s)

end BinaryOp

inductive UnaryOp where
  | neg | plus | not
  | other (symbol : String)
deriving Repr, DecidableEq

namespace UnaryOp

def symbol : UnaryOp → String
  | neg => "-"
  | plus => "+"
  | not => "!"
  | other s => s

def ofSymbol (s : String) : UnaryOp := (([neg, plus, not]).find? (·.symbol == s)).getD (other s)

end UnaryOp

inductive Expr where
  | literal (value : Value)
  | name (id : String)
  | binary (op : BinaryOp) (left right : Expr)
  | unary (op : UnaryOp) (operand : Expr)
  | call (function : String) (args : List Expr)
  | access (object : Expr) (field : String)
  | choice (condition whenTrue whenFalse : Expr)
deriving Inhabited

namespace Expr

/-- The id that a chain of accesses on a name spells. -/
def dotted? : Expr → Option String
  | name id => some id
  | access object field => object.dotted?.map (· ++ "." ++ field)
  | _ => none

mutual

def height : Expr → Nat
  | literal _ => 1
  | name _ => 1
  | binary _ left right => max left.height right.height + 1
  | unary _ operand => operand.height + 1
  | call _ args => heights args + 1
  | access object _ => object.height + 1
  | choice condition whenTrue whenFalse =>
    max condition.height (max whenTrue.height whenFalse.height) + 1

def heights : List Expr → Nat
  | [] => 0
  | e :: rest => max e.height (heights rest)

end

end Expr

end LiveForm
