import LiveForm.Expr
import LiveForm.Expr.Lexer
import LiveForm.Number.Numeral

/-! Reading expression trees. From loosest to tightest: the conditional `a ? b : c`, or, and, one
comparison, sums, products, signs and negation, and accesses and calls on a primary. Each level is a
function on the level below it, and the whole grammar recurs through an explicit nesting budget. A
budget of at least the number of tokens is never used up. -/

namespace LiveForm

inductive ParseFault where
  | badSyntax (error : SyntaxError)
  | tooDeep
  /-- A whole number has too many digits. -/
  | tooLong
deriving Repr, DecidableEq

namespace Parser

/-- Takes a tree of some kind off the front of the tokens. -/
abbrev Step (α : Type) := List Token → Except ParseFault (α × List Token)

/-- The first token; past the end there is only the end. -/
def peek : List Token → Token
  | t :: _ => t
  | [] => ⟨.eof, "", 0⟩

def fail {α : Type} (cause : SyntaxCause) (token : Token) : Except ParseFault α :=
  .error (.badSyntax ⟨cause, token.position⟩)

/-- Takes one token of the given kind. -/
def expect (kind : TokenKind) : Step Token := fun ts =>
  let t := peek ts
  if t.kind = kind then .ok (t, ts.drop 1) else fail (.expected kind t.kind) t

/-- The text between the quotes, with a backslash taken off what it escapes. -/
def unescape : List Char → List Char
  | '\\' :: c :: rest =>
    if c == 'n' then '\n' :: unescape rest
    else if c == 't' then '\t' :: unescape rest
    else if c == 'r' then '\r' :: unescape rest
    else c :: unescape rest
  | c :: rest => c :: unescape rest
  | [] => []

def unquote (lexeme : String) : String :=
  String.ofList (unescape ((lexeme.toList.drop 1).dropLast))

def intLiteral (lexeme : String) : Except ParseFault Value :=
  match Numeral.whole lexeme.toList with
  | .ok n => .ok (.int n)
  | .error _ => .error .tooLong

def floatLiteral (lexeme : String) : Value :=
  match Numeral.scan? lexeme.toList with
  | some (numeral, _) => .float (numeral.toFloat false)
  | none => .null

/-- What a single token stands for as an operand, if it is one. -/
def atom? (t : Token) : Except ParseFault (Option Expr) :=
  match t.kind with
  | .int => return some (.literal (← intLiteral t.text))
  | .float => .ok (some (.literal (floatLiteral t.text)))
  | .text => .ok (some (.literal (.text (unquote t.text))))
  | .trueWord => .ok (some (.literal (.bool true)))
  | .falseWord => .ok (some (.literal (.bool false)))
  | .nullWord => .ok (some (.literal .null))
  | .rowName => .ok (some (.name t.text))
  | .ident => .ok (some (.name t.text))
  | _ => .ok none

/-- An atom, or an expression in parentheses. -/
def primary (inner : Step Expr) : Step Expr := fun ts => do
  let t := peek ts
  match ← atom? t with
  | some e => return (e, ts.drop 1)
  | none =>
    if t.kind = .lparen then
      let (e, ts) ← inner (ts.drop 1)
      let (_, ts) ← expect .rparen ts
      return (e, ts)
    else if t.kind = .eof then fail .unexpectedEnd t
    else fail (.unexpectedToken t.text) t

/-- Further arguments, each after a comma. -/
def moreArguments (inner : Step Expr) : Nat → Step (List Expr)
  | 0, ts => .ok ([], ts)
  | fuel + 1, ts =>
    if (peek ts).kind = .comma then do
      let (e, ts) ← inner (ts.drop 1)
      let (es, ts) ← moreArguments inner fuel ts
      return (e :: es, ts)
    else .ok ([], ts)

/-- The arguments up to and with the closing parenthesis. -/
def arguments (inner : Step Expr) : Step (List Expr) := fun ts => do
  if (peek ts).kind = .rparen then return ([], ts.drop 1)
  else
    let (e, ts) ← inner ts
    let (es, ts) ← moreArguments inner ts.length ts
    let (_, ts) ← expect .rparen ts
    return (e :: es, ts)

/-- The name that can be called: a plain one, not one of a row. -/
def callee? : Expr → Option String
  | .name id => if Text.hasChar '[' id then none else some id
  | _ => none

/-- Calls and accesses on a tree that has been read. -/
def trailing (inner : Step Expr) : Nat → Expr → Step Expr
  | 0, e, ts => .ok (e, ts)
  | fuel + 1, e, ts =>
    let t := peek ts
    if t.kind = .lparen then
      match callee? e with
      | some function => do
        let (args, ts) ← arguments inner (ts.drop 1)
        trailing inner fuel (.call function args) ts
      | none => fail .notCallable t
    else if t.kind = .dot then do
      let (field, ts) ← expect .ident (ts.drop 1)
      trailing inner fuel (.access e field.text) ts
    else .ok (e, ts)

def postfixed (inner : Step Expr) : Step Expr := fun ts => do
  let (e, ts) ← primary inner ts
  trailing inner ts.length e ts

def unaryOp? : TokenKind → Option UnaryOp
  | .minus => some .neg
  | .plus => some .plus
  | .not => some .not
  | _ => none

/-- Signs and negations in front of a postfixed operand; each of them uses up budget. -/
def unary (inner : Step Expr) : Nat → Step Expr
  | 0, _ => .error .tooDeep
  | budget + 1, ts =>
    match unaryOp? (peek ts).kind with
    | some op => do
      let (e, ts) ← unary inner budget (ts.drop 1)
      return (.unary op e, ts)
    | none => postfixed inner ts

def mulOp? : TokenKind → Option BinaryOp
  | .star => some .mul
  | .slash => some .div
  | .percent => some .rem
  | _ => none

def addOp? : TokenKind → Option BinaryOp
  | .plus => some .add
  | .minus => some .sub
  | _ => none

def comparisonOp? : TokenKind → Option BinaryOp
  | .lt => some .lt
  | .gt => some .gt
  | .le => some .le
  | .ge => some .ge
  | .eq => some .eq
  | .ne => some .ne
  | _ => none

def andOp? : TokenKind → Option BinaryOp
  | .and => some .and
  | _ => none

def orOp? : TokenKind → Option BinaryOp
  | .or => some .or
  | _ => none

/-- Goes on from a left operand, for at most `fuel` operators of the level. -/
def chainFrom (op? : TokenKind → Option BinaryOp) (operand : Step Expr) : Nat → Expr → Step Expr
  | 0, left, ts => .ok (left, ts)
  | fuel + 1, left, ts =>
    match op? (peek ts).kind with
    | some op => do
      let (right, ts) ← operand (ts.drop 1)
      chainFrom op? operand fuel (.binary op left right) ts
    | none => .ok (left, ts)

/-- Any number of operators of one level, grouped to the left. -/
def chain (op? : TokenKind → Option BinaryOp) (operand : Step Expr) : Step Expr := fun ts => do
  let (left, ts) ← operand ts
  chainFrom op? operand ts.length left ts

/-- At most one operator of the level. -/
def single (op? : TokenKind → Option BinaryOp) (operand : Step Expr) : Step Expr := fun ts => do
  let (left, ts) ← operand ts
  chainFrom op? operand 1 left ts

/-- The levels from the operands of `or` downward. -/
def disjunction (inner : Step Expr) (budget : Nat) : Step Expr :=
  chain orOp? <| chain andOp? <| single comparisonOp? <| chain addOp? <| chain mulOp? <|
    unary inner budget

/-- The conditional level, with nested expressions read by `inner`. -/
def conditional (inner : Step Expr) (budget : Nat) : Step Expr := fun ts => do
  let (condition, ts) ← disjunction inner budget ts
  if (peek ts).kind = .question then
    let (whenTrue, ts) ← inner (ts.drop 1)
    let (_, ts) ← expect .colon ts
    let (whenFalse, ts) ← inner ts
    return (.choice condition whenTrue whenFalse, ts)
  else return (condition, ts)

/-- An expression nested at most `budget` deep. -/
def expression : Nat → Step Expr
  | 0, _ => .error .tooDeep
  | budget + 1, ts => conditional (expression budget) (budget + 1) ts

/-- A whole expression: nothing may follow it. -/
def whole (budget : Nat) (ts : List Token) : Except ParseFault Expr := do
  if (peek ts).kind = .eof then fail .emptyExpression (peek ts)
  else
    let (e, ts) ← expression budget ts
    let t := peek ts
    if t.kind = .eof then return e else fail (.trailingToken t.text) t

end Parser

namespace Expr

/-- Reads the text of an expression. -/
def parse (source : String) : Except ParseFault Expr :=
  match Token.scan source with
  | .ok tokens => Parser.whole depthLimit tokens
  | .error e => .error (.badSyntax e)

end Expr

end LiveForm
