import LiveForm.Expr.Token
import LiveForm.Number.Text
import LiveForm.Text.Quoted

/-! Why a text is not an expression, and where. -/

namespace LiveForm

inductive SyntaxCause where
  | unexpectedChar (c : Char)
  | emptyExpression
  | trailingToken (text : String)
  | unexpectedToken (text : String)
  | unexpectedEnd
  | expected (wanted found : TokenKind)
  /-- Only a plain name can stand in front of an argument list. -/
  | notCallable
deriving Repr, DecidableEq

structure SyntaxError where
  cause : SyntaxCause
  /-- Counted in characters from the start of the text. -/
  position : Nat
deriving Repr, DecidableEq

def SyntaxCause.message : SyntaxCause → String
  | unexpectedChar c => "unexpected char: " ++ Text.quoted (String.singleton c)
  | emptyExpression => "empty expression"
  | trailingToken text => "unexpected token: " ++ Text.quoted text
  | unexpectedToken text => "unexpected token in expression: " ++ Text.quoted text
  | unexpectedEnd => "unexpected end of expression"
  | expected wanted found => "expected " ++ wanted.label ++ ", got " ++ found.label
  | notCallable => "can only call named functions"

/-- Columns are counted from one. -/
def SyntaxError.message (e : SyntaxError) : String :=
  "col " ++ Decimal.intText (e.position + 1) ++ ": " ++ e.cause.message

end LiveForm
