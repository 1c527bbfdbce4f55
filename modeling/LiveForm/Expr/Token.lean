/-! Tokens of expression text: a kind, the text as written, and the place of its first character. -/

namespace LiveForm

inductive TokenKind where
  | float | int | text | rowName | ident
  | trueWord | falseWord | nullWord | and | or | not
  | eq | ne | le | ge | lt | gt
  | question | colon | plus | minus | star | slash | percent
  | lparen | rparen | comma | dot
  | eof
deriving Repr, DecidableEq, Inhabited

namespace TokenKind

/-- The name of the kind in messages. -/
def label : TokenKind → String
  | float => "FLOAT"
  | int => "INT"
  | text => "STRING"
  | rowName => "SCOPED"
  | ident => "IDENT"
  | trueWord => "TRUE"
  | falseWord => "FALSE"
  | nullWord => "NULL"
  | and => "AND"
  | or => "OR"
  | not => "NOT"
  | eq => "EQ"
  | ne => "NE"
  | le => "LE"
  | ge => "GE"
  | lt => "LT"
  | gt => "GT"
  | question => "QUESTION"
  | colon => "COLON"
  | plus => "PLUS"
  | minus => "MINUS"
  | star => "STAR"
  | slash => "SLASH"
  | percent => "PERCENT"
  | lparen => "LPAREN"
  | rparen => "RPAREN"
  | comma => "COMMA"
  | dot => "DOT"
  | eof => "EOF"

end TokenKind

structure Token where
  kind : TokenKind
  text : String
  position : Nat
deriving Repr, DecidableEq, Inhabited

end LiveForm
