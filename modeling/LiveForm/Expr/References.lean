import LiveForm.Builtin
import LiveForm.Expr

/-! The field ids that an expression mentions, in the order of first mention. A chain of accesses on
a name counts as one id, except that a last access `value` stands for the id before it. Function
names never count. -/

namespace LiveForm.Expr

def isReserved (name : String) : Bool := Builtin.reserved.contains name

mutual

/-- Every mention, repeated ones included. -/
def mentions : Expr → List String
  | literal _ => []
  | name id => if isReserved id then [] else [id]
  | binary _ left right => left.mentions ++ right.mentions
  | unary _ operand => operand.mentions
  | call _ args => argumentMentions args
  | access object field =>
    match object.dotted? with
    | none => object.mentions
    | some head =>
      if field = "value" then object.mentions
      else
        let id := head ++ "." ++ field
        if isReserved (Text.beforeDot id) then [] else [id]
  | choice condition whenTrue whenFalse =>
    condition.mentions ++ whenTrue.mentions ++ whenFalse.mentions

def argumentMentions : List Expr → List String
  | [] => []
  | e :: rest => e.mentions ++ argumentMentions rest

end

def references (e : Expr) : List String := e.mentions.eraseDups

end LiveForm.Expr
