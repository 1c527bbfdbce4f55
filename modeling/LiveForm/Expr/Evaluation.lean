import LiveForm.Builtin
import LiveForm.Expr

/-! The value of an expression in a scope. An evaluation keeps the names that it read, in order,
also when it fails. `and`, `or` and the conditionals evaluate only the branch that they need. An
access reads the field with the full dotted id when the scope binds one, and otherwise a member of
the value of its object; the access `value` then means the object itself. An evaluation aborts where
it comes to a part that is deeper than there is room for; what it does not come to takes no room. -/

namespace LiveForm

/-- What the names of an expression stand for. -/
abbrev Scope := String → Option Value

def Context.scope (c : Context) : Scope := c.get?

def Mapping.scope (m : Mapping) : Scope := fun name => m.get? (.text name)

/-- The outcome of an evaluation together with the names it read, repeated ones included. -/
structure Reading (α : Type) where
  reads : List String
  outcome : Except Fault α

namespace Reading

variable {α β : Type}

def pure (a : α) : Reading α := ⟨[], .ok a⟩

def bind (r : Reading α) (f : α → Reading β) : Reading β :=
  match r.outcome with
  | .ok a =>
    let next := f a
    ⟨r.reads ++ next.reads, next.outcome⟩
  | .error e => ⟨r.reads, .error e⟩

instance : Monad Reading where
  pure := pure
  bind := bind

def ofExcept (r : Except Fault α) : Reading α := ⟨[], r⟩

def fault (e : Fault) : Reading α := ⟨[], .error e⟩

end Reading

def Scope.read (scope : Scope) (name : String) : Reading Value :=
  match scope name with
  | some v => ⟨[name], .ok v⟩
  | none => .fault (.undefined name)

/-- Equality of the `==` operator: text that reads as a number is compared as a double with a value
that is no text but numeric. -/
def looselyEqual (room : Nat) (v w : Value) : Except Abort Bool :=
  if v.isText != w.isText && v.isNumeric && w.isNumeric then do
    return (← v.numericFloat room) == (← w.numericFloat room)
  else .ok (v.equal w)

/-- An operand of arithmetic or comparison. -/
def operand (room : Nat) (op : String) (v : Value) : Except Fault Number :=
  match v.operand? with
  | some n => .ok n
  | none => .error (Fault.about (v.guardLiteral room) (.cannotApply op v))

/-- Texts are ordered by their characters, all else as numbers. -/
def order (room : Nat) (symbol : String) (text : String → String → Bool)
    (number : Number → Number → Bool) (left right : Value) : Except Fault Value :=
  match left, right with
  | .text s, .text t => .ok (.bool (text s t))
  | _, _ => do
    let a ← operand room symbol left
    let b ← operand room symbol right
    return .bool (number a b)

/-- Leaving the range of doubles is an overflow of the operator. -/
def ranged (symbol : String) : Except Abort Number → Except Fault Value
  | .ok n => .ok (.ofNumber n)
  | .error .range => .error (.overflow symbol)
  | .error cause => .error (.abort cause)

/-- The sum of two numeric values; otherwise, if one is text, both display texts joined. -/
def plus (room : Nat) (left right : Value) : Except Fault Value :=
  if left.isNumeric && right.isNumeric then do
    let a ← operand room "+" left
    let b ← operand room "+" right
    ranged "+" (a.add b)
  else if left.isText || right.isText then
    return .text ((← Builtin.lift (left.shown room)) ++ (← Builtin.lift (right.shown room)))
  else .error (Fault.about (Value.guardLiterals room [left, right]) (.cannotAdd left right))

/-- A division fails at once for a zero divisor. -/
def divided (room : Nat) (symbol : String) (byZero : Fault)
    (op : Number → Number → Except Abort Number) (left right : Value) : Except Fault Value := do
  let a ← operand room symbol left
  let b ← operand room symbol right
  if b.isZero then .error byZero else ranged symbol (op a b)

def applyBinary (room : Nat) (op : BinaryOp) (left right : Value) : Except Fault Value :=
  match op with
  | .eq => Value.bool <$> Builtin.lift (looselyEqual room left right)
  | .ne => (fun same => Value.bool !same) <$> Builtin.lift (looselyEqual room left right)
  | .lt => order room "<" (· < ·) Number.lt left right
  | .gt => order room ">" (fun s t => t < s) Number.gt left right
  | .le => order room "<=" (fun s t => !(t < s)) Number.le left right
  | .ge => order room ">=" (fun s t => !(s < t)) Number.ge left right
  | .add => plus room left right
  | .sub => do ranged "-" ((← operand room "-" left).sub (← operand room "-" right))
  | .mul => do ranged "*" ((← operand room "*" left).mul (← operand room "*" right))
  | .div => divided room "/" .divisionByZero Number.div left right
  | .rem => divided room "%" .moduloByZero Number.rem left right
  | other => do
    let _ ← operand room other.symbol left
    let _ ← operand room other.symbol right
    .error (.unknownOperator other.symbol)

def applyUnary (room : Nat) (op : UnaryOp) (v : Value) : Except Fault Value :=
  match op with
  | .neg => do return .ofNumber (← operand room "-" v).neg
  | .plus => do return .ofNumber (← operand room "+" v)
  | .not => .ok (.bool !v.truthy)
  | .other symbol => .error (.unknownUnary symbol)

/-- A member of a mapping, null when it is missing; lists and text have a length. -/
def member (room : Nat) (v : Value) (field : String) : Except Fault Value :=
  match v with
  | .mapping entries => .ok ((entries.lookup (.text field)).getD .null)
  | .list items => if field = "length" then .ok (.int items.length) else noMember
  | .text s => if field = "length" then .ok (.int s.length) else noMember
  | _ => noMember
where
  noMember : Except Fault Value := .error (Fault.about (v.guardDisplay room) (.noMember field v))

namespace Expr

/-- The levels that telling the id of a chain of accesses takes. -/
def links : Expr → Nat
  | access object _ => object.links + 1
  | _ => 1

mutual

/-- The value of an expression in so much room. -/
def evaluateWithin : Nat → Scope → Expr → Reading Value
  | 0, _, _ => .fault (.abort .depth)
  | _ + 1, _, literal v => pure v
  | _ + 1, scope, name id => scope.read id
  | room + 1, scope, binary .and left right => do
    let v ← left.evaluateWithin room scope
    if v.truthy then right.evaluateWithin room scope else pure v
  | room + 1, scope, binary .or left right => do
    let v ← left.evaluateWithin room scope
    if v.truthy then pure v else right.evaluateWithin room scope
  | room + 1, scope, binary op left right => do
    let v ← left.evaluateWithin room scope
    let w ← right.evaluateWithin room scope
    .ofExcept (applyBinary room op v w)
  | room + 1, scope, unary op operand => do
    let v ← operand.evaluateWithin room scope
    .ofExcept (applyUnary room op v)
  | room + 1, scope, call function args =>
    if function = Builtin.lazyChoice then evaluateChoice room scope args
    else do
      let values ← evaluateAll room scope args
      .ofExcept (Builtin.callWithin room function values)
  | room + 1, scope, access object field =>
    if room < object.links then .fault (.abort .depth)
    else
      match (access object field).dotted?.bind fun id => (scope id).map fun _ => id with
      | some id => scope.read id
      | none =>
        if field = "value" then object.evaluateWithin room scope
        else do
          let v ← object.evaluateWithin room scope
          .ofExcept (member room v field)
  | room + 1, scope, choice condition whenTrue whenFalse => do
    let c ← condition.evaluateWithin room scope
    if c.truthy then whenTrue.evaluateWithin room scope else whenFalse.evaluateWithin room scope

/-- A condition and two branches, of which one is evaluated. -/
def evaluateChoice (room : Nat) (scope : Scope) : List Expr → Reading Value
  | [condition, whenTrue, whenFalse] => do
    let c ← condition.evaluateWithin room scope
    if c.truthy then whenTrue.evaluateWithin room scope else whenFalse.evaluateWithin room scope
  | _ => .fault .branchCount

def evaluateAll (room : Nat) (scope : Scope) : List Expr → Reading (List Value)
  | [] => pure []
  | e :: rest => do
    let v ← e.evaluateWithin room scope
    let vs ← evaluateAll room scope rest
    pure (v :: vs)

end

def evaluate (scope : Scope) (e : Expr) : Reading Value := e.evaluateWithin depthLimit scope

/-- The ids that an evaluation read, in the order of first reading. -/
def reads (room : Nat) (scope : Scope) (e : Expr) : List String :=
  (e.evaluateWithin room scope).reads.eraseDups

end Expr

/-- Results must be real and finite, and a whole double becomes a whole number. -/
def finalize : Value → Except Fault Value
  | .float x =>
    if x.isNaN then .error .undefinedResult
    else if x.isInf then .error .infiniteResult
    else
      match Binary.exactInt? x with
      | some n => .ok (.int n)
      | none => .ok (.float x)
  | .undefined _ => .error .undefinedResult
  | v => .ok v

end LiveForm
