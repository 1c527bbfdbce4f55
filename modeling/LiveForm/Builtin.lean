import LiveForm.Aggregate
import LiveForm.Fault

/-! The functions that expressions can call. A call fails as a whole, by name, when the number of
arguments is wrong or a conversion leaves the range of doubles; an argument that should have been a
number is reported with the argument. Only that an argument is nested too deeply is not reported by
the call. -/

namespace LiveForm

inductive Builtin where
  | abs | round | floor | ceil | min | max | sqrt | pow
  | parseFloat | parseInt | isNaN | isFinite
  | toString | asString | getAsString | toNumber
  | length | sum | count | sumLineTotal
deriving Repr, DecidableEq

namespace Builtin

def name : Builtin → String
  | abs => "abs"
  | round => "round"
  | floor => "floor"
  | ceil => "ceil"
  | min => "min"
  | max => "max"
  | sqrt => "sqrt"
  | pow => "pow"
  | parseFloat => "parseFloat"
  | parseInt => "parseInt"
  | isNaN => "isNaN"
  | isFinite => "isFinite"
  | toString => "toString"
  | asString => "asString"
  | getAsString => "getAsString"
  | toNumber => "toNumber"
  | length => "length"
  | sum => "sum"
  | count => "count"
  | sumLineTotal => "sumLineTotal"

def all : List Builtin :=
  [abs, round, floor, ceil, min, max, sqrt, pow, parseFloat, parseInt, isNaN, isFinite,
   toString, asString, getAsString, toNumber, length, sum, count, sumLineTotal]

def ofName? (s : String) : Option Builtin := all.find? (·.name == s)

/-- Known functions that expressions may not use. -/
def unsupported : List String := ["sin", "cos", "tan", "log", "exp"]

/-- The function whose arguments are evaluated only as needed. -/
def lazyChoice : String := "if"

/-- Names that look like identifiers but never name a field. -/
def reserved : List String := all.map name ++ [lazyChoice, "Math"]

def lift {α : Type} : Except Abort α → Except Fault α
  | .ok a => .ok a
  | .error cause => .error (.abort cause)

def wrongArguments : Except Fault Value := .error (.abort .mismatch)

/-- An argument that has to be a number. -/
def operand (room : Nat) (f : Builtin) (v : Value) : Except Fault Number :=
  match v.operand? with
  | some n => .ok n
  | none => .error (Fault.about (v.guardLiteral room) (.notANumber f.name v))

def numeric (r : Except Abort Number) : Except Fault Value := Value.ofNumber <$> lift r

/-- The first argument that no other argument beats. -/
def best (room : Nat) (beats : Number → Number → Bool) (f : Builtin) (first : Value)
    (others : List Value) : Except Fault Value := do
  let start ← operand room f first
  let winner ← others.foldlM (fun held v => do
    let n ← operand room f v
    return if beats n held then n else held) start
  return .ofNumber winner

def withOperand (room : Nat) (f : Builtin) (op : Number → Except Abort Number)
    (args : List Value) : Except Fault Value :=
  match args with
  | [v] => do numeric (op (← operand room f v))
  | _ => wrongArguments

def withOne (op : Value → Except Abort Value) (args : List Value) : Except Fault Value :=
  match args with
  | [v] => lift (op v)
  | _ => wrongArguments

def apply (room : Nat) (f : Builtin) (args : List Value) : Except Fault Value :=
  match f with
  | abs => withOperand room f (fun n => .ok n.abs) args
  | round => withOperand room f Number.round args
  | floor => withOperand room f Number.floor args
  | ceil => withOperand room f Number.ceil args
  | sqrt => withOperand room f Number.sqrt args
  | min =>
    match args with
    | [] => .ok (.float Binary.infinity)
    | first :: others => best room Number.lt f first others
  | max =>
    match args with
    | [] => .ok (.float (-Binary.infinity))
    | first :: others => best room Number.gt f first others
  | pow =>
    match args with
    | [a, b] => do
      let x ← operand room f a
      let y ← operand room f b
      return .ofNumber (x.pow y)
    | _ => wrongArguments
  | parseFloat => withOne (fun v => Value.float <$> v.toFloat room) args
  | parseInt =>
    match args with
    | [v] => numeric (v.toInt room (.int 10))
    | [v, base] => numeric (v.toInt room base)
    | _ => wrongArguments
  | isNaN => withOne (fun v => do return .bool (← v.wholeFloat room).isNaN) args
  | isFinite => withOne (fun v => do return .bool (Binary.isFinite (← v.wholeFloat room))) args
  | toString => withOne (fun v => Value.text <$> v.shown room) args
  | asString => withOne (fun v => Value.text <$> v.shown room) args
  | getAsString => withOne (fun v => Value.text <$> v.shown room) args
  | toNumber => withOne (fun v => Value.ofNumber <$> v.toNumber room) args
  | length => withOne (fun v => .ok (.int (Aggregate.length v))) args
  | sum => numeric (Aggregate.sum room args)
  | count => .ok (.int (Aggregate.count args))
  | sumLineTotal => withOne (fun v => Value.ofNumber <$> Aggregate.sumLineTotal room v) args

/-- Calls a function by name, with so much room. -/
def callWithin (room : Nat) (function : String) (args : List Value) : Except Fault Value :=
  if unsupported.contains function then .error (.unsupportedFunction function)
  else
    match ofName? function with
    | none => .error (.unknownFunction function)
    | some f =>
      match f.apply room args with
      | .error (.abort .depth) => .error (.abort .depth)
      | .error (.abort _) => .error (.callFailed function)
      | r => r

def call (function : String) (args : List Value) : Except Fault Value :=
  callWithin depthLimit function args

end Builtin

end LiveForm
