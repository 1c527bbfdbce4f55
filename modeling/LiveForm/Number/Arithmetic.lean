import LiveForm.Abort
import LiveForm.Number.Binary

/-! Numbers are whole numbers of any size or doubles. Sums, differences and products of whole
numbers are exact; as soon as a double takes part, the other operand is rounded to a double, which
fails for whole numbers beyond the largest one. Comparison is exact for every mixture. -/

namespace LiveForm

inductive Number where
  | int (n : Int)
  | float (x : Float)

namespace Number

def toFloat : Number → Except Abort Float
  | .int n =>
    match Binary.ofInt? n with
    | some x => .ok x
    | none => .error .range
  | .float x => .ok x

/-- Applies the exact operation to two whole numbers and the rounded one to any other pair. -/
def lift (exact : Int → Int → Int) (rounded : Float → Float → Float) :
    Number → Number → Except Abort Number
  | .int a, .int b => .ok (.int (exact a b))
  | a, b => do
    let x ← a.toFloat
    let y ← b.toFloat
    return .float (rounded x y)

def add : Number → Number → Except Abort Number := lift (· + ·) (· + ·)

def sub : Number → Number → Except Abort Number := lift (· - ·) (· - ·)

def mul : Number → Number → Except Abort Number := lift (· * ·) (· * ·)

/-- A quotient of whole numbers is rounded once. The divisor is not zero. -/
def div : Number → Number → Except Abort Number
  | .int a, .int b =>
    match Binary.nearest? ((a < 0) != (b < 0)) a.natAbs b.natAbs with
    | some x => .ok (.float x)
    | none => .error .range
  | a, b => do
    let x ← a.toFloat
    let y ← b.toFloat
    return .float (x / y)

/-- The remainder with the sign of the dividend, taken on doubles. The divisor is not zero. -/
def rem (a b : Number) : Except Abort Number := do
  let x ← a.toFloat
  let y ← b.toFloat
  match Binary.remainder? x y with
  | some r => return .float r
  | none => .error .domain

def neg : Number → Number
  | .int n => .int (-n)
  | .float x => .float (-x)

def abs : Number → Number
  | .int n => .int n.natAbs
  | .float x => .float x.abs

def isZero : Number → Bool
  | .int n => n == 0
  | .float x => x == 0.0

def isNaN : Number → Bool
  | .int _ => false
  | .float x => x.isNaN

/-- The exact order of two numbers; none when one of them is the undefined number. -/
def compare? : Number → Number → Option Ordering
  | .int a, .int b => some (compare a b)
  | .int a, .float y => Binary.compareInt a y
  | .float x, .int b => (Binary.compareInt b x).map Ordering.swap
  | .float x, .float y => Binary.compareFloat x y

def lt (a b : Number) : Bool := a.compare? b == some .lt

def gt (a b : Number) : Bool := a.compare? b == some .gt

def le (a b : Number) : Bool := a.lt b || a.compare? b == some .eq

def ge (a b : Number) : Bool := a.gt b || a.compare? b == some .eq

def equal (a b : Number) : Bool := a.compare? b == some .eq

/-- Whether the number is neither infinite nor undefined; a whole number has to be within the range
of doubles for the question to have an answer. -/
def isFinite (a : Number) : Except Abort Bool := return Binary.isFinite (← a.toFloat)

def wholeOr (x : Float) : Option Int → Except Abort Number
  | some n => .ok (.int n)
  | none => .error (if x.isNaN then .domain else .range)

def floor : Number → Except Abort Number
  | .int n => .ok (.int n)
  | .float x => wholeOr x (Binary.floor? x)

def ceil : Number → Except Abort Number
  | .int n => .ok (.int n)
  | .float x => wholeOr x (Binary.ceil? x)

/-- The integer part, toward zero. -/
def truncate : Number → Except Abort Number
  | .int n => .ok (.int n)
  | .float x => wholeOr x (Binary.truncate? x)

/-- Rounds half upward, by adding a half on doubles and taking the floor; what is not finite stays.
-/
def round (a : Number) : Except Abort Number := do
  let x ← a.toFloat
  if Binary.isFinite x then wholeOr x (Binary.floor? (x + 0.5)) else return a

/-- The square root; undefined below zero. -/
def sqrt (a : Number) : Except Abort Number :=
  if a.ge (.int 0) then return .float (← a.toFloat).sqrt else return .float Binary.notANumber

/-- The power on doubles. Any overflow is positive infinity, as is a negative power of zero; a power
that is not real is undefined. -/
def pow (a b : Number) : Number :=
  match a.toFloat, b.toFloat with
  | .ok x, .ok y =>
    let r := x.pow y
    if r.isInf && Binary.isFinite x && Binary.isFinite y then .float Binary.infinity else .float r
  | _, _ => .float Binary.infinity

end Number

end LiveForm
