import LiveForm.Number.Binary

/-! The shortest decimal that reads back as a given double. For one digit, two digits and so on, the
two neighbours of the double on that decimal grid are tested in exact arithmetic against the
interval of reals that round to it; of two hits the nearer is taken, and of equally near ones the
even one. Seventeen digits always suffice. -/

namespace LiveForm.Decimal

/-- A positive decimal: `digits * 10 ^ exponent`. -/
structure Scaled where
  digits : Nat
  exponent : Int

/-- A quotient compared with another: `a / b ≤ c / d` for positive denominators. -/
structure Quotient where
  num : Nat
  den : Nat

def Quotient.le (x y : Quotient) : Bool := x.num * y.den ≤ y.num * x.den

def Quotient.lt (x y : Quotient) : Bool := x.num * y.den < y.num * x.den

/-- `m` times two to the power `e`. -/
def binary (m : Nat) (e : Int) : Quotient := ⟨m * Binary.twoTo e.toNat, Binary.twoTo (-e).toNat⟩

def Scaled.quotient (s : Scaled) : Quotient :=
  ⟨s.digits * Binary.tenTo s.exponent.toNat, Binary.tenTo (-s.exponent).toNat⟩

/-- The reals that round to a double: its half-way points, which belong when the mantissa is even.
-/
structure Interval where
  low : Quotient
  high : Quotient
  closed : Bool

/-- Below a power of two the spacing halves, unless the smallest spacing has been reached. -/
def interval (m : Nat) (e : Int) : Interval where
  low :=
    if m = Binary.twoTo 52 && -1074 < e then binary (4 * m - 1) (e - 2)
    else binary (2 * m - 1) (e - 1)
  high := binary (2 * m + 1) (e - 1)
  closed := m % 2 = 0

def Interval.contains (i : Interval) (q : Quotient) : Bool :=
  if i.closed then i.low.le q && q.le i.high else i.low.lt q && q.lt i.high

/-- The number of decimal digits before the point; for a number below one, minus the number of zeros
that follow the point. -/
def leading (q : Quotient) : Int :=
  if q.den ≤ q.num then (Nat.toDigits 10 (q.num / q.den)).length
  else 1 - (Nat.toDigits 10 ((q.den - 1) / q.num)).length

/-- The distance of the double from a grid point, over the common denominator. -/
def distance (x y : Quotient) : Nat :=
  let a := x.num * y.den
  let b := y.num * x.den
  if a ≤ b then b - a else a - b

/-- The better of the two neighbours on the grid with the given exponent, if one reads back. -/
def onGrid? (m : Nat) (e : Int) (exponent : Int) : Option Scaled :=
  let value := binary m e
  let range := interval m e
  let step := Scaled.quotient ⟨1, exponent⟩
  let below := value.num * step.den / (value.den * step.num)
  let low : Scaled := ⟨below, exponent⟩
  let high : Scaled := ⟨below + 1, exponent⟩
  match range.contains low.quotient, range.contains high.quotient with
  | true, true =>
    let toLow := distance value low.quotient
    let toHigh := distance value high.quotient
    if toLow < toHigh then some low
    else if toHigh < toLow then some high
    else if below % 2 = 0 then some low
    else some high
  | true, false => some low
  | false, true => some high
  | false, false => none

/-- The shortest decimal of the double `m * 2 ^ e`; at seventeen digits a neighbour always hits. -/
def shortest (m : Nat) (e : Int) : Scaled :=
  let lead := leading (binary m e)
  ((List.range 17).findSome? fun (k : Nat) => onGrid? m e (lead - (k + 1))).getD ⟨0, 0⟩

end LiveForm.Decimal
