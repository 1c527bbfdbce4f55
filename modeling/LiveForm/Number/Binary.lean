/-! Doubles as exact numbers. A finite double is a whole mantissa times a power of two, so its
floor, its order against whole numbers and its remainders are computed without rounding. In the
other direction, `nearest?` rounds a quotient of natural numbers to the closest double, ties to the
even mantissa, and answers `none` beyond the largest double. -/

namespace LiveForm.Binary

/-- Powers of two, the units of a double. -/
def twoTo (n : Nat) : Nat := Nat.pow 2 n

/-- Powers of ten, the units of a decimal. -/
def tenTo (n : Nat) : Nat := Nat.pow 10 n

/-- What a double stands for; a finite one is the mantissa times `2 ^ exponent`, with a sign. -/
inductive Parts where
  | notNumber
  | infinite (negative : Bool)
  | finite (negative : Bool) (mantissa : Nat) (exponent : Int)

def parts (x : Float) : Parts :=
  let bits := x.toBits.toNat
  let negative := twoTo 63 ≤ bits
  let field : Nat := bits / twoTo 52 % 2048
  let fraction := bits % twoTo 52
  if field = 2047 then
    if fraction = 0 then .infinite negative else .notNumber
  else if field = 0 then .finite negative fraction (-1074)
  else .finite negative (fraction + twoTo 52) ((field : Int) - 1075)

def isFinite (x : Float) : Bool :=
  match parts x with
  | .finite .. => true
  | _ => false

/-- The quotient rounded to the nearest natural number, a half to the even neighbour. -/
def divHalfEven (n d : Nat) : Nat :=
  let q := n / d
  let r := n % d
  if 2 * r < d then q
  else if d < 2 * r then q + 1
  else if q % 2 = 0 then q
  else q + 1

def signed (negative : Bool) (n : Nat) : Int := if negative then -(n : Int) else n

/-- The exponent of the largest power of two that does not exceed the quotient `n / d`. -/
def log2Quotient (n d : Nat) : Int :=
  let guess : Int := (Nat.log2 n : Int) - Nat.log2 d
  if d * twoTo guess.toNat ≤ n * twoTo (-guess).toNat then guess else guess - 1

/-- The bit pattern of the double nearest to `n / d`, as if exponents had no upper bound. A mantissa
that rounds up to the next power of two carries into the exponent field, where it belongs. -/
def nearestBits (n d : Nat) : Nat :=
  if n = 0 then 0
  else
    let unit := max (log2Quotient n d - 52) (-1074)
    let mantissa := divHalfEven (n * twoTo (-unit).toNat) (d * twoTo unit.toNat)
    (unit + 1074).toNat * twoTo 52 + mantissa

def infinityBits : Nat := 2047 * twoTo 52

def infinity : Float := Float.ofBits (UInt64.ofNat infinityBits)

def notANumber : Float := 0.0 / 0.0

/-- The double nearest to `n / d` with the given sign, unless that is beyond the largest double. -/
def nearest? (negative : Bool) (n d : Nat) : Option Float :=
  let bits := nearestBits n d
  if bits < infinityBits then
    some (Float.ofBits (UInt64.ofNat (if negative then bits + twoTo 63 else bits)))
  else none

/-- The double nearest to a whole number, unless that is beyond the largest double. -/
def ofInt? (n : Int) : Option Float := nearest? (n < 0) n.natAbs 1

/-- Rounds a finite double to a whole number with the given division, floor or ceiling or toward
zero; a double that is no number or infinite has no such rounding. -/
def toIntWith (divide : Int → Int → Int) (x : Float) : Option Int :=
  match parts x with
  | .finite negative m e =>
    some (divide (signed negative (m * twoTo e.toNat)) (twoTo (-e).toNat : Int))
  | _ => none

def floor? (x : Float) : Option Int := toIntWith Int.fdiv x

def ceil? (x : Float) : Option Int := toIntWith (fun n d => -Int.fdiv (-n) d) x

def truncate? (x : Float) : Option Int := toIntWith Int.tdiv x

/-- The whole number that a double is, when it is one. -/
def exactInt? (x : Float) : Option Int :=
  match parts x with
  | .finite negative m e =>
    if m % twoTo (-e).toNat = 0 then
      some (signed negative (m * twoTo e.toNat / twoTo (-e).toNat))
    else none
  | _ => none

/-- The exact order of a whole number against a double; none when the double is no number. -/
def compareInt (n : Int) (x : Float) : Option Ordering :=
  match parts x with
  | .notNumber => none
  | .infinite negative => some (if negative then .gt else .lt)
  | .finite negative m e =>
    some (compare (n * (twoTo (-e).toNat : Int)) (signed negative (m * twoTo e.toNat)))

def compareFloat (x y : Float) : Option Ordering :=
  if x < y then some .lt
  else if y < x then some .gt
  else if x == y then some .eq
  else none

/-- The remainder of a truncated division, with the sign of the dividend. It is exact, since both
operands are whole multiples of the smaller unit. An infinite dividend has no remainder; nor has a
zero divisor. -/
def remainder? (x y : Float) : Option Float :=
  match parts x, parts y with
  | .notNumber, _ => some x
  | _, .notNumber => some y
  | .infinite _, _ => none
  | .finite .., .infinite _ => some x
  | .finite negative m e, .finite _ n f =>
    if n = 0 then none
    else
      let unit := min e f
      let r := (m * twoTo (e - unit).toNat) % (n * twoTo (f - unit).toNat)
      nearest? negative (r * twoTo unit.toNat) (twoTo (-unit).toNat)

end LiveForm.Binary
