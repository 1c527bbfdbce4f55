import LiveForm.Number.Shortest

/-! How numbers are written. Whole numbers have their decimal digits. Doubles have the fewest digits
that read back: with a point, and at least one digit after it, when the leading digit stands between
four places after the point and sixteen before it, and with an exponent of at least two digits
otherwise. A second form has a fixed number of places and commas between groups of three digits. -/

namespace LiveForm.Decimal

def naturalDigits (n : Nat) : List Char := Nat.toDigits 10 n

def intText (n : Int) : String :=
  String.ofList (if n < 0 then '-' :: naturalDigits n.natAbs else naturalDigits n.natAbs)

/-- The digits of a decimal without the zeros that end them. -/
def significant (s : Scaled) : List Char :=
  ((naturalDigits s.digits).reverse.dropWhile (· == '0')).reverse

/-- The fewest and the most digits before the point that are written without an exponent. -/
structure Layout where
  least : Int
  most : Int

def layout : Layout := ⟨-3, 16⟩

def exponentText (e : Int) : List Char :=
  let digits := naturalDigits e.natAbs
  'e' :: (if e < 0 then '-' else '+') :: List.replicate (2 - digits.length) '0' ++ digits

/-- Digits with the point after the first `point` of them. -/
def positional (digits : List Char) (point : Int) : List Char :=
  if point ≤ 0 then '0' :: '.' :: List.replicate (-point).toNat '0' ++ digits
  else
    let whole := digits.take point.toNat
    let rest := digits.drop point.toNat
    whole ++ List.replicate (point.toNat - digits.length) '0' ++
      '.' :: (if rest.isEmpty then ['0'] else rest)

def scientific (digits : List Char) (e : Int) : List Char :=
  digits.take 1 ++ (if digits.length ≤ 1 then [] else '.' :: digits.drop 1) ++ exponentText e

def positiveText (s : Scaled) : List Char :=
  let point := (naturalDigits s.digits).length + s.exponent
  let digits := significant s
  if layout.least ≤ point && point ≤ layout.most then positional digits point
  else scientific digits (point - 1)

def floatChars (x : Float) : List Char :=
  match Binary.parts x with
  | .notNumber => ['n', 'a', 'n']
  | .infinite negative => (if negative then ['-'] else []) ++ ['i', 'n', 'f']
  | .finite negative m e =>
    (if negative then ['-'] else []) ++
      (if m = 0 then ['0', '.', '0'] else positiveText (shortest m e))

def floatText (x : Float) : String := String.ofList (floatChars x)

/-- Commas between groups of three digits, counted from the right. -/
def grouped (digits : List Char) : List Char :=
  let reversed := digits.reverse.zipIdx.flatMap fun (c, i) =>
    if i % 3 = 0 && i ≠ 0 then [',', c] else [c]
  reversed.reverse

/-- A double with a fixed number of places, rounded half to even on its exact value, and grouped. -/
def fixedChars (places : Nat) (x : Float) : List Char :=
  match Binary.parts x with
  | .notNumber => ['n', 'a', 'n']
  | .infinite negative => (if negative then ['-'] else []) ++ ['i', 'n', 'f']
  | .finite negative m e =>
    let value := binary m e
    let units := Binary.divHalfEven (value.num * Binary.tenTo places) value.den
    let fraction := naturalDigits (units % Binary.tenTo places)
    (if negative then ['-'] else []) ++ grouped (naturalDigits (units / Binary.tenTo places)) ++
      (if places = 0 then []
       else '.' :: List.replicate (places - fraction.length) '0' ++ fraction)

end LiveForm.Decimal
