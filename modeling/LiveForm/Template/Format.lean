import LiveForm.Aggregate
import LiveForm.Text.Lowercase

/-! Number formats of templates: currency with two places, plain numbers with up to three and
percents with up to two, all with commas between groups of three digits. -/

namespace LiveForm.Template

/-- Takes off zeros at the end, and then the point. -/
def dropTrailingZeros (cs : List Char) : List Char :=
  if cs.contains '.' then
    let reversed := cs.reverse.dropWhile (· == '0')
    (reversed.dropWhile (· == '.')).reverse
  else cs

def grouped (n : Number) (places : Nat) : Except Abort (List Char) :=
  return dropTrailingZeros (Decimal.fixedChars places (← n.toFloat))

def currency (n : Number) : Except Abort (List Char) := do
  let sign := if n.lt (.int 0) then ['-'] else []
  return sign ++ '$' :: Decimal.fixedChars 2 (← n.abs.toFloat)

/-- Formats a value by the name of a format, in any case; other names, and what is no name, give the
display text. -/
def formatAsWithin (room : Nat) (v kind : Value) : Except Abort String :=
  match kind with
  | .text name => do
    let n ← v.toNumber room
    let format := Text.lower name.toList
    if format = "currency".toList then return String.ofList (← currency n)
    else if format = "number".toList then return String.ofList (← grouped n 3)
    else if format = "percent".toList then return String.ofList ((← grouped n 2) ++ ['%'])
    else v.shown room
  | _ => v.shown room

def formatAs (v kind : Value) : Except Abort String := formatAsWithin depthLimit v kind

end LiveForm.Template
