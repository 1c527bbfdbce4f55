import LiveForm.Text.CaseRanges
import LiveForm.Text.Class

/-! Lowercase mapping. Each character maps on its own, with two exceptions: a dotted capital I
becomes two characters, and a capital sigma takes its final form at the end of a word. -/

namespace LiveForm.Text

def lowerChar (c : Char) : Char :=
  if c.toNat < 128 then (if isAsciiUpper c then Char.ofNat (c.toNat + 32) else c)
  else
    match CaseRanges.lowerRuns.find? (·.covers c.toNat) with
    | some run => Char.ofNat (c.toNat + run.offset).toNat
    | none => c

def isCased (c : Char) : Bool := Ranges.member CaseRanges.cased c.toNat

def isCaseIgnorable (c : Char) : Bool := Ranges.member CaseRanges.caseIgnorable c.toNat

/-- Whether the first character that a word-end test looks at has case. -/
def continuesWord (cs : List Char) : Bool :=
  ((cs.dropWhile isCaseIgnorable).head?).any isCased

/-- `inWord` says whether the last character that counts had case. -/
def lowerFrom (inWord : Bool) : List Char → List Char
  | [] => []
  | c :: rest =>
    let after := if isCaseIgnorable c then inWord else isCased c
    if c == 'Σ' then (if inWord && !continuesWord rest then 'ς' else 'σ') :: lowerFrom after rest
    else if c == 'İ' then 'i' :: '\u0307' :: lowerFrom after rest
    else lowerChar c :: lowerFrom after rest

def lower (cs : List Char) : List Char := lowerFrom false cs

end LiveForm.Text
