import LiveForm.Definition

/-! The cases of a definition: each runs on a session of its own and compares the values and the
renderings that it expects with those that come out. -/

namespace LiveForm

/-- Whether doubles agree up to a tolerance, taken relative to either of them or absolutely. -/
def closeFloats (tolerance x y : Float) : Bool :=
  if x == y then true
  else if x.isInf || y.isInf then false
  else
    let gap := (y - x).abs
    gap ≤ (tolerance * y).abs || gap ≤ (tolerance * x).abs || gap ≤ tolerance

def closeNumbers (tolerance a b : Number) : Except Abort Bool := do
  let x ← a.toFloat
  let y ← b.toFloat
  let t ← tolerance.toFloat
  if t < 0.0 then .error .domain else return closeFloats t x y

def defaultTolerance : Number := .float 1e-9

/-- Whether an expected value came out: truth values only as themselves, numbers up to a tolerance,
and all else when equal. -/
def valuesMatch (expected actual : Value) (tolerance : Number) : Except Abort Bool :=
  match expected, actual with
  | .bool a, .bool b => .ok (a == b)
  | .bool _, _ => .ok false
  | _, .bool _ => .ok false
  | _, _ =>
    match expected.number?, actual.number? with
    | some a, some b => closeNumbers tolerance a b
    | _, _ => .ok (expected.equal actual)

structure CaseResult where
  caseName : String
  target : String
  passed : Bool
  expected : Value
  actual : Value
  error : Option String

structure CaseReport where
  results : List CaseResult

namespace CaseReport

def passed (r : CaseReport) : Nat := r.results.countP (·.passed)

def failed (r : CaseReport) : Nat := r.results.countP fun c => !c.passed

def total (r : CaseReport) : Nat := r.results.length

end CaseReport

namespace Definition

def fieldResult (c : CaseSpec) (output : Context) (errors : Table String String)
    (target : String) (expected : Value) : Except Abort CaseResult := do
  let actual := (output.get? target).getD .null
  let passed ← valuesMatch expected actual defaultTolerance
  return ⟨c.name, target, passed, expected, actual, errors.get? target⟩

def templateResult (d : Definition) (c : CaseSpec) (s : Session) (inputs : Mapping)
    (name expected : String) : Except Abort CaseResult :=
  let target := "template:" ++ name
  match d.templates.get? name with
  | none => .ok ⟨c.name, target, false, .text expected, .null, some "no such template"⟩
  | some text => do
    let actual ← s.processTemplate text (some inputs) none .empty
    return ⟨c.name, target, actual == expected, .text expected, .text actual, none⟩

/-- The results of one case: its fields, and then its templates. -/
def runCase (d : Definition) (c : CaseSpec) : Except Abort (List CaseResult) :=
  d.onSession do
    let inputs := Mapping.ofContext (d.values.merge c.inputs)
    let output ← Session.evaluateAll (.int 0) { raw := inputs }
    let s ← get
    let fields ← Session.orAbort
      (c.expect.entries.mapM fun (id, v) => fieldResult c output s.errors id v)
    let templates ← Session.orAbort
      (c.templates.entries.mapM fun (name, text) => d.templateResult c s inputs name text)
    return fields ++ templates

def runCases (d : Definition) : Except Abort CaseReport :=
  return ⟨(← d.cases.mapM d.runCase).flatten⟩

end Definition

end LiveForm
