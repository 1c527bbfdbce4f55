import LiveForm.Cases
import LiveForm.CommandLine.Arguments
import LiveForm.Json.Reader

/-! The commands: evaluate a form definition, check the syntax of expressions, and run the cases of
a definition. Each gives the text to print and an exit code, which is 0 for success, 1 for a failure
that was found and 2 for words that make no command. -/

namespace LiveForm.CommandLine

open Arguments

inductive Flag where
  | verbose | help | values | strict
deriving Repr, DecidableEq

def helpOption : OptionSpec Flag := { spellings := ["-h", "--help"], flag := .help }

def mainOptions : List (OptionSpec Flag) :=
  [helpOption, { spellings := ["--verbose", "-v"], flag := .verbose }]

def evalOptions : List (OptionSpec Flag) :=
  [helpOption, { spellings := ["--values"], flag := .values, takesValue := true },
   { spellings := ["--strict"], flag := .strict }]

inductive Command where
  | eval (form : String) (values : Option String) (strict : Bool)
  | validate (expressions : List String)
  | test (form : String) (verbose : Bool)

structure Output where
  code : Nat
  stdout : String := ""

/-- Words that make no command. -/
def usageError : Output := ⟨2, ""⟩

def has (flag : Flag) (s : Sorted Flag) : Bool := s.flags.any fun f => f.1 == flag

def valueOf? (flag : Flag) (s : Sorted Flag) : Option String :=
  (s.flags.reverse.find? fun f => f.1 == flag).bind (·.2)

/-- The words of one command, all of which must belong somewhere. -/
def operands? (specs : List (OptionSpec Flag)) (arity : Arity) (args : List String) :
    Option (Sorted Flag × List String) := do
  let s ← sort? specs arity args
  if s.leftover then none else return (s, ← s.positional)

/-- Reads the words of a command line. -/
def command? (args : List String) : Option Command := do
  let (main, words) ← operands? mainOptions .rest args
  match words with
  | "eval" :: rest => do
    match ← operands? evalOptions .one rest with
    | (s, [form]) => some (.eval form (valueOf? .values s) (has .strict s))
    | _ => none
  | "validate" :: rest => do
    let (_, expressions) ← operands? [helpOption] .many rest
    some (.validate expressions)
  | "test" :: rest => do
    match ← operands? [helpOption] .one rest with
    | (_, [form]) => some (.test form (has .verbose main))
    | _ => none
  | _ => none

/-- The documents that commands can read, by path. -/
abbrev Documents := String → Except LoadFault Value

/-- A definition, or the output of a command that cannot load it. -/
def load (documents : Documents) (path : String) : Except Abort (Except Output Definition) :=
  match documents path >>= Definition.ofDocument path with
  | .ok d => .ok (.ok d)
  | .error (.abort cause) => .error cause
  | .error _ => .ok (.error ⟨1, ""⟩)

/-- The values given on the command line, when they are a mapping; empty text gives none. -/
def overrides? : Option String → Except Abort (Option Mapping)
  | none => .ok (some .empty)
  | some text =>
    if text.isEmpty then .ok (some .empty)
    else
      match Json.read text with
      | .ok (.mapping entries) => .ok (some ⟨entries⟩)
      | .ok _ => .ok none
      | .error .malformed => .ok none
      | .error (.abort cause) => .error cause

def texts (t : Table String String) : Value :=
  .ofMapping ((t.mapKeys Key.text).mapValues Value.text)

def list (items : List String) : Value := .list (items.map Value.text)

def statsValue (s : Stats) : Value :=
  .mapping [
    (.text "total_nodes", .int s.totalNodes),
    (.text "evaluation_order", list s.order),
    (.text "cache_size", .int s.cacheSize),
    (.text "circular_dependency_ids", list s.circular)]

/-- Evaluates the definition and gathers what is printed; the flag tells whether a field failed. -/
def report (d : Definition) (values : Mapping) : Session.Action (Bool × Value) := do
  let results ← Session.evaluateAll (.int 0) { raw := values }
  let s ← get
  let rendered ← Session.orAbort (d.templates.entries.mapM fun (name, text) =>
    return (name, ← s.processTemplate text (some values) none .empty))
  let s := s.settle
  return (!s.errors.isEmpty, .mapping [
    (.text "values", .ofMapping (Mapping.ofContext results)),
    (.text "templates", texts ⟨rendered⟩),
    (.text "errors", texts s.errors),
    (.text "stats", statsValue s.stats)])

def runEval (d : Definition) (values : Option String) (strict : Bool) : Except Abort Output := do
  match ← overrides? values with
  | none => return usageError
  | some given =>
    let (failed, value) ← d.onSession (report d ((Mapping.ofContext d.values).merge given))
    return ⟨if failed && strict then 1 else 0, (← Json.render depthLimit Json.pretty 0 value) ++ "\n"⟩

/-- Whether an expression is valid, and one line about it. -/
def validateLine (text : String) : Engine.Action (Bool × String) := do
  let verdict ← Engine.validate text
  match verdict.error with
  | some message => return (false, "  FAIL  " ++ text ++ ": " ++ message ++ "\n")
  | none => do
    let ids ← Engine.dependencies text
    let reads := if ids.isEmpty then "-" else String.intercalate ", " ids
    return (true, "  OK    " ++ text ++ "  (reads: " ++ reads ++ ")\n")

def runValidate (expressions : List String) : Except Abort Output := do
  let lines ← ((expressions.mapM validateLine).run {}).1
  return ⟨if lines.all (·.1) then 0 else 1, String.join (lines.map (·.2))⟩

def caseLine (r : CaseResult) : Except Abort String := do
  let status := if r.passed then "PASS" else "FAIL"
  let suffix := match r.error with
    | some message => if message.isEmpty then "" else " (" ++ message ++ ")"
    | none => ""
  return "  " ++ status ++ "  " ++ r.caseName ++ " / " ++ r.target ++ ": expected " ++
    (← r.expected.written depthLimit) ++ ", got " ++ (← r.actual.written depthLimit) ++ suffix ++ "\n"

def runTest (d : Definition) (verbose : Bool) : Except Abort Output := do
  let report ← d.runCases
  let shown ← (report.results.filter fun r => verbose || !r.passed).mapM caseLine
  let summary := "  " ++ Decimal.intText report.passed ++ "/" ++ Decimal.intText report.total ++
    " expectations passed\n"
  return ⟨if report.failed = 0 then 0 else 1, String.join shown ++ summary⟩

def execute (documents : Documents) : Command → Except Abort Output
  | .validate expressions => runValidate expressions
  | .eval form values strict => do
    match ← load documents form with
    | .ok d => runEval d values strict
    | .error output => return output
  | .test form verbose => do
    match ← load documents form with
    | .ok d => runTest d verbose
    | .error output => return output

/-- Runs a command line. -/
def run (documents : Documents) (args : List String) : Except Abort Output :=
  match command? args with
  | some command => execute documents command
  | none => .ok usageError

end LiveForm.CommandLine
