import LiveForm.Cache
import LiveForm.Graph
import LiveForm.Layers
import LiveForm.Row
import LiveForm.Snapshot
import LiveForm.Template

/-! A session holds the fields of one form and evaluates them in dependency order. A pass keeps a
working context that expressions read: it starts from the entered values, and every field adds its
value, its alias and its cell as soon as it is known. What a pass reports replaces the previous
report only when the pass ends; a pass that aborts leaves the report, the graph and its edges as
they were. -/

namespace LiveForm

structure Session where
  settings : Settings := {}
  engine : Engine := {}
  graph : Graph := {}
  cache : Cache Answer := {}
  errors : Table String String := .empty
  lastResults : Context := .empty
  /-- The values of the computed fields of the last pass. -/
  computed : Context := .empty
  /-- The declared children of arrays. -/
  schemas : Table String (List String) := .empty
  /-- For each array, its row fields that have an expression. -/
  rowLinks : Table String (List String) := .empty
  /-- How many expressions have been evaluated, cached answers not counted. -/
  evaluations : Nat := 0

/-- What a pass has found so far. -/
structure Pass where
  /-- What expressions read. -/
  working : Context
  results : Context
  errors : Table String String := .empty
  computed : Context := .empty

structure Stats where
  totalNodes : Nat
  order : List String
  cacheSize : Nat
  circular : List String

namespace Node

/-- A plain input with the value that it was given. -/
def given (v : Value) (n : Node) : Node := { n with isComputed := false, lastValue := v }

/-- A computed field with its answer; when it failed its last value stays. -/
def answered (now : Number) (a : Answer) (n : Node) : Node :=
  match a.error with
  | some _ => { n with isComputed := false }
  | none => { n with lastValue := a.value, isComputed := true, lastEvaluatedAt := some now }

end Node

namespace Session

/-- A computation that may abort and keeps what it has changed in either case. -/
abbrev Action := ExceptT Abort (StateM Session)

def create (settings : Settings) : Session :=
  { settings := settings, cache := { window := .float settings.stalenessWindow } }

/-- Runs a computation of the engine. -/
def onEngine {α : Type} (action : Engine.Action α) : Action α := do
  let s ← get
  let (outcome, engine) := action.run s.engine
  set { s with engine := engine }
  liftExcept outcome
where
  liftExcept : Except Abort α → Action α
    | .ok a => pure a
    | .error cause => throw cause

def orAbort {α : Type} : Except Abort α → Action α
  | .ok a => pure a
  | .error cause => throw cause

def modifyGraph (f : Graph → Graph) : Action Unit := modify fun s => { s with graph := f s.graph }

def modifyNode (id : String) (f : Node → Node) : Action Unit :=
  modifyGraph fun g => { g with nodes := g.nodes.modify id f }

/-! ## Registration -/

/-- Declares the children that each row of an array has. -/
def registerArray (s : Session) (array : String) (children : List String) : Session :=
  { s with schemas := s.schemas.insert array children }

/-- The dependencies of a field as edges lead to them: local names of a row field belong to the row.
-/
def qualified (s : Session) (row : Option RowRef) (dependencies : List String) : List String :=
  match row with
  | some row =>
    row.qualifyDependencies dependencies (s.schemas.get? row.array)
      (s.graph.nodes.keys.filter isLocalName)
  | none => dependencies

/-- The edges of a field: declared ones or else its references, and for an array the links from its
computed rows. -/
def edges (s : Session) (id : String) (row : Option RowRef) (dependencies : List String) :
    List String :=
  let own := s.qualified row dependencies
  own ++ (((s.rowLinks.get? id).getD []).filter fun link => !own.contains link)

/-- Links a computed row field to its array, so that readers of the array wait for it. -/
def linkRow (s : Session) (id : String) (row : RowRef) : Session :=
  let links := (s.rowLinks.get? row.array).getD []
  { s with
    rowLinks := s.rowLinks.insert row.array (if links.contains id then links else links ++ [id])
    graph := s.graph.addDependency row.array id }

/-- Blank expression text is none. -/
def expressionOf (text : Option String) : Option String :=
  text.filter fun t => !(Text.trim t).isEmpty

/-- Registers a field whose row and dependencies are known. -/
def enter (s : Session) (id : String) (row : Option RowRef) (expression : Option String)
    (dependencies : List String) (default : Value) : Session :=
  let graph := s.graph.register id expression (s.edges id row dependencies) default
  let s := { s with graph := graph, cache := (s.cache.discard id).2 }
  match row, expression with
  | some row, some _ => s.linkRow id row
  | _, _ => s

/-- Registers a field, or registers it anew. Without declared dependencies they are the references
of its expression with their heads. -/
def register (id : String) (text : Option String) (declared : Option (List String))
    (default : Value) : Action Unit := do
  let expression := expressionOf text
  let references ← match expression with
    | some e => onEngine (Engine.dependencies e)
    | none => pure []
  let extracted ← orAbort (withHeads references (← get).graph.nodes.keys)
  let row ← orAbort (RowRef.parse? id)
  modify fun s => s.enter id row expression (declared.getD extracted) default

def unlinkRow (row : RowRef) (id : String) (s : Session) : Session :=
  { s with rowLinks := s.rowLinks.modify row.array fun ids => ids.erase id }

/-- Takes a field out of the graph and forgets what is known of it. -/
def drop (id : String) (s : Session) : Session :=
  { s with
    graph := (s.graph.unregister id).2
    cache := (s.cache.discard id).2
    errors := s.errors.erase id
    computed := s.computed.erase id
    rowLinks := s.rowLinks.erase id }

/-- Removes a field; false when it was not registered. -/
def unregister (id : String) : Action Bool := do
  let removed := ((← get).graph.unregister id).1
  modify (drop id)
  match ← orAbort (RowRef.parse? id) with
  | some row => modify (unlinkRow row id)
  | none => pure ()
  return removed

/-! ## Evaluation -/

/-- The last part of a dotted id that is not of a row. -/
def alias? (id : String) : Except Abort (Option String) :=
  match leafName? id with
  | some leaf => return if ← isRowId id then none else some leaf
  | none => .ok none

/-- Names that nothing else binds stand for entered values with a dotted id. -/
def aliasRaw (raw working : Context) : Except Abort Context :=
  raw.entries.foldlM (fun w (id, v) => do
    match ← alias? id with
    | some leaf => return w.insertNew leaf v
    | none => return w) working

/-- Names stand for previously computed values with a dotted id. -/
def aliasCalculated (calculated working : Context) : Except Abort Context :=
  calculated.entries.foldlM (fun w (id, v) => do
    match ← alias? id with
    | some leaf => return w.insert leaf v
    | none => return w) working

/-- The working context at the start of a pass: metadata, entered values over it, cells of entered
rows where nothing is bound, computed values over all, and aliases. -/
def seed (settings : Settings) (layers : Layers) : Except Abort Context := do
  let entered := layers.metadata.merge layers.raw
  let cells ← flattenRows layers.raw
  let withCells := cells.entries.foldl (fun w (id, v) => w.insertNew id v) entered
  let working := withCells.merge layers.calculated
  if settings.aliasLeafNames then
    aliasCalculated layers.calculated (← aliasRaw layers.raw working)
  else return working

/-- Binds the last part of a dotted id, unless that is a field or an entered value of its own. -/
def bindAlias (s : Session) (raw : Context) (id : String) (v : Value) (p : Pass) :
    Except Abort Pass :=
  match leafName? id with
  | none => .ok p
  | some leaf =>
    if !s.settings.aliasLeafNames || s.graph.nodes.contains leaf then .ok p
    else do
      if (← isRowId id) || raw.contains leaf then return p
      else
        return { p with
          working := p.working.insert leaf v
          results := p.results.insertNew leaf v }

/-- Enters the value of a field. -/
def bindValue (s : Session) (raw : Context) (id : String) (v : Value) (p : Pass) :
    Except Abort Pass :=
  bindAlias s raw id v
    { p with working := p.working.insert id v, results := p.results.insert id v }

/-- The value of a plain input: as entered, unless the field has dependencies and the working
context has meanwhile changed it; none when it is bound nowhere. -/
def plainValue? (raw : Context) (n : Node) (p : Pass) : Option Value :=
  (if n.dependencies.isEmpty then raw.get? n.id else none).or (p.working.get? n.id)

def stepPlain (raw : Context) (n : Node) (p : Pass) : Action Pass := do
  match plainValue? raw n p with
  | some v =>
    modifyNode n.id (Node.given v)
    orAbort (bindValue (← get) raw n.id v p)
  | none =>
    modifyNode n.id (Node.given .null)
    return { p with results := p.results.insertNew n.id .null }

/-- What the expression of a field reads: the working context, for a row field with the siblings of
the row. -/
def scopeOf (id : String) (working : Context) : Except Abort Scope := do
  match ← RowRef.parse? id with
  | some row => return Mapping.scope (row.scope working)
  | none => return Context.scope working

/-- The scope of a computed field and the key of its answer: the values of its dependencies and of
everything its expression mentions. -/
def lookup (n : Node) (expression : String) (working : Context) : Action (Scope × CacheKey) := do
  let scope ← orAbort (scopeOf n.id working)
  let references ← onEngine (Engine.dependencies expression)
  let read ← orAbort (withHeads references [])
  let text ← orAbort (snapshot scope (n.dependencies ++ read))
  return (scope, ⟨n.id, expression, text⟩)

/-- The answer that is remembered under a key, if it is fresh. -/
def remembered (now : Number) (key : CacheKey) : Action (Option Answer) := do
  let (found, cache) := (← get).cache.get now key
  modify fun s => { s with cache := cache }
  return found

/-- The answer for a computed field, remembered or new. -/
def answer (now : Number) (n : Node) (expression : String) (working : Context) : Action Answer := do
  let (scope, key) ← lookup n expression working
  match ← remembered now key with
  | some a => return a
  | none =>
    modify fun s => { s with evaluations := s.evaluations + 1 }
    let a ← onEngine (Engine.evaluate expression scope)
    modify fun s => { s with cache := s.cache.set now key a }
    return a

/-- Enters the answer for a computed field, also into its cell. -/
def bindAnswer (s : Session) (raw : Context) (id : String) (a : Answer) (p : Pass) :
    Except Abort Pass := do
  let p := match a.error with
    | some message => { p with errors := p.errors.insert id message }
    | none => p
  let p ← bindValue s raw id a.value { p with computed := p.computed.insert id a.value }
  match ← RowRef.parse? id with
  | some row => return { p with working := row.writeBack a.value p.working }
  | none => return p

def stepComputed (now : Number) (raw : Context) (n : Node) (expression : String) (p : Pass) :
    Action Pass := do
  let a ← answer now n expression p.working
  modifyNode n.id (Node.answered now a)
  orAbort (bindAnswer (← get) raw n.id a p)

def step (now : Number) (raw : Context) (p : Pass) (id : String) : Action Pass := do
  match (← get).graph.nodes.get? id with
  | none => return p
  | some n =>
    match n.expression with
    | none => stepPlain raw n p
    | some expression => stepComputed now raw n expression p

/-- A circular field keeps its last value, or shows its default if that is null. -/
def Pass.addCircular (nodes : Graph.Nodes) (p : Pass) (id : String) : Pass :=
  let v := match nodes.get? id with
    | some n => if n.lastValue.isNull then n.default else n.lastValue
    | none => .null
  { p with
    results := p.results.insert id v
    errors := p.errors.insert id ("Circular dependency detected for field: " ++ id) }

/-- The entered values of a pass and what it starts from. -/
def opening (offer : Offer) : Action (Context × Pass) := do
  modifyGraph Graph.settle
  let layers ← orAbort (Layers.ofOffer offer)
  let working ← orAbort (seed (← get).settings layers)
  return (layers.raw, { working := working, results := layers.raw.merge layers.calculated })

/-- The steps of a pass over the fields that have an order, up to the final working context. -/
def sweep (now : Number) (offer : Offer) : Action Pass := do
  let (raw, start) ← opening offer
  (← get).graph.order.foldlM (step now raw) start

/-- Replaces the report of the last pass. -/
def publish (p : Pass) (s : Session) : Session :=
  { s with errors := p.errors, computed := p.computed, lastResults := p.results }

/-- Evaluates every field in dependency order and answers with the value of every id. -/
def evaluateAll (now : Number) (offer : Offer) : Action Context := do
  let p ← sweep now offer
  let g := (← get).graph
  let p := g.circular.foldl (Pass.addCircular g.nodes) p
  modify (publish p)
  return p.results

/-- Evaluates an expression apart from the fields. -/
def evaluateOnce (text : String) (scope : Scope) : Action Answer := do
  modify fun s => { s with evaluations := s.evaluations + 1 }
  onEngine (Engine.evaluate text scope)

/-! ## Templates -/

/-- The values that a template sees: those of the last pass, or, when entered values are given, a
seed made of them and of the given or last computed values. -/
def templateValues (s : Session) (raw calculated : Option Mapping) (metadata : Mapping) :
    Except Abort Mapping :=
  match raw with
  | none => .ok ((Mapping.ofContext s.lastResults).merge (calculated.getD .empty))
  | some raw => do
    let calculated := calculated.getD (Mapping.ofContext s.computed)
    return Mapping.ofContext (← seed s.settings (← Layers.ofOffer ⟨raw, calculated, metadata⟩))

def processTemplate (s : Session) (text : String) (raw calculated : Option Mapping)
    (metadata : Mapping) : Except Abort String := do
  Template.render s.settings text (← s.templateValues raw calculated metadata)

/-! ## Introspection -/

/-- The last value of a field, or its default when it failed and has one. -/
def displayValue (s : Session) (id : String) : Value :=
  let shown := (s.lastResults.get? id).getD .null
  match s.graph.nodes.get? id with
  | some n => if s.errors.contains id && !n.default.isNull then n.default else shown
  | none => shown

def settle (s : Session) : Session := { s with graph := s.graph.settle }

/-- The figures of a settled session. -/
def stats (s : Session) : Stats :=
  ⟨s.graph.nodes.size, s.graph.order, s.cache.size, s.graph.circular⟩

/-- Forgets the cached answers and the values of the last pass. -/
def clearCache (s : Session) : Session :=
  let nodes := s.graph.nodes.mapValues fun n => { n with isComputed := false }
  { s with
    cache := s.cache.clear
    graph := { s.graph with nodes := nodes }
    lastResults := .empty
    computed := .empty }

/-- Forgets every field and everything known about them. -/
def close (s : Session) : Session :=
  { create s.settings with cache := s.cache.clear, evaluations := s.evaluations }

end Session

end LiveForm
