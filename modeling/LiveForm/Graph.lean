import LiveForm.Value

/-! The dependency graph of the fields of a form. Nodes stand in the order in which they first came;
a node that is only named as a dependency is a placeholder until it registers itself. Every edge is
held at both its ends. The order of evaluation starts with the nodes without dependencies and places
a node once its last dependency has been placed; nodes that are never placed lie on a cycle or
behind one, and are kept aside as circular. -/

namespace LiveForm

structure Node where
  id : String
  /-- The expression text; a plain input has none. -/
  expression : Option String := none
  dependencies : List String := []
  dependents : List String := []
  default : Value := .null
  lastValue : Value := .null
  isComputed : Bool := false
  lastEvaluatedAt : Option Number := none

structure Graph where
  nodes : Table String Node := .empty
  order : List String := []
  circular : List String := []
  isDirty : Bool := false

namespace Node

def addDependent (n : Node) (id : String) : Node :=
  if n.dependents.contains id then n else { n with dependents := n.dependents ++ [id] }

def dropDependent (n : Node) (id : String) : Node :=
  { n with dependents := n.dependents.filter (· != id) }

def dropDependency (n : Node) (id : String) : Node :=
  { n with dependencies := n.dependencies.filter (· != id) }

end Node

namespace Graph

abbrev Nodes := Table String Node

/-- One round of the schedule: the nodes that wait to be placed, those that have been, and for each
node the number of its dependencies that have not. -/
structure Sweep where
  waiting : List String
  placed : List String
  degrees : Table String Int

/-- The dependencies of a node that are nodes, repeated ones counted. -/
def degree (nodes : Nodes) (n : Node) : Int := n.dependencies.countP nodes.contains

def Sweep.start (nodes : Nodes) : Sweep :=
  let degrees := nodes.mapValues (degree nodes)
  ⟨(degrees.entries.filter (·.2 == 0)).map (·.1), [], degrees⟩

/-- Counts one dependency of a node as placed; the node waits once none is left. -/
def Sweep.release (s : Sweep) (dependent : String) : Sweep :=
  match s.degrees.get? dependent with
  | none => s
  | some d =>
    { s with
      degrees := s.degrees.insert dependent (d - 1)
      waiting := if d - 1 = 0 then s.waiting ++ [dependent] else s.waiting }

/-- Places the node that has waited longest. -/
def Sweep.place (nodes : Nodes) (s : Sweep) (current : String) (rest : List String) : Sweep :=
  let dependents := ((nodes.get? current).map Node.dependents).getD []
  dependents.foldl Sweep.release { s with waiting := rest, placed := s.placed ++ [current] }

/-- Places waiting nodes until none is left. A node starts to wait at most once, when its count
reaches zero, so there are at most as many rounds as nodes. -/
def Sweep.run (nodes : Nodes) : Nat → Sweep → Sweep
  | 0, s => s
  | rounds + 1, s =>
    match s.waiting with
    | [] => s
    | current :: rest => Sweep.run nodes rounds (s.place nodes current rest)

def schedule (nodes : Nodes) : List String :=
  (Sweep.run nodes nodes.size (Sweep.start nodes)).placed

def rebuild (g : Graph) : Graph :=
  let order := schedule g.nodes
  { g with
    order := order
    circular := g.nodes.keys.filter fun id => !order.contains id
    isDirty := false }

/-- The node of an id, as it is or as a new placeholder. -/
def ensure (nodes : Nodes) (id : String) : Nodes := nodes.insertNew id { id := id }

/-- Enters the reverse end of an edge. -/
def linkDependent (id : String) (nodes : Nodes) (dependency : String) : Nodes :=
  (ensure nodes dependency).modify dependency (·.addDependent id)

/-- Takes out the reverse end of an edge. -/
def unlinkDependent (id : String) (nodes : Nodes) (dependency : String) : Nodes :=
  nodes.modify dependency (·.dropDependent id)

/-- Writes the node of a field and takes out the reverse ends of the edges that it no longer has. -/
def enter (nodes : Nodes) (id : String) (expression : Option String) (deps : List String)
    (default : Value) : Nodes :=
  match nodes.get? id with
  | some old =>
    let stale := old.dependencies.filter fun d => !deps.contains d
    (stale.foldl (unlinkDependent id) nodes).modify id fun n =>
      { n with
        expression := expression
        dependencies := deps
        default := default
        isComputed := false }
  | none =>
    nodes.insert id
      { id := id, expression := expression, dependencies := deps, default := default }

/-- Registers a field in place of what the node was before; its last value stays. -/
def register (g : Graph) (id : String) (expression : Option String) (dependencies : List String)
    (default : Value) : Graph :=
  let deps := dependencies.eraseDups
  rebuild { g with nodes := deps.foldl (linkDependent id) (enter g.nodes id expression deps default) }

/-- Adds one edge; nothing happens when it is there. -/
def addDependency (g : Graph) (id dependency : String) : Graph :=
  let nodes := ensure g.nodes id
  if ((nodes.get? id).map (·.dependencies.contains dependency)).getD false then
    { g with nodes := nodes }
  else
    let nodes := nodes.modify id fun n => { n with dependencies := n.dependencies ++ [dependency] }
    rebuild { g with nodes := linkDependent id nodes dependency }

/-- Removes a node and every edge that touches it; false when there is no such node. -/
def unregister (g : Graph) (id : String) : Bool × Graph :=
  match g.nodes.get? id with
  | none => (false, g)
  | some node =>
    let nodes := node.dependencies.foldl (unlinkDependent id) (g.nodes.erase id)
    let nodes := node.dependents.foldl (fun ns d => ns.modify d (·.dropDependency id)) nodes
    (true, rebuild { g with nodes := nodes })

def settle (g : Graph) : Graph := if g.isDirty then g.rebuild else g

/-- The circular ids, when there are any. -/
def cycle? (g : Graph) : Option (List String) :=
  if g.circular.isEmpty then none else some g.circular

def cycleMessage (ids : List String) : String :=
  "Circular dependency detected involving: " ++ String.intercalate ", " ids

/-- An edge that is held at one end only. -/
inductive LooseEdge where
  | noReverse (id dependency : String)
  | noForward (id dependent : String)
deriving Repr, DecidableEq

def LooseEdge.message : LooseEdge → String
  | noReverse id dependency => id ++ " -> " ++ dependency ++ " has no reverse edge"
  | noForward id dependent => dependent ++ " listed as dependent of " ++ id ++ " without edge"

def looseEdges (g : Graph) : List LooseEdge :=
  g.nodes.entries.flatMap fun (id, node) =>
    ((node.dependencies.filter fun d =>
        !((g.nodes.get? d).any (·.dependents.contains id))).map (.noReverse id)) ++
      ((node.dependents.filter fun d =>
        !((g.nodes.get? d).any (·.dependencies.contains id))).map (.noForward id))

end Graph

end LiveForm
