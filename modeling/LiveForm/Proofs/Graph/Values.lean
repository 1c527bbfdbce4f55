import LiveForm.Proofs.Graph.Edges

/-! # What a node holds besides its edges

A registration, a new edge and a removal rewrite the edges of many nodes. Of the rest, a registration
rewrites the node of its own field, where the last value stays, and a removal takes out its own node;
every other node holds what it has held. -/

namespace LiveForm

namespace Node

variable {n : Node} {id : String}

/-- A node without its edges. -/
def bare (n : Node) : Node := { n with dependencies := [], dependents := [] }

theorem bare_addDependent : (n.addDependent id).bare = n.bare := by
  unfold addDependent
  split <;> rfl

end Node

namespace Graph

/-- What the node of an id holds besides its edges; a placeholder holds nothing. -/
def bareAt (g : Graph) (x : String) : Node := (nodeAt g.nodes x).bare

section Bare

variable {g : Graph} {nodes : Nodes} {E : Edges} {id d x : String} {n : Node}
  {expression : Option String} {dependencies : List String} {default : Value}

theorem bareAt_eq (h : g.nodes.get? x = some n) : g.bareAt x = n.bare := by rw [bareAt, nodeAt_eq h]

theorem bareAt_of_not_mem (h : x ∉ g.nodes.keys) : g.bareAt x = { id := x } := by
  rw [bareAt, nodeAt_of_not_mem h]
  rfl

theorem bare_entered : (entered nodes id expression dependencies default x).bare =
    if x = id then (nodeAt nodes x).bare.enter expression [] default else (nodeAt nodes x).bare := by
  unfold entered
  split <;> split <;> rfl

theorem bare_registered : (registered nodes id expression dependencies default x).bare =
    if x = id then (nodeAt nodes x).bare.enter expression [] default else (nodeAt nodes x).bare := by
  unfold registered
  split
  · exact Node.bare_addDependent.trans bare_entered
  · exact bare_entered

theorem bareAt_register (g : Graph) (id : String) (expression : Option String)
    (dependencies : List String) (default : Value) (x : String) :
    (g.register id expression dependencies default).bareAt x =
      if x = id then (g.bareAt x).enter expression [] default else g.bareAt x := by
  have hget := get?_register g id expression dependencies default x
  by_cases hx : x ∈ g.nodes.keys ∨ x = id ∨ x ∈ dependencies
  · rw [if_pos hx] at hget
    rw [bareAt_eq hget, bare_registered, bareAt]
  · rw [if_neg hx] at hget
    obtain ⟨hold, hid, -⟩ : x ∉ g.nodes.keys ∧ x ≠ id ∧ x ∉ dependencies := by simpa using hx
    rw [bareAt_of_not_mem (Table.get?_eq_none_iff.mp hget), if_neg hid, bareAt_of_not_mem hold]

theorem bare_linked : (linked nodes id d x).bare = (nodeAt nodes x).bare := by
  unfold linked
  dsimp only
  split
  · rfl
  · split
    · rw [Node.bare_addDependent]
      split <;> rfl
    · split <;> rfl

theorem bareAt_addDependency (m : Mirrors g.nodes E) (id d x : String) :
    (g.addDependency id d).bareAt x = g.bareAt x := by
  have hk : d ∈ (nodeAt g.nodes id).dependencies → d ∈ g.nodes.keys := fun hd =>
    (m.node_iff d).mpr (m.closed id d (((m.nodeAt_shows id).dependencies d).mp hd)).2
  have hget := get?_addDependency g id d x hk
  by_cases hx : x ∈ g.nodes.keys ∨ x = id ∨ x = d
  · rw [if_pos hx] at hget
    rw [bareAt_eq hget, bare_linked, bareAt]
  · rw [if_neg hx] at hget
    rw [bareAt_of_not_mem (Table.get?_eq_none_iff.mp hget), bareAt_of_not_mem (not_or.mp hx).1]

theorem bareAt_unregister (g : Graph) (id x : String) :
    (g.unregister id).2.bareAt x = if x = id then { id := x } else g.bareAt x := by
  have hget := get?_unregister g id x
  have hscrubbed : (scrubbed g.nodes id x).bare = (nodeAt g.nodes x).bare := by
    unfold scrubbed
    split <;> split <;> rfl
  by_cases hx : x = id
  · rw [if_neg fun h => h.2 hx] at hget
    rw [bareAt_of_not_mem (Table.get?_eq_none_iff.mp hget), if_pos hx]
  · rw [if_neg hx]
    by_cases hk : x ∈ g.nodes.keys
    · rw [if_pos ⟨hk, hx⟩] at hget
      rw [bareAt_eq hget, hscrubbed, bareAt]
    · rw [if_neg fun h => hk h.1] at hget
      rw [bareAt_of_not_mem (Table.get?_eq_none_iff.mp hget), bareAt_of_not_mem hk]

end Bare

end Graph

end LiveForm
