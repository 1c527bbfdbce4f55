import LiveForm.Proofs.Graph.Edges

/-! # The expressions of a graph

A field has the expression of its last registration. Edges that are added and ids that are removed
give no field another one. -/

namespace LiveForm

namespace Graph

/-- The expression of a field. Plain inputs, placeholders and ids that are no node have none. -/
def expressionAt (g : Graph) (x : String) : Option String := (g.nodes.get? x).bind Node.expression

section Expression

variable {g : Graph} {E : Edges} {id d x : String}

theorem expressionAt_eq {n : Node} (hn : g.nodes.get? x = some n) :
    g.expressionAt x = n.expression := by rw [expressionAt, hn, Option.bind_some]

theorem expression_nodeAt (g : Graph) (x : String) :
    (nodeAt g.nodes x).expression = g.expressionAt x := by
  unfold nodeAt expressionAt
  cases g.nodes.get? x <;> rfl

/-- A field with an expression is a node. -/
theorem mem_keys_of_expressionAt (h : (g.expressionAt x).isSome) : x ∈ g.nodes.keys := by
  by_contra hx
  rw [expressionAt, Table.get?_eq_none_iff.mpr hx] at h
  cases h

theorem expressionAt_register (g : Graph) (id : String) (expression : Option String)
    (dependencies : List String) (default : Value) (x : String) :
    (g.register id expression dependencies default).expressionAt x =
      if x = id then expression else g.expressionAt x := by
  rw [expressionAt, get?_register, ← expression_nodeAt]
  by_cases hx : x ∈ g.nodes.keys ∨ x = id ∨ x ∈ dependencies
  · rw [if_pos hx, Option.bind_some, registered_expression]
  · simp only [not_or] at hx
    rw [if_neg (by simpa only [not_or] using hx), Option.bind_none, if_neg hx.2.1,
      nodeAt_of_not_mem hx.1]

theorem linked_expression {nodes : Nodes} :
    (linked nodes id d x).expression = (nodeAt nodes x).expression := by
  unfold linked
  dsimp only
  split
  · rfl
  · split <;> split <;> simp

theorem expressionAt_addDependency (m : Mirrors g.nodes E) (id d x : String) :
    (g.addDependency id d).expressionAt x = g.expressionAt x := by
  have hk : d ∈ (nodeAt g.nodes id).dependencies → d ∈ g.nodes.keys := fun hd =>
    (m.node_iff d).mpr (m.closed id d (((m.nodeAt_shows id).dependencies d).mp hd)).2
  rw [expressionAt, get?_addDependency g id d x hk, ← expression_nodeAt]
  by_cases hx : x ∈ g.nodes.keys ∨ x = id ∨ x = d
  · rw [if_pos hx, Option.bind_some, linked_expression]
  · rw [if_neg hx, Option.bind_none, nodeAt_of_not_mem (not_or.mp hx).1]

theorem scrubbed_expression {nodes : Nodes} :
    (scrubbed nodes id x).expression = (nodeAt nodes x).expression := by
  unfold scrubbed
  split <;> split <;> rfl

theorem expressionAt_unregister (g : Graph) (id x : String) :
    (g.unregister id).2.expressionAt x = if x = id then none else g.expressionAt x := by
  rw [expressionAt, get?_unregister, ← expression_nodeAt]
  by_cases hx : x = id
  · simp [hx]
  · by_cases hk : x ∈ g.nodes.keys
    · rw [if_pos ⟨hk, hx⟩, if_neg hx, Option.bind_some, scrubbed_expression]
    · rw [if_neg (by simp [hk]), if_neg hx, Option.bind_none, nodeAt_of_not_mem hk]

end Expression

end Graph

end LiveForm
