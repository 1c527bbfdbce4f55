import LiveForm.Proofs.Graph.Schedule

/-! # A rebuild needs no agreement of edges

Whatever the edge lists say, a schedule ends by itself. Counts may fall below zero and the same edge
may be counted down several times, but a count reaches zero from above only once, so that no id waits
twice, and only ids with a count wait at all. -/

namespace LiveForm.Graph

/-- The rounds of a schedule without a bound on their number: the node of the id that has waited
longest is looked up, and what it lists is released, until nothing waits. -/
inductive Drains (nodes : Nodes) : Sweep → Sweep → Prop where
  | empty {s : Sweep} (hw : s.waiting = []) : Drains nodes s s
  | round {s t : Sweep} {current : String} {rest : List String} {n : Node}
      (hw : s.waiting = current :: rest) (hn : nodes.get? current = some n)
      (ht : Drains nodes (n.dependents.foldl Sweep.release
        { s with waiting := rest, placed := s.placed ++ [current] }) t) : Drains nodes s t

namespace Drains

variable {nodes : Nodes} {s t u : Sweep}

theorem unique (ht : Drains nodes s t) (hu : Drains nodes s u) : t = u := by
  induction ht with
  | empty hw =>
    cases hu with
    | empty _ => rfl
    | round hw' _ _ =>
      rw [hw] at hw'
      cases hw'
  | round hw hn _ ih =>
    cases hu with
    | empty hw' =>
      rw [hw] at hw'
      cases hw'
    | round hw' hn' hu =>
      obtain ⟨rfl, rfl⟩ := List.cons.inj (hw.symm.trans hw')
      obtain rfl := Option.some.inj (hn.symm.trans hn')
      exact ih hu

end Drains

namespace Sweep

variable {nodes : Nodes} {s : Sweep}

theorem place_of_get? {current : String} {rest : List String} {n : Node}
    (hn : nodes.get? current = some n) : s.place nodes current rest =
      n.dependents.foldl release { s with waiting := rest, placed := s.placed ++ [current] } := by
  simp [place, hn]

/-- With as many rounds as there are nodes left to place, the bound on the rounds is never met. -/
theorem Sound.drains (hs : Sound nodes s) {rounds : Nat}
    (hr : nodes.size ≤ s.placed.length + rounds) : Drains nodes s (run nodes rounds s) := by
  induction rounds generalizing s with
  | zero =>
    have hle := hs.length_le
    exact .empty (List.eq_nil_of_length_eq_zero (by omega))
  | succ rounds ih =>
    unfold run
    split
    · rename_i hw
      exact .empty hw
    · rename_i current rest hw
      obtain ⟨n, hn⟩ := Table.exists_get?_of_mem_keys (hs.known (x := current) (by simp [hw]))
      refine .round hw hn ?_
      rw [← place_of_get? hn]
      refine ih (hs.place hw) ?_
      rw [place_placed, List.length_append, List.length_singleton]
      omega

end Sweep

/-- What a rebuild of the order has to give, whatever the nodes are. -/
structure SafelyRebuilt (g : Graph) : Prop where
  /-- The rounds come to an end, and every id that they place is found. -/
  drains : ∃ t, Drains g.nodes (Sweep.start g.nodes) t
  order_eq : ∀ t, Drains g.nodes (Sweep.start g.nodes) t → g.rebuild.order = t.placed
  order_nodup : g.rebuild.order.Nodup
  perm : (g.rebuild.order ++ g.rebuild.circular).Perm g.nodes.keys
  order_again : g.rebuild.rebuild.order = g.rebuild.order
  circular_again : g.rebuild.rebuild.circular = g.rebuild.circular

/-- **A rebuild is safe on any edge lists.** They may name unknown ids, the node itself, an id
several times, or an edge at one end only. -/
theorem rebuild_safe {g : Graph} (hn : g.nodes.keys.Nodup) : g.SafelyRebuilt := by
  have hrun : Drains g.nodes (Sweep.start g.nodes)
      (Sweep.run g.nodes g.nodes.size (Sweep.start g.nodes)) :=
    (Sweep.Sound.start g.nodes hn).drains (Nat.le_add_left _ _)
  refine ⟨⟨_, hrun⟩, ?_, schedule_nodup hn, schedule_perm hn, ?_, ?_⟩
  · intro t ht
    rw [ht.unique hrun]
    rfl
  · rw [settled_rebuild g]
  · rw [settled_rebuild g]

/-- Edges at one end only, a node that depends on itself, dependents listed twice and unknown ids. -/
def tangled : Graph :=
  { nodes := .ofList
      [("a", { id := "a", dependents := ["b", "b", "d", "z"] }),
       ("b", { id := "b", dependencies := ["a", "z"], dependents := ["a", "c"] }),
       ("c", { id := "c", dependencies := ["c"], dependents := ["c"] }),
       ("d", { id := "d", dependencies := ["a", "a"] })] }

theorem tangled_safe :
    tangled.rebuild.order = ["a", "b", "c"] ∧ tangled.rebuild.circular = ["d"] ∧
      tangled.SafelyRebuilt :=
  ⟨by decide +kernel, by decide +kernel, rebuild_safe (by decide +kernel)⟩

end LiveForm.Graph
