import LiveForm.Proofs.Graph.Cycles

/-! # The order goes layer by layer

A node without dependencies has depth zero, any other one lies one below the deepest of its
dependencies. The ids that wait are a queue: what has been placed and what waits stand in the order of
their depths, and the queue holds two depths at most. A node starts to wait when the last of its
dependencies is placed; that one is the deepest of them, so the node belongs at the end. -/

namespace LiveForm.Graph

/-- How far a node is above the nodes without dependencies, along the longest way. On a cycle, or
behind one, a node has no depth. -/
inductive HasDepth (nodes : Nodes) : String → Nat → Prop where
  | free {x : String} {n : Node} (hx : nodes.get? x = some n) (hd : n.dependencies = []) :
    HasDepth nodes x 0
  | above {x : String} {n : Node} {depth : String → Nat} {k : Nat} (hx : nodes.get? x = some n)
      (hd : ∀ d ∈ n.dependencies, HasDepth nodes d (depth d))
      (hk : (n.dependencies.map depth).max? = some k) : HasDepth nodes x (k + 1)

namespace HasDepth

variable {nodes : Nodes} {x : String} {j k : Nat}

theorem unique (hj : HasDepth nodes x j) (hk : HasDepth nodes x k) : j = k := by
  induction hj generalizing k with
  | free hx hd =>
    cases hk with
    | free _ _ => rfl
    | above hx' _ hk =>
      obtain rfl := Option.some.inj (hx.symm.trans hx')
      simp [hd] at hk
  | @above x n depth j hx hd hj ih =>
    cases hk with
    | free hx' hd' =>
      obtain rfl := Option.some.inj (hx.symm.trans hx')
      simp [hd'] at hj
    | @above _ _ depth' k hx' hd' hk =>
      obtain rfl := Option.some.inj (hx.symm.trans hx')
      have hmap : n.dependencies.map depth = n.dependencies.map depth' :=
        List.map_congr_left fun d hm => ih d hm (hd' d hm)
      rw [hmap, hk] at hj
      rw [Option.some.inj hj]

end HasDepth

/-- The depth of a node that has one. -/
noncomputable def depthOf (nodes : Nodes) (x : String) : Nat := Classical.epsilon (HasDepth nodes x)

theorem HasDepth.eq_depthOf {nodes : Nodes} {x : String} {k : Nat} (h : HasDepth nodes x k) :
    k = depthOf nodes x :=
  h.unique (Classical.epsilon_spec ⟨k, h⟩)

namespace Sweep

section Round

variable {nodes : Nodes} {E : Edges} {s : Sweep} {current : String} {rest : List String}

/-- A round adds nodes at the end of the queue, for which the placed one was the last dependency. -/
theorem place_fresh (m : Mirrors nodes E) (hs : Sound nodes s) (he : Exact nodes s)
    (hw : s.waiting = current :: rest) :
    ∃ fresh : List String,
      (s.place nodes current rest).waiting = rest ++ fresh ∧
      (s.place nodes current rest).placed ++ (s.place nodes current rest).waiting =
        (s.placed ++ s.waiting) ++ fresh ∧
      ∀ x ∈ fresh, ∃ n, nodes.get? x = some n ∧ current ∈ n.dependencies ∧
        ∀ d ∈ n.dependencies, d ∈ s.placed ++ [current] := by
  obtain ⟨fresh, hwait, hfresh⟩ := place_waiting m hs hw
  have hplaced := place_placed nodes s current rest
  refine ⟨fresh, hwait, by simp [hplaced, hwait, hw], ?_⟩
  intro x hx
  have hknown : x ∈ nodes.keys := (hs.place hw).known (by simp [hwait, hx])
  obtain ⟨n, hn⟩ := Table.exists_get?_of_mem_keys hknown
  refine ⟨n, hn, ((hfresh x n hn).mp hx).1, ?_⟩
  rw [← hplaced, ← (he.place m hs hw).ready x n hn, hwait]
  simp [hx]

end Round

/-- What has been placed and what waits, in the order of the queue: by depth, with two depths at most
among what waits, and the nodes without dependencies as they waited at the start. -/
structure Layered (nodes : Nodes) (s : Sweep) : Prop where
  measured : ∀ x ∈ s.placed ++ s.waiting, HasDepth nodes x (depthOf nodes x)
  rising : (s.placed ++ s.waiting).Pairwise fun x y => depthOf nodes x ≤ depthOf nodes y
  spans : ∀ x ∈ s.waiting, ∀ y ∈ s.waiting, depthOf nodes y ≤ depthOf nodes x + 1
  roots : ∃ deeper, s.placed ++ s.waiting = (Sweep.start nodes).waiting ++ deeper ∧
    ∀ x ∈ deeper, depthOf nodes x ≠ 0

/-- At the start the nodes without dependencies wait, in the order in which they came. -/
theorem start_waiting {nodes : Nodes} {E : Edges} (m : Mirrors nodes E) :
    (Sweep.start nodes).waiting =
      nodes.keys.filter fun x => (nodeAt nodes x).dependencies.isEmpty := by
  have hfree : ∀ e ∈ nodes.entries,
      (degree nodes e.2 == 0) = (nodeAt nodes e.1).dependencies.isEmpty := by
    intro (x, n) he
    have hx := Table.get?_of_mem m.keys_nodup he
    have hdeg := degree_eq_length m hx
    rw [nodeAt_eq hx]
    cases hds : n.dependencies with
    | nil => simp [hdeg, hds]
    | cons d ds =>
      simp [hdeg, hds]
      omega
  simp only [Sweep.start, Table.mapValues, Table.keys, List.filter_map, List.map_map]
  exact congrArg (List.map _) (List.filter_congr hfree)

theorem hasDepth_zero_of_start {nodes : Nodes} {E : Edges} (m : Mirrors nodes E) {x : String}
    (hx : x ∈ (Sweep.start nodes).waiting) : HasDepth nodes x 0 := by
  rw [start_waiting m] at hx
  obtain ⟨hkey, hempty⟩ := List.mem_filter.mp hx
  obtain ⟨n, hn⟩ := Table.exists_get?_of_mem_keys hkey
  rw [nodeAt_eq hn] at hempty
  exact .free hn (List.isEmpty_iff.mp hempty)

namespace Layered

variable {nodes : Nodes} {E : Edges} {s : Sweep}

theorem start (m : Mirrors nodes E) : Layered nodes (Sweep.start nodes) := by
  have hzero : ∀ x ∈ (Sweep.start nodes).waiting, depthOf nodes x = 0 := by
    intro x hx
    exact (hasDepth_zero_of_start m hx).eq_depthOf.symm
  have hall : (Sweep.start nodes).placed ++ (Sweep.start nodes).waiting =
      (Sweep.start nodes).waiting := rfl
  refine ⟨?_, ?_, ?_, [], by simp [hall], by simp⟩
  · intro x hx
    rw [hzero x hx]
    exact hasDepth_zero_of_start m hx
  · rw [hall]
    refine List.pairwise_of_forall_mem_list fun x hx y _ => ?_
    rw [hzero x hx]
    exact Nat.zero_le _
  · intro x hx y hy
    rw [hzero y hy]
    exact Nat.zero_le _

section Next

variable {current : String} {rest : List String}

theorem placed_le (h : Layered nodes s) (hw : s.waiting = current :: rest) :
    ∀ x ∈ s.placed ++ [current], depthOf nodes x ≤ depthOf nodes current := by
  intro x hx
  rcases List.mem_append.mp hx with hp | hp
  · exact (List.pairwise_append.mp h.rising).2.2 x hp current (by simp [hw])
  · obtain rfl := List.mem_singleton.mp hp
    exact le_refl _

theorem le_waiting (h : Layered nodes s) (hw : s.waiting = current :: rest) :
    ∀ x ∈ rest, depthOf nodes current ≤ depthOf nodes x := by
  have hr := (List.pairwise_append.mp h.rising).2.1
  rw [hw] at hr
  exact (List.pairwise_cons.mp hr).1

theorem le_succ (h : Layered nodes s) (hw : s.waiting = current :: rest) :
    ∀ x ∈ s.placed ++ s.waiting, depthOf nodes x ≤ depthOf nodes current + 1 := by
  intro x hx
  rcases List.mem_append.mp hx with hp | hq
  · exact Nat.le_succ_of_le (h.placed_le hw x (List.mem_append_left _ hp))
  · exact h.spans current (by simp [hw]) x hq

/-- The placed node is the deepest dependency of what it lets wait. -/
theorem depth_fresh (h : Layered nodes s) (hw : s.waiting = current :: rest) {x : String} {n : Node}
    (hx : nodes.get? x = some n) (hc : current ∈ n.dependencies)
    (hd : ∀ d ∈ n.dependencies, d ∈ s.placed ++ [current]) :
    HasDepth nodes x (depthOf nodes current + 1) := by
  have hsofar : s.placed ++ s.waiting = (s.placed ++ [current]) ++ rest := by simp [hw]
  refine .above hx (fun d hm => h.measured d (hsofar ▸ List.mem_append_left _ (hd d hm))) ?_
  refine List.max?_eq_some_iff.mpr ⟨List.mem_map_of_mem hc, ?_⟩
  intro k hk
  obtain ⟨d, hm, rfl⟩ := List.mem_map.mp hk
  exact h.placed_le hw d (hd d hm)

end Next

theorem place (m : Mirrors nodes E) (hs : Sound nodes s) (he : Exact nodes s)
    (h : Layered nodes s) {current : String} {rest : List String}
    (hw : s.waiting = current :: rest) : Layered nodes (s.place nodes current rest) := by
  obtain ⟨fresh, hwait, hall, hfresh⟩ := place_fresh m hs he hw
  have hnew : ∀ x ∈ fresh, HasDepth nodes x (depthOf nodes current + 1) := by
    intro x hx
    obtain ⟨n, hn, hc, hd⟩ := hfresh x hx
    exact h.depth_fresh hw hn hc hd
  have hdepth : ∀ x ∈ fresh, depthOf nodes x = depthOf nodes current + 1 := by
    intro x hx
    exact (hnew x hx).eq_depthOf.symm
  refine ⟨?_, ?_, ?_, ?_⟩
  · intro x hx
    rw [hall] at hx
    rcases List.mem_append.mp hx with hx | hx
    · exact h.measured x hx
    · rw [hdepth x hx]
      exact hnew x hx
  · rw [hall]
    refine List.pairwise_append.mpr ⟨h.rising, ?_, ?_⟩
    · refine List.pairwise_of_forall_mem_list fun x hx y hy => ?_
      rw [hdepth x hx, hdepth y hy]
    · intro x hx y hy
      rw [hdepth y hy]
      exact h.le_succ hw x hx
  · rw [hwait]
    intro x hx y hy
    have hx' : depthOf nodes current ≤ depthOf nodes x := by
      rcases List.mem_append.mp hx with hx | hx
      · exact h.le_waiting hw x hx
      · rw [hdepth x hx]
        omega
    have hy' : depthOf nodes y ≤ depthOf nodes current + 1 := by
      rcases List.mem_append.mp hy with hy | hy
      · exact h.le_succ hw y (by simp [hw, hy])
      · rw [hdepth y hy]
    omega
  · obtain ⟨deeper, hroots, hne⟩ := h.roots
    refine ⟨deeper ++ fresh, by rw [hall, hroots, List.append_assoc], ?_⟩
    intro x hx
    rcases List.mem_append.mp hx with hx | hx
    · exact hne x hx
    · rw [hdepth x hx]
      omega

end Layered

theorem run_layered {nodes : Nodes} {E : Edges} (m : Mirrors nodes E) (rounds : Nat) :
    Layered nodes (run nodes rounds (start nodes)) := by
  have h := run_induction (P := fun s => (Sound nodes s ∧ Exact nodes s) ∧ Layered nodes s)
    (fun _ _ _ h hw => ⟨⟨h.1.1.place hw, h.1.2.place m h.1.1 hw⟩, h.2.place m h.1.1 h.1.2 hw⟩) rounds
    ⟨⟨Sound.start nodes m.keys_nodup, Exact.start m⟩, Layered.start m⟩
  exact h.2

end Sweep

theorem Consistent.mem_order_of_hasDepth {g : Graph} {E : Edges} (h : g.Consistent E) {x : String}
    {k : Nat} (hk : HasDepth g.nodes x k) : x ∈ g.order := by
  have hplaced : ∀ {x n}, g.nodes.get? x = some n → (∀ d ∈ n.dependencies, d ∈ g.order) →
      x ∈ g.order := by
    intro x n hx hd
    refine (h.mem_order_iff ((h.mirrors.node_iff x).mp (Table.mem_keys_of_get? hx))).mpr ?_
    rintro d ⟨n', hx', hm⟩
    obtain rfl := Option.some.inj (hx.symm.trans hx')
    exact hd d hm
  induction hk with
  | free hx hd => exact hplaced hx (by simp [hd])
  | above hx _ _ ih => exact hplaced hx ih

/-- The order is what a sweep has placed once nothing waits. -/
theorem Consistent.order_layered {g : Graph} {E : Edges} (h : g.Consistent E) :
    ∃ s : Sweep, s.Layered g.nodes ∧ g.order = s.placed ++ s.waiting := by
  refine ⟨_, Sweep.run_layered h.mirrors g.nodes.size, ?_⟩
  rw [Sweep.run_waiting_eq_nil h.mirrors.keys_nodup, List.append_nil]
  exact h.settled.order_eq

/-- **The order goes layer by layer.** After any history of edits the nodes of the order are those
that have a depth, and they have one only; along the order depths do not fall, and the nodes without
dependencies stand in it as they came. -/
theorem built_layered (edits : List Edit) :
    let g := built edits
    ∃ depth : String → Nat,
      (∀ x k, HasDepth g.nodes x k ↔ x ∈ g.order ∧ k = depth x) ∧
      (g.order.map depth).Pairwise (· ≤ ·) ∧
      g.order.filter (depth · = 0) =
        g.nodes.keys.filter fun x => (nodeAt g.nodes x).dependencies.isEmpty := by
  have hc := built_consistent edits
  obtain ⟨s, hs, horder⟩ := hc.order_layered
  refine ⟨depthOf (built edits).nodes, ?_, ?_, ?_⟩
  · intro x k
    constructor
    · exact fun hk => ⟨hc.mem_order_of_hasDepth hk, hk.eq_depthOf⟩
    · rintro ⟨hx, rfl⟩
      exact hs.measured x (horder ▸ hx)
  · rw [horder]
    exact List.pairwise_map.mpr hs.rising
  · obtain ⟨deeper, hroots, hdeeper⟩ := hs.roots
    have hzero : ∀ x ∈ (Sweep.start (built edits).nodes).waiting,
        depthOf (built edits).nodes x = 0 := by
      intro x hx
      exact (Sweep.hasDepth_zero_of_start hc.mirrors hx).eq_depthOf.symm
    rw [horder, hroots, List.filter_append, ← Sweep.start_waiting hc.mirrors,
      List.filter_eq_self.mpr fun x hx => by simpa using hzero x hx,
      List.filter_eq_nil_iff.mpr fun x hx => by simpa using hdeeper x hx, List.append_nil]

end LiveForm.Graph
