import LiveForm.Proofs.Graph.Schedule
import Mathlib.Data.Fintype.Card
import Mathlib.Data.Fintype.EquivFin
import Mathlib.Logic.Relation

/-! # Circular ids are those from which a cycle can be reached

The order is closed under dependencies and puts them first, so nothing in it reaches a cycle. In the
other direction the nodes are finitely many: if no cycle can be reached from a node, its dependencies
descend to nodes without any, and every one of them is placed on the way back. -/

namespace LiveForm.Graph

open Relation

/-- A node that depends on itself, directly or through others. -/
def OnCycle (g : Graph) (c : String) : Prop := TransGen g.DependsOn c c

/-- A node from which dependencies lead to a cycle, in any number of steps. -/
def ReachesCycle (g : Graph) (x : String) : Prop := ∃ c, ReflTransGen g.DependsOn x c ∧ g.OnCycle c

/-- Both ids have a place in the order, the first one earlier. -/
def Precedes (g : Graph) (d x : String) : Prop :=
  d ∈ g.order ∧ x ∈ g.order ∧ g.order.idxOf d < g.order.idxOf x

instance (g : Graph) (d x : String) : Decidable (g.Precedes d x) :=
  inferInstanceAs (Decidable (_ ∧ _ ∧ _))

/-- A graph whose edges mirror a relation and whose order is up to date. -/
structure Consistent (g : Graph) (E : Edges) : Prop where
  mirrors : Mirrors g.nodes E
  settled : g.Settled

theorem built_consistent (edits : List Edit) : (built edits).Consistent (Edges.built edits) :=
  ⟨built_mirrors edits, built_settled edits⟩

namespace Consistent

variable {g : Graph} {E : Edges} {x d : String}

theorem node_of_dependsOn (h : g.Consistent E) (he : g.DependsOn x d) : E.node x ∧ E.node d :=
  h.mirrors.closed x d ((h.mirrors.dependsOn_iff x d).mp he)

theorem mem_order_iff (h : g.Consistent E) (hx : E.node x) :
    x ∈ g.order ↔ ∀ d, g.DependsOn x d → d ∈ g.order := by
  rw [h.settled.order_eq, mem_schedule_iff h.mirrors hx]
  exact forall_congr' fun d => by rw [h.mirrors.dependsOn_iff]

theorem node_of_mem_order (h : g.Consistent E) (hx : x ∈ g.order) : E.node x := by
  rw [h.settled.order_eq] at hx
  exact (h.mirrors.node_iff x).mp (schedule_subset h.mirrors.keys_nodup hx)

theorem before (h : g.Consistent E) (hx : x ∈ g.order) (he : g.DependsOn x d) :
    d ∈ g.order ∧ g.order.idxOf d < g.order.idxOf x := by
  refine ⟨(h.mem_order_iff (h.node_of_mem_order hx)).mp hx d he, ?_⟩
  rw [h.settled.order_eq] at hx ⊢
  exact idxOf_schedule_lt h.mirrors hx ((h.mirrors.dependsOn_iff x d).mp he)

/-- When the order has been gone through up to an id, the dependencies of what is done and of the id
itself are done. -/
theorem mem_of_dependsOn (h : g.Consistent E) {done rest : List String} {id : String}
    (ho : g.order = done ++ id :: rest) (hx : x ∈ done ++ [id]) (he : g.DependsOn x d) : d ∈ done := by
  have hsplit : g.order = (done ++ [id]) ++ rest := by rw [ho, List.append_assoc]; rfl
  obtain ⟨-, hlt⟩ := h.before (by rw [hsplit]; exact List.mem_append_left rest hx) he
  have hxle : g.order.idxOf x < done.length + 1 := by
    rw [hsplit, List.idxOf_append_of_mem hx]
    simpa using List.idxOf_lt_length_of_mem hx
  by_contra hd
  rw [ho, List.idxOf_append_of_notMem hd, ← ho] at hlt
  omega

theorem mem_circular_iff (h : g.Consistent E) : x ∈ g.circular ↔ E.node x ∧ x ∉ g.order := by
  rw [h.settled.circular_eq, h.settled.order_eq, List.mem_filter, h.mirrors.node_iff]
  simp

/-- The order lists the nodes that are not circular. -/
theorem mem_order_iff_not_circular (h : g.Consistent E) :
    x ∈ g.order ↔ x ∈ g.nodes.keys ∧ x ∉ g.circular := by
  rw [h.mem_circular_iff, h.mirrors.node_iff]
  constructor
  · exact fun ho => ⟨h.node_of_mem_order ho, fun hc => hc.2 ho⟩
  · rintro ⟨hx, hc⟩
    by_contra ho
    exact hc ⟨hx, ho⟩

theorem next_not_done (h : g.Consistent E) {done rest : List String} {id : String}
    (ho : g.order = done ++ id :: rest) : id ∉ done := by
  have hnodup : (done ++ id :: rest).Nodup := by
    rw [← ho, h.settled.order_eq]
    exact schedule_nodup h.mirrors.keys_nodup
  exact fun hid => List.disjoint_of_nodup_append hnodup hid List.mem_cons_self

theorem next_mem_keys (h : g.Consistent E) {done rest : List String} {id : String}
    (ho : g.order = done ++ id :: rest) : id ∈ g.nodes.keys :=
  (h.mirrors.node_iff id).mpr (h.node_of_mem_order (by rw [ho]; simp))

/-- A field that is not circular comes after what it depends on. -/
theorem precedes (h : g.Consistent E) (hx : x ∉ g.circular) (he : g.DependsOn x d) :
    g.Precedes d x := by
  have hmem : x ∈ g.order := by
    by_contra ho
    exact hx (h.mem_circular_iff.mpr ⟨(h.node_of_dependsOn he).1, ho⟩)
  exact ⟨(h.before hmem he).1, hmem, (h.before hmem he).2⟩

/-! ## Placed nodes reach no cycle -/

theorem mem_order_of_reaches (h : g.Consistent E) (hx : x ∈ g.order)
    (hr : ReflTransGen g.DependsOn x d) : d ∈ g.order := by
  induction hr with
  | refl => exact hx
  | tail _ he ih => exact (h.before ih he).1

theorem idxOf_lt_of_reaches (h : g.Consistent E) (hx : x ∈ g.order)
    (hr : TransGen g.DependsOn x d) : g.order.idxOf d < g.order.idxOf x := by
  induction hr with
  | single he => exact (h.before hx he).2
  | tail hr he ih => exact (h.before (h.mem_order_of_reaches hx hr.to_reflTransGen) he).2.trans ih

theorem not_reachesCycle (h : g.Consistent E) (hx : x ∈ g.order) : ¬g.ReachesCycle x := by
  rintro ⟨c, hr, hc⟩
  exact lt_irrefl _ (h.idxOf_lt_of_reaches (h.mem_order_of_reaches hx hr) hc)

/-! ## Nodes that reach no cycle are placed -/

theorem mem_order_of_not_reachesCycle (h : g.Consistent E) (hx : E.node x)
    (hc : ¬g.ReachesCycle x) : x ∈ g.order := by
  -- what can be reached from `x`, the nearer above the farther, is well-founded: it is finite and
  -- has no cycle
  let Reached := { y : String // y ∈ g.nodes.keys ∧ ReflTransGen g.DependsOn x y }
  have hfin : Finite Reached :=
    Finite.of_injective (fun y : Reached => (⟨y.1, y.2.1⟩ : { y // y ∈ g.nodes.keys }))
      fun a b hab => Subtype.ext (congrArg (fun y => y.1) hab)
  let below : Reached → Reached → Prop := fun a b => TransGen g.DependsOn b.1 a.1
  have htrans : IsTrans Reached below := ⟨fun _ _ _ hab hbc => hbc.trans hab⟩
  have hirrefl : Std.Irrefl below := ⟨fun a ha => hc ⟨a.1, a.2.2, ha⟩⟩
  have hplaced : ∀ y : Reached, y.1 ∈ g.order := by
    intro y
    induction y using (Finite.wellFounded_of_trans_of_irrefl below).induction with
    | h y ih =>
      refine (h.mem_order_iff ((h.mirrors.node_iff _).mp y.2.1)).mpr fun d he => ?_
      have hd := (h.mirrors.node_iff d).mpr (h.node_of_dependsOn he).2
      exact ih ⟨d, hd, y.2.2.tail he⟩ (.single he)
  exact hplaced ⟨x, (h.mirrors.node_iff x).mpr hx, .refl⟩

theorem mem_circular_iff_reachesCycle (h : g.Consistent E) :
    x ∈ g.circular ↔ g.ReachesCycle x := by
  rw [h.mem_circular_iff]
  constructor
  · rintro ⟨hx, ho⟩
    by_contra hc
    exact ho (h.mem_order_of_not_reachesCycle hx hc)
  · intro hc
    refine ⟨?_, fun ho => h.not_reachesCycle ho hc⟩
    obtain ⟨c, hr, hcc⟩ := hc
    have hstep : ∃ d, g.DependsOn x d := by
      rcases hr.cases_head with rfl | ⟨d, he, -⟩
      · obtain ⟨d, he, -⟩ := TransGen.head'_iff.mp hcc
        exact ⟨d, he⟩
      · exact ⟨d, he⟩
    obtain ⟨d, he⟩ := hstep
    exact (h.node_of_dependsOn he).1

theorem circular_ne_nil_iff (h : g.Consistent E) : g.circular ≠ [] ↔ ∃ c, g.OnCycle c := by
  constructor
  · intro hne
    obtain ⟨x, hx⟩ := List.exists_mem_of_ne_nil _ hne
    obtain ⟨c, -, hc⟩ := h.mem_circular_iff_reachesCycle.mp hx
    exact ⟨c, hc⟩
  · rintro ⟨c, hc⟩
    exact List.ne_nil_of_mem (h.mem_circular_iff_reachesCycle.mpr ⟨c, .refl, hc⟩)

end Consistent

theorem cycle?_isSome_iff (g : Graph) : g.cycle?.isSome ↔ g.circular ≠ [] := by
  unfold cycle?
  cases g.circular <;> simp

theorem Settled.settle_eq {g : Graph} (h : g.Settled) : g.settle = g :=
  if_neg (by rw [h.isDirty_eq_false]; decide)

/-- What the order and the circular ids of a graph say about its edges. -/
structure Scheduled (g : Graph) : Prop where
  order_nodup : g.order.Nodup
  keys_nodup : g.nodes.keys.Nodup
  perm : (g.order ++ g.circular).Perm g.nodes.keys
  dependency_before : ∀ x d, x ∈ g.order → g.DependsOn x d →
    d ∈ g.order ∧ g.order.idxOf d < g.order.idxOf x
  mem_circular_iff : ∀ x, x ∈ g.circular ↔ g.ReachesCycle x
  circular_sublist : g.circular.Sublist g.nodes.keys
  reported_iff : g.settle.cycle?.isSome ↔ ∃ c, g.OnCycle c

/-- **The order puts dependencies first and leaves out exactly what cannot be ordered.** After any
history of edits, every node is once in the order or among the circular ids; the latter are the
nodes on or behind a cycle, and a cycle is reported when there is one. -/
theorem built_scheduled (edits : List Edit) : (built edits).Scheduled := by
  have h := built_consistent edits
  have hn := h.mirrors.keys_nodup
  refine ⟨?_, hn, ?_, fun x d hx he => h.before hx he, fun x => h.mem_circular_iff_reachesCycle,
    ?_, ?_⟩
  · rw [h.settled.order_eq]
    exact schedule_nodup hn
  · rw [h.settled.order_eq, h.settled.circular_eq]
    exact schedule_perm hn
  · rw [h.settled.circular_eq]
    exact List.filter_sublist
  · rw [h.settled.settle_eq, cycle?_isSome_iff]
    exact h.circular_ne_nil_iff

end LiveForm.Graph
