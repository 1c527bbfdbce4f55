import LiveForm.Proofs.Graph.Nodes

/-! # The edges of a graph as one relation

A graph holds every edge at both its ends, and several operations edit the two ends apart. Here the
edges are one relation on ids, on which each operation has one plain effect. After any history of
edits both ends of the graph say what the relation says, no list holds an id twice or an id that is
no node, and the check for loose edges finds none. -/

namespace LiveForm

/-- Which ids are nodes, and which node has an edge to which. -/
structure Edges where
  node : String → Prop
  edge : String → String → Prop

namespace Edges

def empty : Edges := ⟨fun _ => False, fun _ _ => False⟩

/-- The edges out of a node are replaced; what is missing becomes a node. -/
def register (E : Edges) (id : String) (dependencies : List String) : Edges where
  node x := E.node x ∨ x = id ∨ x ∈ dependencies
  edge x d := (x = id ∧ d ∈ dependencies) ∨ (x ≠ id ∧ E.edge x d)

def add (E : Edges) (id dependency : String) : Edges where
  node x := E.node x ∨ x = id ∨ x = dependency
  edge x d := E.edge x d ∨ (x = id ∧ d = dependency)

/-- A node goes with every edge that touches it. -/
def unregister (E : Edges) (id : String) : Edges where
  node x := E.node x ∧ x ≠ id
  edge x d := E.edge x d ∧ x ≠ id ∧ d ≠ id

end Edges

/-- What can be done to the fields of a graph. -/
inductive Edit where
  | register (id : String) (expression : Option String) (dependencies : List String)
      (default : Value)
  | add (id dependency : String)
  | unregister (id : String)

namespace Edit

def apply (g : Graph) : Edit → Graph
  | register id expression dependencies default => g.register id expression dependencies default
  | add id dependency => g.addDependency id dependency
  | unregister id => (g.unregister id).2

def onEdges (E : Edges) : Edit → Edges
  | register id _ dependencies _ => E.register id dependencies
  | add id dependency => E.add id dependency
  | unregister id => E.unregister id

end Edit

/-- The graph after a history of edits. -/
def Graph.built (edits : List Edit) : Graph := edits.foldl Edit.apply {}

/-- The relation after a history of edits. -/
def Edges.built (edits : List Edit) : Edges := edits.foldl Edit.onEdges .empty

/-- At both its ends a node of the id `x` holds the edges of the relation. -/
structure Node.Shows (n : Node) (x : String) (E : Edges) : Prop where
  id_eq : n.id = x
  dependencies : ∀ d, d ∈ n.dependencies ↔ E.edge x d
  dependents : ∀ f, f ∈ n.dependents ↔ E.edge f x
  dependencies_nodup : n.dependencies.Nodup
  dependents_nodup : n.dependents.Nodup

namespace Graph

/-- The nodes are those of the relation, and each of them shows its edges. -/
structure Mirrors (nodes : Nodes) (E : Edges) : Prop where
  keys_nodup : nodes.keys.Nodup
  node_iff : ∀ x, x ∈ nodes.keys ↔ E.node x
  shows : ∀ x n, nodes.get? x = some n → n.Shows x E
  closed : ∀ x d, E.edge x d → E.node x ∧ E.node d

namespace Mirrors

variable {nodes : Nodes} {E : Edges}

theorem empty : Mirrors .empty .empty where
  keys_nodup := List.nodup_nil
  node_iff _ := by simp [Table.empty, Table.keys, Edges.empty]
  shows _ _ h := by simp at h
  closed _ _ h := h.elim

/-- A placeholder shows no edge, and an id that is no node has none. -/
theorem nodeAt_shows (m : Mirrors nodes E) (x : String) : (nodeAt nodes x).Shows x E := by
  cases h : nodes.get? x with
  | some n =>
    rw [nodeAt_eq h]
    exact m.shows x n h
  | none =>
    have hx : ¬E.node x := fun he => Table.get?_eq_none_iff.mp h ((m.node_iff x).mpr he)
    rw [nodeAt_of_not_mem (Table.get?_eq_none_iff.mp h)]
    exact ⟨rfl, fun d => by simpa using fun he => hx (m.closed x d he).1,
      fun f => by simpa using fun he => hx (m.closed f x he).2, List.nodup_nil, List.nodup_nil⟩

theorem registered_shows (m : Mirrors nodes E) (id : String) (expression : Option String)
    (dependencies : List String) (default : Value) (x : String) :
    (registered nodes id expression dependencies default x).Shows x (E.register id dependencies) := by
  have hx := m.nodeAt_shows x
  have hid := m.nodeAt_shows id
  have hn : (entered nodes id expression dependencies.eraseDups default x).dependents.Nodup :=
    nodup_entered_dependents hx.dependents_nodup
  have hf : ∀ f, f ∈ (registered nodes id expression dependencies default x).dependents ↔
      (x ∈ dependencies ∧ f = id) ∨
        (E.edge f x ∧ ((E.edge id x ∧ x ∉ dependencies) → f ≠ id)) := by
    intro f
    unfold registered
    by_cases hd : x ∈ dependencies
    · simp [hd, mem_entered_dependents, hx.dependents, List.mem_eraseDups, or_comm]
    · simp [hd, mem_entered_dependents, hx.dependents, hid.dependencies, List.mem_eraseDups]
  refine ⟨?_, ?_, ?_, ?_, ?_⟩
  · unfold registered
    split <;> simp [entered_id, hx.id_eq]
  · intro d
    rw [registered_dependencies]
    by_cases hi : x = id
    · simp [hi, Edges.register, List.mem_eraseDups]
    · simp [hi, Edges.register, hx.dependencies]
  · intro f
    rw [hf]
    by_cases hi : f = id
    · subst hi
      by_cases hd : x ∈ dependencies <;> simp [hd, Edges.register]
    · simp [hi, Edges.register]
  · rw [registered_dependencies]
    split
    · exact nodup_eraseDups dependencies
    · exact hx.dependencies_nodup
  · unfold registered
    split
    · exact Node.nodup_addDependent hn
    · exact hn

/-- An edge that is there already changes neither the nodes nor the relation. -/
theorem linked_shows_of_mem (m : Mirrors nodes E) {id d : String}
    (he : d ∈ (nodeAt nodes id).dependencies) (x : String) :
    (linked nodes id d x).Shows x (E.add id d) := by
  have hx := m.nodeAt_shows x
  have hed : ∀ y c, E.edge y c ↔ (E.add id d).edge y c := by
    refine fun y c => ⟨.inl, ?_⟩
    rintro (h | ⟨rfl, rfl⟩)
    · exact h
    · exact ((m.nodeAt_shows y).dependencies c).mp he
  rw [linked_of_mem he]
  exact ⟨hx.id_eq, fun c => (hx.dependencies c).trans (hed x c),
    fun f => (hx.dependents f).trans (hed f x), hx.dependencies_nodup, hx.dependents_nodup⟩

theorem linked_shows (m : Mirrors nodes E) (id d x : String) :
    (linked nodes id d x).Shows x (E.add id d) := by
  have hx := m.nodeAt_shows x
  by_cases he : d ∈ (nodeAt nodes id).dependencies
  · exact m.linked_shows_of_mem he x
  · refine ⟨linked_id.trans hx.id_eq, fun c => ?_, fun f => ?_, ?_,
      nodup_linked_dependents hx.dependents_nodup⟩
    · rw [linked_dependencies he, List.mem_append, hx.dependencies]
      by_cases hi : x = id <;> simp [hi, Edges.add]
    · rw [mem_linked_dependents he, hx.dependents, and_comm]
      rfl
    · rw [linked_dependencies he]
      split
      · rename_i hi
        subst hi
        exact List.Nodup.append hx.dependencies_nodup (by simp) (by simpa using he)
      · simpa using hx.dependencies_nodup

theorem scrubbed_shows (m : Mirrors nodes E) {id x : String} (hne : x ≠ id) :
    (scrubbed nodes id x).Shows x (E.unregister id) := by
  have hx := m.nodeAt_shows x
  have hid := m.nodeAt_shows id
  refine ⟨scrubbed_id.trans hx.id_eq, fun d => ?_, fun f => ?_,
    nodup_scrubbed_dependencies hx.dependencies_nodup, nodup_scrubbed_dependents hx.dependents_nodup⟩
  · rw [mem_scrubbed_dependencies, hx.dependencies, hid.dependents]
    constructor
    · rintro ⟨he, hd⟩
      exact ⟨he, hne, fun h => hd (h ▸ he) h⟩
    · rintro ⟨he, -, hd⟩
      exact ⟨he, fun _ => hd⟩
  · rw [mem_scrubbed_dependents, hx.dependents, hid.dependencies]
    constructor
    · rintro ⟨he, hf⟩
      exact ⟨he, fun h => hf (h ▸ he) h, hne⟩
    · rintro ⟨he, hf, -⟩
      exact ⟨he, fun _ => hf⟩

/-- Nodes found by a closed form of the lookup mirror a relation when each of them shows it. -/
theorem of_get? {ids : String → Prop} [DecidablePred ids] {node : String → Node}
    (hk : nodes.keys.Nodup) (hg : ∀ x, nodes.get? x = if ids x then some (node x) else none)
    (hi : ∀ x, ids x ↔ E.node x) (hs : ∀ x, ids x → (node x).Shows x E)
    (hc : ∀ x d, E.edge x d → E.node x ∧ E.node d) : Mirrors nodes E where
  keys_nodup := hk
  node_iff x := by
    rw [← Table.get?_isSome_iff, hg, ← hi]
    by_cases hx : ids x <;> simp [hx]
  shows x n h := by
    rw [hg] at h
    split at h
    · rename_i hx
      cases h
      exact hs x hx
    · cases h
  closed := hc

theorem register {g : Graph} (m : Mirrors g.nodes E) (id : String) (expression : Option String)
    (dependencies : List String) (default : Value) :
    Mirrors (g.register id expression dependencies default).nodes (E.register id dependencies) := by
  refine of_get? (nodup_keys_register m.keys_nodup id expression dependencies default)
    (get?_register g id expression dependencies default) (fun x => ?_)
    (fun x _ => m.registered_shows id expression dependencies default x) ?_
  · rw [m.node_iff]
    rfl
  · rintro x d (⟨rfl, hd⟩ | ⟨-, he⟩)
    · exact ⟨.inr (.inl rfl), .inr (.inr hd)⟩
    · exact ⟨.inl (m.closed x d he).1, .inl (m.closed x d he).2⟩

theorem addDependency {g : Graph} (m : Mirrors g.nodes E) (id d : String) :
    Mirrors (g.addDependency id d).nodes (E.add id d) := by
  have hk : d ∈ (nodeAt g.nodes id).dependencies → d ∈ g.nodes.keys := fun hd =>
    (m.node_iff d).mpr (m.closed id d (((m.nodeAt_shows id).dependencies d).mp hd)).2
  refine of_get? (nodup_keys_addDependency m.keys_nodup id d)
    (fun x => get?_addDependency g id d x hk) (fun x => ?_) (fun x _ => m.linked_shows id d x) ?_
  · rw [m.node_iff]
    rfl
  · rintro x c (he | ⟨rfl, rfl⟩)
    · exact ⟨.inl (m.closed x c he).1, .inl (m.closed x c he).2⟩
    · exact ⟨.inr (.inl rfl), .inr (.inr rfl)⟩

theorem unregister {g : Graph} (m : Mirrors g.nodes E) (id : String) :
    Mirrors (g.unregister id).2.nodes (E.unregister id) := by
  refine of_get? (nodup_keys_unregister m.keys_nodup id) (get?_unregister g id) (fun x => ?_)
    (fun x hx => m.scrubbed_shows hx.2) ?_
  · rw [m.node_iff]
    rfl
  · rintro x d ⟨he, hx, hd⟩
    exact ⟨⟨(m.closed x d he).1, hx⟩, (m.closed x d he).2, hd⟩

end Mirrors

/-- An edge as its source holds it. -/
def DependsOn (g : Graph) (f d : String) : Prop := ∃ n, g.nodes.get? f = some n ∧ d ∈ n.dependencies

theorem dependsOn_iff_any {g : Graph} {f d : String} :
    g.DependsOn f d ↔ (g.nodes.get? f).any fun n => n.dependencies.contains d := by
  rw [DependsOn, Option.any_eq_true]
  simp only [List.contains_iff_mem]

instance (g : Graph) (f d : String) : Decidable (g.DependsOn f d) :=
  decidable_of_iff _ dependsOn_iff_any.symm

/-- An edge as its target holds it. -/
def HasDependent (g : Graph) (d f : String) : Prop := ∃ n, g.nodes.get? d = some n ∧ f ∈ n.dependents

theorem Mirrors.dependsOn_iff {g : Graph} {E : Edges} (m : Mirrors g.nodes E) (f d : String) :
    g.DependsOn f d ↔ E.edge f d := by
  constructor
  · rintro ⟨n, hn, hd⟩
    exact ((m.shows f n hn).dependencies d).mp hd
  · intro he
    obtain ⟨n, hn⟩ := Table.exists_get?_of_mem_keys ((m.node_iff f).mpr (m.closed f d he).1)
    exact ⟨n, hn, ((m.shows f n hn).dependencies d).mpr he⟩

theorem Mirrors.hasDependent_iff {g : Graph} {E : Edges} (m : Mirrors g.nodes E) (f d : String) :
    g.HasDependent d f ↔ E.edge f d := by
  constructor
  · rintro ⟨n, hn, hf⟩
    exact ((m.shows d n hn).dependents f).mp hf
  · intro he
    obtain ⟨n, hn⟩ := Table.exists_get?_of_mem_keys ((m.node_iff d).mpr (m.closed f d he).2)
    exact ⟨n, hn, ((m.shows d n hn).dependents f).mpr he⟩

/-- No edge of a graph that mirrors a relation is held at one end only. -/
theorem Mirrors.looseEdges_eq_nil {g : Graph} {E : Edges} (m : Mirrors g.nodes E) :
    g.looseEdges = [] := by
  refine List.flatMap_eq_nil_iff.mpr fun (id, n) he => ?_
  have hn := m.shows id n (Table.get?_of_mem m.keys_nodup he)
  have hd : ∀ d ∈ n.dependencies, (g.nodes.get? d).any (·.dependents.contains id) := by
    intro d hd
    obtain ⟨k, hk, hf⟩ := (m.hasDependent_iff id d).mpr ((hn.dependencies d).mp hd)
    simpa [hk] using hf
  have hf : ∀ f ∈ n.dependents, (g.nodes.get? f).any (·.dependencies.contains id) := by
    intro f hf
    obtain ⟨k, hk, hd⟩ := (m.dependsOn_iff f id).mpr ((hn.dependents f).mp hf)
    simpa [hk] using hd
  simp only [List.append_eq_nil_iff, List.map_eq_nil_iff, List.filter_eq_nil_iff]
  exact ⟨fun d h => by rw [hd d h]; decide, fun f h => by rw [hf f h]; decide⟩

theorem Mirrors.apply {g : Graph} {E : Edges} (m : Mirrors g.nodes E) (e : Edit) :
    Mirrors (e.apply g).nodes (e.onEdges E) := by
  cases e with
  | register id expression dependencies default =>
    exact m.register id expression dependencies default
  | add id dependency => exact m.addDependency id dependency
  | unregister id => exact m.unregister id

theorem foldl_mirrors {g : Graph} {E : Edges} (m : Mirrors g.nodes E) (edits : List Edit) :
    Mirrors (edits.foldl Edit.apply g).nodes (edits.foldl Edit.onEdges E) := by
  induction edits generalizing g E with
  | nil => exact m
  | cons e rest ih => exact ih (m.apply e)

theorem built_mirrors (edits : List Edit) : Mirrors (built edits).nodes (Edges.built edits) :=
  foldl_mirrors .empty edits

/-! ## Settled graphs -/

/-- The order and the circular ids are those of the nodes as they are now. -/
def Settled (g : Graph) : Prop := g.rebuild = g

theorem settled_rebuild (g : Graph) : g.rebuild.Settled := rfl

theorem ensure_of_mem {nodes : Nodes} {id : String} (h : id ∈ nodes.keys) :
    ensure nodes id = nodes := if_pos ((Table.contains_iff_mem_keys nodes id).mpr h)

theorem Settled.apply {g : Graph} (h : g.Settled) (e : Edit) : (e.apply g).Settled := by
  cases e with
  | register id expression dependencies default => exact settled_rebuild _
  | add id d =>
    simp only [Edit.apply, addDependency]
    split
    · rename_i hc
      -- the edge is there already, so its source is no placeholder
      have hk : id ∈ g.nodes.keys := by
        by_contra hk
        simp [get?_ensure, nodeAt_of_not_mem hk] at hc
      rw [ensure_of_mem hk]
      exact h
    · exact settled_rebuild _
  | unregister id =>
    simp only [Edit.apply, Graph.unregister]
    split
    · exact h
    · exact settled_rebuild _

theorem foldl_settled {g : Graph} (h : g.Settled) (edits : List Edit) :
    (edits.foldl Edit.apply g).Settled := by
  induction edits generalizing g with
  | nil => exact h
  | cons e rest ih => exact ih (h.apply e)

theorem built_settled (edits : List Edit) : (built edits).Settled :=
  foldl_settled (g := {}) rfl edits

theorem Settled.isDirty_eq_false {g : Graph} (h : g.Settled) : g.isDirty = false :=
  congrArg isDirty h.symm

theorem Settled.order_eq {g : Graph} (h : g.Settled) : g.order = schedule g.nodes :=
  congrArg order h.symm

theorem Settled.circular_eq {g : Graph} (h : g.Settled) :
    g.circular = g.nodes.keys.filter fun id => !(schedule g.nodes).contains id :=
  congrArg circular h.symm

/-- What the two ends of the edges of a graph say, against the relation they stand for. -/
structure Refines (g : Graph) (E : Edges) : Prop where
  keys_nodup : g.nodes.keys.Nodup
  node_iff : ∀ x, x ∈ g.nodes.keys ↔ E.node x
  named : ∀ x n, g.nodes.get? x = some n → n.id = x
  dependsOn_iff : ∀ f d, g.DependsOn f d ↔ E.edge f d
  hasDependent_iff : ∀ f d, g.HasDependent d f ↔ E.edge f d
  nodup : ∀ x n, g.nodes.get? x = some n → n.dependencies.Nodup ∧ n.dependents.Nodup
  known : ∀ x n, g.nodes.get? x = some n →
    n.dependencies ⊆ g.nodes.keys ∧ n.dependents ⊆ g.nodes.keys
  clean : g.isDirty = false
  consistent : g.looseEdges = []

/-- **Both ends of every edge say what the relation says.** After any history of registrations,
single edges and removals the graph refines the relation that the same history makes. -/
theorem built_refines (edits : List Edit) : (built edits).Refines (Edges.built edits) := by
  have m := built_mirrors edits
  refine ⟨m.keys_nodup, m.node_iff, fun x n h => (m.shows x n h).id_eq, m.dependsOn_iff,
    m.hasDependent_iff, fun x n h => ?_, fun x n h => ?_, (built_settled edits).isDirty_eq_false,
    m.looseEdges_eq_nil⟩
  · exact ⟨(m.shows x n h).dependencies_nodup, (m.shows x n h).dependents_nodup⟩
  · constructor
    · intro d hd
      exact (m.node_iff d).mpr (m.closed x d (((m.shows x n h).dependencies d).mp hd)).2
    · intro f hf
      exact (m.node_iff f).mpr (m.closed f x (((m.shows x n h).dependents f).mp hf)).1

end Graph

end LiveForm
