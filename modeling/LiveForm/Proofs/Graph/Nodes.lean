import LiveForm.Graph
import LiveForm.Proofs.Table

/-! What each operation on a graph does to one node. Registration, a new edge and removal are folds
over edge lists; here each is one equation for the lookup of an arbitrary id, in terms of the node
that was there before or of the placeholder that the id would get. Nothing is assumed of the graph,
except that an edge which is already there leads to a node. -/

namespace LiveForm

namespace Node

variable {n : Node} {id f d : String}

@[simp] theorem addDependent_id : (n.addDependent id).id = n.id := by
  unfold addDependent; split <;> rfl

@[simp] theorem addDependent_dependencies :
    (n.addDependent id).dependencies = n.dependencies := by unfold addDependent; split <;> rfl

@[simp] theorem addDependent_expression : (n.addDependent id).expression = n.expression := by
  unfold addDependent; split <;> rfl

@[simp] theorem mem_addDependent :
    f ∈ (n.addDependent id).dependents ↔ f ∈ n.dependents ∨ f = id := by
  unfold addDependent
  split
  · rename_i h
    have hm : id ∈ n.dependents := by simpa using h
    exact ⟨.inl, fun h => h.elim (fun h => h) (fun h => h ▸ hm)⟩
  · simp

theorem nodup_addDependent (h : n.dependents.Nodup) : (n.addDependent id).dependents.Nodup := by
  unfold addDependent
  split
  · exact h
  · rename_i hn
    have hm : id ∉ n.dependents := by simpa using hn
    exact List.Nodup.append h (by simp) (by simpa using hm)

theorem addDependent_of_mem (h : id ∈ n.dependents) : n.addDependent id = n :=
  if_pos (by simpa using h)

theorem addDependent_twice : (n.addDependent id).addDependent id = n.addDependent id :=
  addDependent_of_mem (mem_addDependent.mpr (.inr rfl))

theorem mem_dropDependent : f ∈ (n.dropDependent id).dependents ↔ f ∈ n.dependents ∧ f ≠ id := by
  simp [dropDependent]

theorem mem_dropDependency :
    d ∈ (n.dropDependency id).dependencies ↔ d ∈ n.dependencies ∧ d ≠ id := by
  simp [dropDependency]

theorem nodup_dropDependent (h : n.dependents.Nodup) : (n.dropDependent id).dependents.Nodup :=
  h.filter _

theorem nodup_dropDependency (h : n.dependencies.Nodup) : (n.dropDependency id).dependencies.Nodup :=
  h.filter _

/-- What a registration writes into a node. -/
def enter (n : Node) (expression : Option String) (dependencies : List String) (default : Value) :
    Node :=
  { n with
    expression := expression
    dependencies := dependencies
    default := default
    isComputed := false }

end Node

namespace Graph

/-! ## What each operation does to one node -/

/-- The node of an id, or the placeholder that it would get. -/
def nodeAt (nodes : Nodes) (x : String) : Node := (nodes.get? x).getD { id := x }

theorem nodeAt_eq {nodes : Nodes} {x : String} {n : Node} (h : nodes.get? x = some n) :
    nodeAt nodes x = n := by simp [nodeAt, h]

theorem nodeAt_of_not_mem {nodes : Nodes} {x : String} (h : x ∉ nodes.keys) :
    nodeAt nodes x = { id := x } := by simp [nodeAt, Table.get?_eq_none_iff.mpr h]

theorem nodeAt_of_ite {nodes : Nodes} {x : String} {n : Node} {p : Prop} [Decidable p]
    (h : nodes.get? x = if p then some n else none) (hn : ¬p → n = { id := x }) :
    nodeAt nodes x = n := by
  by_cases hp : p
  · exact nodeAt_eq (by rw [h, if_pos hp])
  · rw [nodeAt, h, if_neg hp, hn hp, Option.getD_none]

theorem get?_eq_nodeAt (nodes : Nodes) (x : String) :
    nodes.get? x = if x ∈ nodes.keys then some (nodeAt nodes x) else none := by
  cases h : nodes.get? x with
  | none => simp [Table.get?_eq_none_iff.mp h]
  | some n => simp [Table.mem_keys_of_get? h, nodeAt_eq h]

theorem get?_linkDependent (id : String) (nodes : Nodes) (d x : String) :
    (linkDependent id nodes d).get? x =
      if x = d then some ((nodeAt nodes x).addDependent id) else nodes.get? x := by
  unfold linkDependent ensure nodeAt
  rw [Table.get?_modify, Table.get?_insertNew]
  by_cases h : x = d
  · subst h; simp
  · simp [h]

theorem get?_foldl_linkDependent (id : String) (deps : List String) (nodes : Nodes) (x : String) :
    (deps.foldl (linkDependent id) nodes).get? x =
      if x ∈ deps then some ((nodeAt nodes x).addDependent id) else nodes.get? x := by
  induction deps generalizing nodes with
  | nil => simp
  | cons d rest ih =>
    rw [List.foldl_cons, ih, nodeAt, get?_linkDependent]
    by_cases hd : x = d
    · subst hd
      simp [Node.addDependent_twice]
    · simp [hd, nodeAt]

theorem get?_foldl_modify {f : Node → Node} (hf : ∀ n, f (f n) = f n) (ids : List String)
    (nodes : Nodes) (x : String) :
    (ids.foldl (fun ns d => ns.modify d f) nodes).get? x =
      if x ∈ ids then (nodes.get? x).map f else nodes.get? x := by
  induction ids generalizing nodes with
  | nil => simp
  | cons d rest ih =>
    rw [List.foldl_cons, ih, Table.get?_modify]
    by_cases hd : x = d
    · subst hd
      simp [Function.comp_def, hf]
    · simp [hd]

theorem dropDependent_twice (n : Node) (id : String) :
    (n.dropDependent id).dropDependent id = n.dropDependent id := by
  simp [Node.dropDependent]

theorem dropDependency_twice (n : Node) (id : String) :
    (n.dropDependency id).dropDependency id = n.dropDependency id := by
  simp [Node.dropDependency]

/-- A node of `enter`: without the reverse end of an edge that is dropped, and written anew when it
is the field's own. -/
def entered (nodes : Nodes) (id : String) (expression : Option String) (deps : List String)
    (default : Value) (x : String) : Node :=
  let n := nodeAt nodes x
  let n := if x ∈ (nodeAt nodes id).dependencies ∧ x ∉ deps then n.dropDependent id else n
  if x = id then n.enter expression deps default else n

theorem get?_enter (nodes : Nodes) (id : String) (expression : Option String) (deps : List String)
    (default : Value) (x : String) :
    (enter nodes id expression deps default).get? x =
      if x ∈ nodes.keys ∨ x = id then some (entered nodes id expression deps default x)
      else none := by
  unfold enter entered
  cases hid : nodes.get? id with
  | none =>
    have hk : id ∉ nodes.keys := Table.get?_eq_none_iff.mp hid
    rw [Table.get?_insert, get?_eq_nodeAt]
    by_cases hx : x = id
    · subst hx; simp [nodeAt_of_not_mem hk, Node.enter]
    · simp [hx, nodeAt_of_not_mem hk]
  | some old =>
    have hu : unlinkDependent id = fun ns d => ns.modify d (·.dropDependent id) := rfl
    rw [nodeAt_eq hid, Table.get?_modify, hu,
      get?_foldl_modify fun n => dropDependent_twice n id, get?_eq_nodeAt]
    by_cases hs : x ∈ old.dependencies ∧ x ∉ deps
    · by_cases hx : x = id
      · subst hx; simp [hs, Table.mem_keys_of_get? hid, Node.enter]
      · simp [hs, hx, apply_ite]
    · by_cases hx : x = id
      · subst hx; simp [hs, Table.mem_keys_of_get? hid, Node.enter]
      · simp [hs, hx]

theorem nodeAt_enter (nodes : Nodes) (id : String) (expression : Option String)
    (deps : List String) (default : Value) (x : String) :
    nodeAt (enter nodes id expression deps default) x =
      entered nodes id expression deps default x := by
  refine nodeAt_of_ite (get?_enter nodes id expression deps default x) fun hx => ?_
  rw [not_or] at hx
  simp [entered, nodeAt_of_not_mem hx.1, Node.dropDependent, hx.2]

section Entered

variable {nodes : Nodes} {id x f : String} {expression : Option String} {deps : List String}
  {default : Value}

theorem entered_id : (entered nodes id expression deps default x).id = (nodeAt nodes x).id := by
  unfold entered
  split <;> split <;> rfl

theorem entered_dependencies :
    (entered nodes id expression deps default x).dependencies =
      if x = id then deps else (nodeAt nodes x).dependencies := by
  unfold entered
  split <;> split <;> rfl

theorem entered_expression :
    (entered nodes id expression deps default x).expression =
      if x = id then expression else (nodeAt nodes x).expression := by
  unfold entered
  split <;> split <;> rfl

theorem mem_entered_dependents :
    f ∈ (entered nodes id expression deps default x).dependents ↔
      f ∈ (nodeAt nodes x).dependents ∧
        ((x ∈ (nodeAt nodes id).dependencies ∧ x ∉ deps) → f ≠ id) := by
  have h : (entered nodes id expression deps default x).dependents =
      (if x ∈ (nodeAt nodes id).dependencies ∧ x ∉ deps then (nodeAt nodes x).dropDependent id
        else nodeAt nodes x).dependents := by
    unfold entered
    split <;> split <;> rfl
  rw [h]
  split
  · rename_i hs
    rw [Node.mem_dropDependent]
    exact and_congr_right fun _ => ⟨fun hf _ => hf, fun hf => hf hs⟩
  · rename_i hs
    exact ⟨fun hf => ⟨hf, fun h => absurd h hs⟩, And.left⟩

theorem nodup_entered_dependents (h : (nodeAt nodes x).dependents.Nodup) :
    (entered nodes id expression deps default x).dependents.Nodup := by
  have hd : ((nodeAt nodes x).dropDependent id).dependents.Nodup := Node.nodup_dropDependent h
  unfold entered
  split <;> split <;> assumption

end Entered

/-- A node after the registration of `id`. -/
def registered (nodes : Nodes) (id : String) (expression : Option String)
    (dependencies : List String) (default : Value) (x : String) : Node :=
  let n := entered nodes id expression dependencies.eraseDups default x
  if x ∈ dependencies then n.addDependent id else n

theorem registered_dependencies {nodes : Nodes} {id x : String} {expression : Option String}
    {dependencies : List String} {default : Value} :
    (registered nodes id expression dependencies default x).dependencies =
      if x = id then dependencies.eraseDups else (nodeAt nodes x).dependencies := by
  unfold registered
  split <;> simp [entered_dependencies]

theorem registered_expression {nodes : Nodes} {id x : String} {expression : Option String}
    {dependencies : List String} {default : Value} :
    (registered nodes id expression dependencies default x).expression =
      if x = id then expression else (nodeAt nodes x).expression := by
  unfold registered
  split <;> simp [entered_expression]

theorem get?_register (g : Graph) (id : String) (expression : Option String)
    (dependencies : List String) (default : Value) (x : String) :
    (g.register id expression dependencies default).nodes.get? x =
      if x ∈ g.nodes.keys ∨ x = id ∨ x ∈ dependencies then
        some (registered g.nodes id expression dependencies default x)
      else none := by
  have h : (g.register id expression dependencies default).nodes =
      dependencies.eraseDups.foldl (linkDependent id)
        (enter g.nodes id expression dependencies.eraseDups default) := rfl
  rw [h, get?_foldl_linkDependent, registered, nodeAt_enter, get?_enter]
  simp only [List.mem_eraseDups]
  by_cases hd : x ∈ dependencies
  · simp [hd]
  · simp [hd]

/-- A node after the edge from `id` to `d` has been added. -/
def linked (nodes : Nodes) (id d x : String) : Node :=
  let n := nodeAt nodes x
  if d ∈ (nodeAt nodes id).dependencies then n
  else
    let n := if x = id then { n with dependencies := n.dependencies ++ [d] } else n
    if x = d then n.addDependent id else n

section Linked

variable {nodes : Nodes} {id d x f : String}

theorem linked_of_mem (h : d ∈ (nodeAt nodes id).dependencies) :
    linked nodes id d x = nodeAt nodes x := if_pos h

theorem linked_id : (linked nodes id d x).id = (nodeAt nodes x).id := by
  unfold linked
  dsimp only
  split
  · rfl
  · split <;> split <;> simp

theorem linked_dependencies (h : d ∉ (nodeAt nodes id).dependencies) :
    (linked nodes id d x).dependencies =
      (nodeAt nodes x).dependencies ++ if x = id then [d] else [] := by
  rw [linked, if_neg h]
  by_cases hi : x = id
  · simp only [if_pos hi]
    split <;> simp
  · simp only [if_neg hi]
    split <;> simp

theorem mem_linked_dependents (h : d ∉ (nodeAt nodes id).dependencies) :
    f ∈ (linked nodes id d x).dependents ↔
      f ∈ (nodeAt nodes x).dependents ∨ (x = d ∧ f = id) := by
  rw [linked, if_neg h]
  dsimp only
  by_cases hd : x = d
  · rw [if_pos hd, Node.mem_addDependent, and_iff_right hd]
    split <;> rfl
  · rw [if_neg hd, or_iff_left fun h => hd h.1]
    split <;> rfl

theorem nodup_linked_dependents (hn : (nodeAt nodes x).dependents.Nodup) :
    (linked nodes id d x).dependents.Nodup := by
  have hi : (if x = id then { nodeAt nodes x with
      dependencies := (nodeAt nodes x).dependencies ++ [d] } else nodeAt nodes x).dependents.Nodup := by
    split <;> exact hn
  unfold linked
  dsimp only
  split
  · exact hn
  · split
    · exact Node.nodup_addDependent hi
    · exact hi

end Linked

theorem get?_ensure (nodes : Nodes) (id x : String) :
    (ensure nodes id).get? x =
      if x ∈ nodes.keys ∨ x = id then some (nodeAt nodes x) else none := by
  unfold ensure
  rw [Table.get?_insertNew, get?_eq_nodeAt nodes x]
  by_cases hx : x = id
  · subst hx; simp [nodeAt]
  · simp [hx]

theorem get?_addDependency (g : Graph) (id d x : String)
    (hk : d ∈ (nodeAt g.nodes id).dependencies → d ∈ g.nodes.keys) :
    (g.addDependency id d).nodes.get? x =
      if x ∈ g.nodes.keys ∨ x = id ∨ x = d then some (linked g.nodes id d x) else none := by
  have hc : (((ensure g.nodes id).get? id).map (·.dependencies.contains d)).getD false =
      decide (d ∈ (nodeAt g.nodes id).dependencies) := by simp [get?_ensure]
  have hr : ∀ nodes : Nodes, (rebuild { g with nodes }).nodes = nodes := fun _ => rfl
  unfold addDependency linked
  simp only [hc, decide_eq_true_eq]
  by_cases hd : d ∈ (nodeAt g.nodes id).dependencies
  · rw [if_pos hd]
    simp only [get?_ensure, hd, if_true]
    by_cases hx : x = d
    · simp [hx, hk hd]
    · simp [hx]
  · have he : ∀ f : Node → Node, ((ensure g.nodes id).modify id f).get? x =
        if x ∈ g.nodes.keys ∨ x = id then
          some (if x = id then f (nodeAt g.nodes x) else nodeAt g.nodes x)
        else none := by
      intro f
      rw [Table.get?_modify, get?_ensure]
      by_cases hx : x = id <;> simp [hx]
    rw [if_neg hd, hr, get?_linkDependent, nodeAt_of_ite (he _) fun hx => ?_, he]
    · by_cases hx : x = d <;> simp [hx, hd]
    · rw [not_or] at hx
      rw [if_neg hx.2, nodeAt_of_not_mem hx.1]

/-- A node after the removal of `id`. -/
def scrubbed (nodes : Nodes) (id x : String) : Node :=
  let n := nodeAt nodes x
  let n := if x ∈ (nodeAt nodes id).dependencies then n.dropDependent id else n
  if x ∈ (nodeAt nodes id).dependents then n.dropDependency id else n

section Scrubbed

variable {nodes : Nodes} {id x f d : String}

theorem scrubbed_id : (scrubbed nodes id x).id = (nodeAt nodes x).id := by
  unfold scrubbed
  split <;> split <;> rfl

theorem mem_scrubbed_dependents :
    f ∈ (scrubbed nodes id x).dependents ↔
      f ∈ (nodeAt nodes x).dependents ∧ (x ∈ (nodeAt nodes id).dependencies → f ≠ id) := by
  have h : (scrubbed nodes id x).dependents =
      (if x ∈ (nodeAt nodes id).dependencies then (nodeAt nodes x).dropDependent id
        else nodeAt nodes x).dependents := by
    unfold scrubbed
    split <;> split <;> rfl
  rw [h]
  split
  · rename_i hx
    rw [Node.mem_dropDependent]
    exact and_congr_right fun _ => ⟨fun hf _ => hf, fun hf => hf hx⟩
  · rename_i hx
    exact ⟨fun hf => ⟨hf, fun h => absurd h hx⟩, And.left⟩

theorem mem_scrubbed_dependencies :
    d ∈ (scrubbed nodes id x).dependencies ↔
      d ∈ (nodeAt nodes x).dependencies ∧ (x ∈ (nodeAt nodes id).dependents → d ≠ id) := by
  have h : (scrubbed nodes id x).dependencies =
      (if x ∈ (nodeAt nodes id).dependents then (nodeAt nodes x).dropDependency id
        else nodeAt nodes x).dependencies := by
    unfold scrubbed
    split <;> split <;> rfl
  rw [h]
  split
  · rename_i hx
    rw [Node.mem_dropDependency]
    exact and_congr_right fun _ => ⟨fun hf _ => hf, fun hf => hf hx⟩
  · rename_i hx
    exact ⟨fun hf => ⟨hf, fun h => absurd h hx⟩, And.left⟩

theorem nodup_scrubbed_dependencies (h : (nodeAt nodes x).dependencies.Nodup) :
    (scrubbed nodes id x).dependencies.Nodup := by
  have hd : ((nodeAt nodes x).dropDependency id).dependencies.Nodup := Node.nodup_dropDependency h
  unfold scrubbed
  split <;> split <;> assumption

theorem nodup_scrubbed_dependents (h : (nodeAt nodes x).dependents.Nodup) :
    (scrubbed nodes id x).dependents.Nodup := by
  have hd : ((nodeAt nodes x).dropDependent id).dependents.Nodup := Node.nodup_dropDependent h
  unfold scrubbed
  split <;> split <;> assumption

end Scrubbed

theorem get?_unregister (g : Graph) (id x : String) :
    ((g.unregister id).2).nodes.get? x =
      if x ∈ g.nodes.keys ∧ x ≠ id then some (scrubbed g.nodes id x) else none := by
  unfold unregister scrubbed
  cases hid : g.nodes.get? id with
  | none =>
    have hk : id ∉ g.nodes.keys := Table.get?_eq_none_iff.mp hid
    rw [nodeAt_of_not_mem hk, get?_eq_nodeAt]
    by_cases hx : x = id
    · subst hx; simp [hk]
    · simp [hx]
  | some node =>
    have hu : unlinkDependent id = fun ns d => ns.modify d (·.dropDependent id) := rfl
    have hr : ∀ nodes : Nodes, (rebuild { g with nodes }).nodes = nodes := fun _ => rfl
    simp only [hr, hu, nodeAt_eq hid]
    rw [get?_foldl_modify fun n => dropDependency_twice n id,
      get?_foldl_modify fun n => dropDependent_twice n id, Table.get?_erase, get?_eq_nodeAt]
    by_cases hx : x = id
    · simp [hx]
    · by_cases h₁ : x ∈ node.dependents <;> by_cases h₂ : x ∈ node.dependencies <;>
        by_cases hk : x ∈ g.nodes.keys <;> simp [hx, h₁, h₂, hk]

/-! ## Distinct keys -/

theorem nodup_keys_foldl {α : Type} {f : Nodes → α → Nodes}
    (hf : ∀ nodes a, nodes.keys.Nodup → (f nodes a).keys.Nodup) (as : List α) {nodes : Nodes}
    (h : nodes.keys.Nodup) : (as.foldl f nodes).keys.Nodup := by
  induction as generalizing nodes with
  | nil => exact h
  | cons a rest ih => exact ih (hf nodes a h)

theorem nodup_keys_modify {nodes : Nodes} (h : nodes.keys.Nodup) (id : String) (f : Node → Node) :
    (nodes.modify id f).keys.Nodup := by rwa [Table.keys_modify]

theorem nodup_keys_linkDependent {nodes : Nodes} (h : nodes.keys.Nodup) (id d : String) :
    (linkDependent id nodes d).keys.Nodup :=
  nodup_keys_modify (Table.nodup_keys_insertNew h d _) d _

theorem nodup_keys_enter {nodes : Nodes} (h : nodes.keys.Nodup) (id : String)
    (expression : Option String) (deps : List String) (default : Value) :
    (enter nodes id expression deps default).keys.Nodup := by
  unfold enter
  split
  · exact nodup_keys_modify (nodup_keys_foldl (fun _ d hn => nodup_keys_modify hn d _) _ h) id _
  · exact Table.nodup_keys_insert h id _

theorem nodup_keys_register {g : Graph} (h : g.nodes.keys.Nodup) (id : String)
    (expression : Option String) (dependencies : List String) (default : Value) :
    (g.register id expression dependencies default).nodes.keys.Nodup :=
  nodup_keys_foldl (fun _ d hn => nodup_keys_linkDependent hn id d) _
    (nodup_keys_enter h id expression dependencies.eraseDups default)

theorem nodup_keys_addDependency {g : Graph} (h : g.nodes.keys.Nodup) (id d : String) :
    (g.addDependency id d).nodes.keys.Nodup := by
  have he := Table.nodup_keys_insertNew h id { id := id }
  unfold addDependency
  dsimp only
  split
  · exact he
  · exact nodup_keys_linkDependent (nodup_keys_modify he id _) id d

theorem nodup_keys_unregister {g : Graph} (h : g.nodes.keys.Nodup) (id : String) :
    (g.unregister id).2.nodes.keys.Nodup := by
  unfold unregister
  split
  · exact h
  · exact nodup_keys_foldl (fun _ d hn => nodup_keys_modify hn d _) _
      (nodup_keys_foldl (fun _ d hn => nodup_keys_modify hn d _) _ (Table.nodup_keys_erase h id))

end Graph

end LiveForm
