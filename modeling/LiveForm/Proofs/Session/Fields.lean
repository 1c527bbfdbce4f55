import LiveForm.Proofs.Session.Registration

/-! # What registrations say of each id

A registration writes its own id and makes sure of the ids that it names. So registrations of
different ids commute, and after a history that registers no id twice, what the graph holds of each
id does not depend on the order of the history. -/

namespace LiveForm

/-- What a graph holds of an id, edges to it and times apart. A field that is only named holds
nothing. -/
structure Field where
  expression : Option String := none
  dependencies : List String := []
  default : Value := .null
  lastValue : Value := .null

/-- What is known of a field of which only registrations are. -/
structure Field.Fresh (f : Field) : Prop where
  unknown : f.lastValue = .null
  placeholder : f.expression = none → f.dependencies = []

def Node.field (n : Node) : Field := ⟨n.expression, n.dependencies, n.default, n.lastValue⟩

/-- The field of each id that has one. -/
abbrev Fields := String → Option Field

namespace Graph

def fields (g : Graph) : Fields := fun x => (g.nodes.get? x).map Node.field

theorem fields_eq_some {g : Graph} {x : String} {n : Node} (h : g.nodes.get? x = some n) :
    g.fields x = some n.field := by rw [fields, h, Option.map_some]

theorem field_nodeAt (g : Graph) (x : String) : (nodeAt g.nodes x).field = (g.fields x).getD {} := by
  unfold nodeAt fields
  cases g.nodes.get? x <;> rfl

theorem field_addDependent (n : Node) (id : String) : (n.addDependent id).field = n.field := by
  unfold Node.addDependent
  split <;> rfl

theorem field_registered (nodes : Nodes) (id : String) (expression : Option String)
    (dependencies : List String) (default : Value) (x : String) :
    (registered nodes id expression dependencies default x).field =
      if x = id then ⟨expression, dependencies.eraseDups, default, (nodeAt nodes x).lastValue⟩
      else (nodeAt nodes x).field := by
  have hentered : (entered nodes id expression dependencies.eraseDups default x).field =
      if x = id then ⟨expression, dependencies.eraseDups, default, (nodeAt nodes x).lastValue⟩
      else (nodeAt nodes x).field := by
    unfold entered
    split <;> split <;> rfl
  unfold registered
  split
  · rw [field_addDependent, hentered]
  · exact hentered

theorem mem_keys_iff_fields {g : Graph} {x : String} :
    x ∈ g.nodes.keys ↔ (g.fields x).isSome := by
  rw [fields, Option.isSome_map, Table.get?_isSome_iff]

/-- The edges are those of the fields. -/
theorem dependsOn_iff_fields {g : Graph} {x d : String} :
    g.DependsOn x d ↔ ∃ f, g.fields x = some f ∧ d ∈ f.dependencies := by
  constructor
  · rintro ⟨n, hn, hd⟩
    exact ⟨n.field, fields_eq_some hn, hd⟩
  · rintro ⟨f, hf, hd⟩
    obtain ⟨n, hn, rfl⟩ := Option.map_eq_some_iff.mp hf
    exact ⟨n, hn, hd⟩

theorem dependsOn_eq_of_fields_eq {g h : Graph} (hf : g.fields = h.fields) :
    g.DependsOn = h.DependsOn := by
  funext x d
  rw [eq_iff_iff, dependsOn_iff_fields, dependsOn_iff_fields, hf]

/-- Which ids are circular is a matter of the fields. -/
theorem mem_circular_iff_of_fields_eq {g h : Graph} {E E' : Edges} (hg : g.Consistent E)
    (hh : h.Consistent E') (hf : g.fields = h.fields) (x : String) :
    x ∈ g.circular ↔ x ∈ h.circular := by
  rw [hg.mem_circular_iff_reachesCycle, hh.mem_circular_iff_reachesCycle, ReachesCycle, ReachesCycle,
    dependsOn_eq_of_fields_eq hf]
  simp only [OnCycle, dependsOn_eq_of_fields_eq hf]

theorem mem_order_iff_of_fields_eq {g h : Graph} {E E' : Edges} (hg : g.Consistent E)
    (hh : h.Consistent E') (hf : g.fields = h.fields) (x : String) : x ∈ g.order ↔ x ∈ h.order := by
  have hcirc := mem_circular_iff_of_fields_eq hg hh hf x
  have hnode : E.node x ↔ E'.node x := by
    rw [← hg.mirrors.node_iff, ← hh.mirrors.node_iff, mem_keys_iff_fields, mem_keys_iff_fields, hf]
  rw [hg.mem_circular_iff, hh.mem_circular_iff, hnode] at hcirc
  constructor
  · intro ho
    by_contra hn
    exact (hcirc.mpr ⟨hnode.mp (hg.node_of_mem_order ho), hn⟩).2 ho
  · intro ho
    by_contra hn
    exact (hcirc.mp ⟨hh.node_of_mem_order ho, hn⟩).2 ho

end Graph

namespace Session

/-! ## One registration -/

/-- A registration that has been read: the ids that the expression of a field mentions are its
dependencies. -/
structure Entry where
  id : String
  expression : Option String
  dependencies : List String
  default : Value

def Operation.entry? : Operation → Option Entry
  | register id text _ default =>
    (mentionedBy (expressionOf text)).toOption.map fun ids =>
      ⟨id, expressionOf text, ids.eraseDups, default⟩
  | _ => none

/-- The field is written, its last value apart; what it depends on becomes a field. -/
def Entry.enter (F : Fields) (e : Entry) : Fields := fun x =>
  if x = e.id then
    some ⟨e.expression, e.dependencies.eraseDups, e.default, ((F x).getD {}).lastValue⟩
  else if x ∈ e.dependencies then some ((F x).getD {})
  else F x

theorem Entry.enter_comm {a b : Entry} (h : a.id ≠ b.id) (F : Fields) :
    b.enter (a.enter F) = a.enter (b.enter F) := by
  funext x
  unfold enter
  by_cases ha : x = a.id
  · have hb : x ≠ b.id := fun hb => h (ha.symm.trans hb)
    simp only [if_pos ha, if_neg hb, Option.getD_some]
    split <;> rfl
  · by_cases hb : x = b.id
    · simp only [if_neg ha, if_pos hb, Option.getD_some]
      split <;> rfl
    · simp only [if_neg ha, if_neg hb]
      split <;> split <;> rfl

section Perform

variable {s : Session} {op : Operation}

theorem fields_enter (hs : Registered s) (e : Entry) :
    (s.enter e.id none e.expression e.dependencies e.default).graph.fields =
      e.enter s.graph.fields := by
  have hgraph : (s.enter e.id none e.expression e.dependencies e.default).graph =
      s.graph.register e.id e.expression e.dependencies e.default := by
    simp only [Session.enter, edges_of_unlinked hs.unlinked]
  funext x
  rw [hgraph, Graph.fields, Graph.get?_register, Entry.enter]
  by_cases hx : x = e.id
  · rw [if_pos (.inr (.inl hx)), Option.map_some, Graph.field_registered, if_pos hx, if_pos hx,
      ← Graph.field_nodeAt]
    rfl
  · by_cases hd : x ∈ e.dependencies
    · rw [if_pos (.inr (.inr hd)), Option.map_some, Graph.field_registered, if_neg hx, if_neg hx,
        if_pos hd, Graph.field_nodeAt]
    · rw [if_neg hx, if_neg hd]
      by_cases hk : x ∈ s.graph.nodes.keys
      · obtain ⟨n, hn⟩ := Table.exists_get?_of_mem_keys hk
        rw [if_pos (.inl hk), Option.map_some, Graph.field_registered, if_neg hx, Graph.nodeAt_eq hn,
          Graph.fields_eq_some hn]
      · rw [if_neg (by simp [hk, hx, hd]), Graph.fields, Table.get?_eq_none_iff.mpr hk]

/-- A registration that aborts leaves the fields as they are. -/
theorem fields_perform (hs : Registered s) (hop : op.isSimple) :
    (op.perform s).graph.fields = (op.entry?.elim s.graph.fields fun e => e.enter s.graph.fields) := by
  cases op with
  | register id text declared default =>
    cases declared with
    | some _ => cases hop
    | none =>
      simp only [Operation.isSimple, Bool.and_eq_true, Bool.not_eq_true'] at hop
      obtain ⟨⟨hid, -⟩, hp⟩ := hop
      obtain ⟨g, hg, hr⟩ := run_register hs.faithful hid hp default
      have hlearned : Registered { s with engine := g } :=
        ⟨hg, hs.consistent, hs.unanswered, hs.unlinked, hs.named, hs.covered⟩
      rw [Operation.perform, hr, Operation.entry?]
      cases hm : mentionedBy (expressionOf text) with
      | error c => rfl
      | ok ids => exact fields_enter hlearned ⟨id, expressionOf text, ids.eraseDups, default⟩
  | _ => cases hop

theorem settings_perform (hs : Registered s) (hop : op.isSimple) :
    (op.perform s).settings = s.settings := by
  cases op with
  | register id text declared default =>
    cases declared with
    | some _ => cases hop
    | none =>
      simp only [Operation.isSimple, Bool.and_eq_true, Bool.not_eq_true'] at hop
      obtain ⟨⟨hid, -⟩, hp⟩ := hop
      obtain ⟨g, -, hr⟩ := run_register hs.faithful hid hp default
      rw [Operation.perform, hr]
      cases mentionedBy (expressionOf text) <;> rfl
  | _ => cases hop

end Perform

/-! ## Histories -/

theorem after_registered {s : Session} (hs : Registered s) {ops : List Operation}
    (h : ∀ op ∈ ops, op.isSimple) :
    (after s ops).settings = s.settings ∧
      (after s ops).graph.fields =
        (ops.filterMap Operation.entry?).foldl Entry.enter s.graph.fields := by
  induction ops generalizing s with
  | nil => exact ⟨rfl, rfl⟩
  | cons op rest ih =>
    have hop := h op List.mem_cons_self
    obtain ⟨hsettings, hfields⟩ :=
      ih (hs.perform hop) fun o ho => h o (List.mem_cons_of_mem op ho)
    rw [after, List.foldl_cons, ← after, hsettings, hfields, fields_perform hs hop]
    refine ⟨settings_perform hs hop, ?_⟩
    cases hentry : op.entry? with
    | none => rw [List.filterMap_cons_none hentry, Option.elim]
    | some e => rw [List.filterMap_cons_some hentry, Option.elim, List.foldl_cons]

theorem settings_after (settings : Settings) {ops : List Operation} (h : ∀ op ∈ ops, op.isSimple) :
    (after (create settings) ops).settings = settings :=
  (after_registered (registered_create settings) h).1

/-- The fields after registrations, from none. -/
def fieldsOf (entries : List Entry) : Fields := entries.foldl Entry.enter fun _ => none

theorem fields_after (settings : Settings) {ops : List Operation} (h : ∀ op ∈ ops, op.isSimple) :
    (after (create settings) ops).graph.fields = fieldsOf (ops.filterMap Operation.entry?) :=
  (after_registered (registered_create settings) h).2

/-- A field that is only named depends on nothing, and no value is known of any. -/
theorem fresh_enter {e : Entry} (he : e.expression = none → e.dependencies = []) {F : Fields}
    (hF : ∀ x f, F x = some f → f.Fresh) : ∀ x f, e.enter F x = some f → f.Fresh := by
  have hget : ∀ x, ((F x).getD {}).Fresh := by
    intro x
    cases hx : F x with
    | none => exact ⟨rfl, fun _ => rfl⟩
    | some f => exact hF x f hx
  intro x f hf
  unfold Entry.enter at hf
  split at hf
  · obtain rfl := Option.some.inj hf
    exact ⟨(hget x).unknown, fun hnone => by simp [he hnone]⟩
  · split at hf
    · obtain rfl := Option.some.inj hf
      exact hget x
    · exact hF x f hf

theorem dependencies_eq_nil_of_entry? {op : Operation} {e : Entry} (h : op.entry? = some e)
    (hnone : e.expression = none) : e.dependencies = [] := by
  cases op with
  | register id text declared default =>
    obtain ⟨ids, hids, rfl⟩ := Option.map_eq_some_iff.mp h
    dsimp only at hnone ⊢
    rw [hnone] at hids
    obtain rfl := Option.some.inj hids
    rfl
  | _ => cases h

theorem fresh_of_fieldsOf {entries : List Entry}
    (he : ∀ e ∈ entries, e.expression = none → e.dependencies = []) :
    ∀ x f, fieldsOf entries x = some f → f.Fresh := by
  suffices hs : ∀ F : Fields, (∀ x f, F x = some f → f.Fresh) →
      ∀ x f, entries.foldl Entry.enter F x = some f → f.Fresh from hs _ (fun _ _ h => by cases h)
  induction entries with
  | nil => exact fun F hF => hF
  | cons e rest ih =>
    intro F hF
    rw [List.foldl_cons]
    exact ih (fun k hk => he k (List.mem_cons_of_mem e hk)) _
      (fresh_enter (he e List.mem_cons_self) hF)

theorem fresh_after (settings : Settings) {ops : List Operation} (h : ∀ op ∈ ops, op.isSimple) :
    ∀ x f, (after (create settings) ops).graph.fields x = some f → f.Fresh := by
  rw [fields_after settings h]
  refine fresh_of_fieldsOf fun e he => ?_
  obtain ⟨op, -, hop⟩ := List.mem_filterMap.mp he
  exact dependencies_eq_nil_of_entry? hop

/-! ## The order of registrations -/

/-- The id that an operation registers. -/
def Operation.registers? : Operation → Option String
  | register id _ _ _ => some id
  | _ => none

theorem Operation.id_of_entry? {op : Operation} {e : Entry} (h : op.entry? = some e) :
    op.registers? = some e.id := by
  cases op with
  | register id text declared default =>
    obtain ⟨ids, -, rfl⟩ := Option.map_eq_some_iff.mp h
    rfl
  | _ => cases h

theorem nodup_ids_of_registers {ops : List Operation}
    (h : (ops.filterMap Operation.registers?).Nodup) :
    ((ops.filterMap Operation.entry?).map Entry.id).Nodup := by
  refine h.sublist ?_
  induction ops with
  | nil => exact .slnil
  | cons op rest ih =>
    cases hentry : op.entry? with
    | none =>
      rw [List.filterMap_cons_none hentry]
      refine (ih ?_).trans ((List.sublist_cons_self op rest).filterMap _)
      exact h.sublist ((List.sublist_cons_self op rest).filterMap _)
    | some e =>
      have hid := Operation.id_of_entry? hentry
      rw [List.filterMap_cons_some hentry, List.filterMap_cons_some hid, List.map_cons]
      rw [List.filterMap_cons_some hid] at h
      exact (ih h.of_cons).cons_cons e.id

/-- Registrations of different ids may be made in any order. -/
theorem fieldsOf_perm {entries entries' : List Entry} (hp : entries.Perm entries')
    (hn : (entries.map Entry.id).Nodup) : fieldsOf entries = fieldsOf entries' := by
  refine hp.foldl_eq' (fun a ha b hb F => ?_) _
  by_cases hid : a.id = b.id
  · rw [List.inj_on_of_nodup_map hn ha hb hid]
  · exact Entry.enter_comm hid F

end Session

end LiveForm
