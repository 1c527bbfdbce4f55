import LiveForm.Proofs.Session.Registration
import LiveForm.Proofs.Graph.Expressions

/-! # Entering a field and removing an id

Whether a registration aborts has nothing to do with the fields that are there already. When it enters
a field, the dependencies and the links of the id become its edges, and a computed field of a row is
linked to its array. Removing an id takes out the node, its edges and its links. -/

namespace LiveForm

theorem withHeads_isOk {ids : List String} (registered registered' : List String)
    (h : (withHeads ids registered).isOk) : (withHeads ids registered').isOk := by
  cases hw' : withHeads ids registered' with
  | ok covered => rfl
  | error c =>
    exfalso
    cases hw : withHeads ids registered with
    | error c' =>
      rw [hw] at h
      cases h
    | ok covered =>
      obtain ⟨expanded, he, -⟩ := bind_eq_ok hw
      rcases bind_eq_error hw' with hw' | ⟨expanded', -, hw'⟩
      · obtain ⟨x, hx, hf⟩ := exists_of_mapM_eq_error hw'
        obtain ⟨xs, -, hxs⟩ := mem_mapM_of_mem he hx
        obtain ⟨head?, hhead, -⟩ := bind_eq_ok hxs
        rw [hhead] at hf
        cases head? with
        | none => cases hf
        | some head => split at hf <;> cases hf
      · cases hw'

namespace Session

open LiveForm.Action

/-! ## Registration -/

/-- The id that an operation registers, unless it aborts. -/
def Operation.entered? : Operation → Option String
  | register id text declared _ => if (reading [] id text declared).isOk then some id else none
  | _ => none

/-- Which fields are there already has no part in whether a registration aborts. -/
theorem reading_isOk {registered : List String} (registered' : List String) {id : String}
    {text : Option String} {declared : Option (List String)}
    (h : (reading registered id text declared).isOk) :
    (reading registered' id text declared).isOk := by
  cases hr : reading registered id text declared with
  | error c =>
    rw [hr] at h
    cases h
  | ok r =>
    obtain ⟨row, ids⟩ := r
    obtain ⟨references, extracted, href, hext, hrow, -⟩ := reading_eq_ok hr
    have hw : (withHeads references registered').isOk :=
      withHeads_isOk registered registered' (by rw [hext]; rfl)
    cases hext' : withHeads references registered' with
    | error c =>
      rw [hext'] at hw
      cases hw
    | ok extracted' =>
      have hok : reading registered' id text declared = .ok (row, declared.getD extracted') := by
        simp only [reading, href, hext', hrow, bind, Except.bind]
        rfl
      rw [hok]
      rfl

theorem entered?_eq_some {registered : List String} {id : String} {text : Option String}
    {declared : Option (List String)} {r : Option RowRef × List String}
    (h : reading registered id text declared = .ok r) (default : Value) :
    (Operation.register id text declared default).entered? = some id :=
  if_pos (reading_isOk [] (by rw [h]; rfl))

/-! ## Entering a field -/

/-- The computed rows that are linked to an array. -/
def linksOf (s : Session) (array : String) : List String := (s.rowLinks.get? array).getD []

section Enter

variable {s : Session} {E : Edges} {id x d array : String} {row : Option RowRef}
  {expression : Option String} {ids : List String} {default : Value}

theorem graph_enter : (s.enter id row expression ids default).graph =
    match row, expression with
    | some r, some _ =>
      (s.graph.register id expression (s.edges id row ids) default).addDependency r.array id
    | _, _ => s.graph.register id expression (s.edges id row ids) default := by
  cases row <;> cases expression <;> rfl

theorem engine_enter : (s.enter id row expression ids default).engine = s.engine := by
  cases row <;> cases expression <;> rfl

theorem cache_enter : (s.enter id row expression ids default).cache = (s.cache.discard id).2 := by
  cases row <;> cases expression <;> rfl

/-- The edges after a field has been entered. -/
def entering (E : Edges) (id : String) (row : Option RowRef) (expression : Option String)
    (dependencies : List String) : Edges :=
  match row, expression with
  | some r, some _ => (E.register id dependencies).add r.array id
  | _, _ => E.register id dependencies

theorem consistent_enter (h : s.graph.Consistent E) (id : String) (row : Option RowRef)
    (expression : Option String) (ids : List String) (default : Value) :
    (s.enter id row expression ids default).graph.Consistent
      (entering E id row expression (s.edges id row ids)) := by
  have hregister := h.mirrors.register id expression (s.edges id row ids) default
  have hsettled := h.settled.apply (.register id expression (s.edges id row ids) default)
  rw [graph_enter]
  unfold entering
  cases row with
  | none => exact ⟨hregister, hsettled⟩
  | some r =>
    cases expression with
    | none => exact ⟨hregister, hsettled⟩
    | some e => exact ⟨hregister.addDependency r.array id, hsettled.apply (.add r.array id)⟩

theorem expressionAt_enter (h : s.graph.Consistent E) :
    (s.enter id row expression ids default).graph.expressionAt x =
      if x = id then expression else s.graph.expressionAt x := by
  rw [graph_enter]
  cases row with
  | none => exact Graph.expressionAt_register ..
  | some r =>
    cases expression with
    | none => exact Graph.expressionAt_register ..
    | some e =>
      rw [Graph.expressionAt_addDependency (h.mirrors.register id (some e) _ default)]
      exact Graph.expressionAt_register ..

/-- Entering a field replaces its dependencies, and links a computed row to its array. -/
theorem dependsOn_enter (h : s.graph.Consistent E) :
    (s.enter id row expression ids default).graph.DependsOn x d ↔
      (x = id ∧ d ∈ s.edges id row ids) ∨ (x ≠ id ∧ s.graph.DependsOn x d) ∨
        (expression.isSome ∧ d = id ∧ ∃ r, row = some r ∧ x = r.array) := by
  rw [(consistent_enter h id row expression ids default).mirrors.dependsOn_iff,
    h.mirrors.dependsOn_iff]
  unfold entering
  cases row with
  | none => simp [Edges.register]
  | some r =>
    cases expression with
    | none => simp [Edges.register]
    | some e => simp [Edges.register, Edges.add, or_assoc, and_comm]

theorem linksOf_enter : linksOf (s.enter id row expression ids default) array =
    match row, expression with
    | some r, some _ =>
      if array = r.array then
        if (linksOf s array).contains id then linksOf s array else linksOf s array ++ [id]
      else linksOf s array
    | _, _ => linksOf s array := by
  cases row with
  | none => rfl
  | some r =>
    cases expression with
    | none => rfl
    | some e =>
      simp only [linksOf, Session.enter, linkRow, Table.get?_insert, beq_iff_eq]
      split
      · rename_i ha
        rw [ha]
        rfl
      · rfl

theorem linksOf_subset_enter :
    linksOf s array ⊆ linksOf (s.enter id row expression ids default) array := by
  rw [linksOf_enter]
  split
  · split
    · split
      · exact fun _ h => h
      · exact List.subset_append_left _ _
    · exact fun _ h => h
  · exact fun _ h => h

theorem mem_linksOf_enter {r : RowRef} {e : String} :
    id ∈ linksOf (s.enter id (some r) (some e) ids default) r.array := by
  rw [linksOf_enter]
  dsimp only
  rw [if_pos rfl]
  split
  · rename_i h
    simpa using h
  · simp

/-- The edges of a field hold its links. -/
theorem linksOf_subset_edges (id : String) (row : Option RowRef) (ids : List String) :
    linksOf s id ⊆ s.edges id row ids := by
  intro x hx
  by_cases ho : x ∈ s.qualified row ids
  · exact List.mem_append_left _ ho
  · exact List.mem_append_right _ (List.mem_filter.mpr ⟨hx, by simpa using ho⟩)

end Enter

/-! ## Removing an id -/

/-- A session without a field and without what is known of it. -/
def without (s : Session) (id : String) : Session :=
  match RowRef.parse? id with
  | .ok (some row) => unlinkRow row id (drop id s)
  | _ => drop id s

theorem run_unregister (id : String) (s : Session) :
    (Operation.unregister id).perform s = s.without id := by
  show ((unregister id).run s).2 = s.without id
  unfold unregister without
  rw [run_bind_ok (run_get s), run_bind_ok (run_modify (drop id) s), run_bind, run_orAbort]
  cases RowRef.parse? id with
  | error c => rfl
  | ok row => cases row <;> rfl

section Remove

variable {s : Session} {id x array : String}

theorem graph_without : (s.without id).graph = (s.graph.unregister id).2 := by
  unfold without
  split <;> rfl

theorem engine_without : (s.without id).engine = s.engine := by
  unfold without
  split <;> rfl

theorem cache_without : (s.without id).cache = (s.cache.discard id).2 := by
  unfold without
  split <;> rfl

/-- Removing an id forgets the links to it and those from it. -/
theorem mem_linksOf_without (ha : array ≠ id) (hx : x ≠ id) (h : x ∈ linksOf s array) :
    x ∈ linksOf (s.without id) array := by
  have hdrop : linksOf (drop id s) array = linksOf s array := by
    simp [linksOf, drop, Table.get?_erase, ha]
  unfold without
  split
  · rename_i row _
    have hunlink : linksOf (unlinkRow row id (drop id s)) array =
        if array = row.array then (linksOf (drop id s) array).erase id
        else linksOf (drop id s) array := by
      simp only [linksOf, unlinkRow, Table.get?_modify, beq_iff_eq]
      split
      · cases (drop id s).rowLinks.get? array <;> rfl
      · rfl
    rw [hunlink, hdrop]
    split
    · exact (List.mem_erase_of_ne hx).mpr h
    · exact h
  · rwa [hdrop]

end Remove

end Session

end LiveForm
