import LiveForm.Proofs.Session.Entering
import LiveForm.Proofs.Session.Upkeep

/-! # What operations do to the fields of a session

Any operation enters one field, removes one id, forgets everything, or leaves the fields as they are.
What is known of the fields after a history follows from these four cases: above all, that a computed
field keeps a dependency for as long as it is not registered anew and the dependency is not removed.
-/

namespace LiveForm.Session

open LiveForm.Action

/-! ## Any operation -/

/-- What an operation does to the fields of a session. -/
inductive Does (s : Session) : Session → Operation → Prop
  | enters {id : String} {text : Option String} {declared : Option (List String)} {default : Value}
      {row : Option RowRef} {ids : List String} (g : Engine) (hg : g.Faithful)
      (hr : reading s.graph.nodes.keys id text declared = .ok (row, ids)) :
      Does s (({ s with engine := g } : Session).enter id row (expressionOf text) ids default)
        (.register id text declared default)
  | removes (id : String) : Does s (s.without id) (.unregister id)
  | closes : Does s s.close .close
  | keeps {t : Session} {op : Operation} (hop : op.entered? = none)
      (hne : ∀ id, op ≠ .unregister id) (hk : Kept s t) : Does s t op

/-- Whether an operation registers a field or declares the children of an array. -/
def Operation.isRegistration : Operation → Bool
  | register .. => true
  | registerArray .. => true
  | _ => false

/-- A session whose engine remembers nothing false and whose graph is in order. -/
structure Wired (s : Session) : Prop where
  faithful : s.engine.Faithful
  consistent : ∃ E, s.graph.Consistent E

section Perform

variable {s t : Session} {op : Operation} {x d array : String}

theorem Wired.does (h : Wired s) (op : Operation) : Does s (op.perform s) op := by
  obtain ⟨E, hE⟩ := h.consistent
  cases op with
  | register id text declared default =>
    obtain ⟨g, hg, hr⟩ := run_register_eq h.faithful id text declared default
    rw [Operation.perform, hr]
    cases hread : reading s.graph.nodes.keys id text declared with
    | ok r => exact .enters g hg hread
    | error c =>
      refine .keeps (if_neg fun hok => ?_) (fun _ hop => by cases hop) ⟨fun _ => hg, rfl, rfl⟩
      have hread' := reading_isOk s.graph.nodes.keys hok
      rw [hread] at hread'
      cases hread'
  | registerArray array children => exact .keeps rfl (fun _ hop => by cases hop) ⟨id, rfl, rfl⟩
  | unregister id =>
    rw [run_unregister]
    exact .removes id
  | evaluateAll now offer =>
    exact .keeps rfl (fun _ hop => by cases hop) (keeps_evaluateAll hE.settled now offer)
  | evaluateOnce text scope =>
    exact .keeps rfl (fun _ hop => by cases hop) (touches_evaluateOnce text scope s).kept
  | clearCache =>
    refine .keeps rfl (fun _ hop => by cases hop) ⟨id, ?_, rfl⟩
    simp only [Operation.perform, clearCache, Graph.stable, Table.mapValues, List.map_map]
    rfl
  | close => exact .closes

end Perform

/-! ## What is known after any operation -/

section Does

variable {s t : Session} {op : Operation} {x d : String}

theorem Does.wired (h : Wired s) (hdo : Does s t op) : Wired t := by
  obtain ⟨E, hE⟩ := h.consistent
  cases hdo with
  | enters g hg hr =>
    have hE' : ({ s with engine := g } : Session).graph.Consistent E := hE
    refine ⟨?_, _, consistent_enter hE' _ _ _ _ _⟩
    rw [engine_enter]
    exact hg
  | removes id =>
    refine ⟨?_, E.unregister id, ?_⟩
    · rw [engine_without]
      exact h.faithful
    · rw [graph_without]
      exact ⟨hE.mirrors.unregister id, hE.settled.apply (.unregister id)⟩
  | closes => exact ⟨Engine.faithful_new, .empty, Graph.built_consistent []⟩
  | keeps hop hne hk => exact ⟨hk.faithful h.faithful, E, hE.of_stable_eq hk.stable⟩

theorem Wired.perform (h : Wired s) (op : Operation) : Wired (op.perform s) := (h.does op).wired h

/-- Only a registration of its own gives a field another expression. -/
theorem Does.expressionAt_eq (h : Wired s) (hdo : Does s t op) (hop : op.entered? ≠ some x)
    (hx : (t.graph.expressionAt x).isSome) :
    t.graph.expressionAt x = s.graph.expressionAt x := by
  obtain ⟨E, hE⟩ := h.consistent
  cases hdo with
  | enters g hg hr =>
    have hE' : ({ s with engine := g } : Session).graph.Consistent E := hE
    rw [entered?_eq_some hr] at hop
    rw [expressionAt_enter hE', if_neg fun hid => hop (congrArg some hid.symm)]
  | removes id =>
    rw [graph_without, Graph.expressionAt_unregister] at hx ⊢
    split at hx
    · cases hx
    · rename_i hid
      rw [if_neg hid]
  | closes => cases hx
  | keeps _ hne hk => exact Graph.expressionAt_of_stable_eq hk.stable x

/-- A field with an expression keeps a dependency that is not removed, until it is registered anew. -/
theorem Does.dependsOn (h : Wired s) (hdo : Does s t op) (hop : op.entered? ≠ some x)
    (hx : (t.graph.expressionAt x).isSome) (hne : op ≠ .unregister d)
    (hd : s.graph.DependsOn x d) : t.graph.DependsOn x d := by
  obtain ⟨E, hE⟩ := h.consistent
  cases hdo with
  | enters g hg hr =>
    have hE' : ({ s with engine := g } : Session).graph.Consistent E := hE
    rw [entered?_eq_some hr] at hop
    exact (dependsOn_enter hE').mpr (.inr (.inl ⟨fun hid => hop (congrArg some hid.symm), hd⟩))
  | removes id =>
    have hxid : x ≠ id := by
      rintro rfl
      rw [graph_without, Graph.expressionAt_unregister, if_pos rfl] at hx
      cases hx
    rw [graph_without, (hE.mirrors.unregister id).dependsOn_iff]
    exact ⟨(hE.mirrors.dependsOn_iff x d).mp hd, hxid, fun hid => hne (congrArg _ hid.symm)⟩
  | closes => cases hx
  | keeps _ _ hk => exact (Graph.dependsOn_iff_of_stable_eq hk.stable x d).mpr hd

end Does

/-! ## Histories -/

theorem wired_create (settings : Settings) : Wired (create settings) :=
  ⟨Engine.faithful_new, .empty, Graph.built_consistent []⟩

theorem after_concat (s : Session) (ops : List Operation) (op : Operation) :
    after s (ops ++ [op]) = op.perform (after s ops) := by
  simp [after, List.foldl_append]

theorem wired_after {s : Session} (h : Wired s) (ops : List Operation) : Wired (after s ops) := by
  induction ops generalizing s with
  | nil => exact h
  | cons op rest ih => exact ih (h.perform op)

/-- An id has been unregistered since a field was last registered. -/
def RemovedSince (ops : List Operation) (field id : String) : Prop :=
  ∃ before later, ops = before ++ .unregister id :: later ∧ ∀ op ∈ later, op.entered? ≠ some field

theorem removedSince_concat {ops : List Operation} {op : Operation} {field id : String} :
    RemovedSince (ops ++ [op]) field id ↔
      op = .unregister id ∨ (op.entered? ≠ some field ∧ RemovedSince ops field id) := by
  constructor
  · rintro ⟨before, later, heq, hlater⟩
    induction later using List.reverseRecOn with
    | nil =>
      obtain ⟨-, hop⟩ := List.append_inj' heq rfl
      exact .inl (List.singleton_inj.mp hop)
    | append_singleton later last _ =>
      rw [← List.cons_append, ← List.append_assoc] at heq
      obtain ⟨rfl, hop⟩ := List.append_inj' heq rfl
      obtain rfl := List.singleton_inj.mp hop
      exact .inr ⟨hlater op (by simp), before, later, rfl,
        fun o ho => hlater o (List.mem_append_left _ ho)⟩
  · rintro (rfl | ⟨hop, before, later, rfl, hlater⟩)
    · exact ⟨ops, [], rfl, by simp⟩
    · refine ⟨before, later ++ [op], by simp, fun o ho => ?_⟩
      rcases List.mem_append.mp ho with ho | ho
      · exact hlater o ho
      · rwa [List.mem_singleton.mp ho]

/-- What holds of a computed field once it is registered, and as long as it is not registered anew and
an id is not removed, holds after every history in which the id has not been removed since. -/
theorem holds_unless_removed {P : Session → Prop} {field id : String} (settings : Settings)
    (ops : List Operation)
    (henter : ∀ s t op, op ∈ ops → Wired s → Does s t op → op.entered? = some field →
      (t.graph.expressionAt field).isSome → P t)
    (hkeep : ∀ s t op, Wired s → Does s t op → op.entered? ≠ some field → op ≠ .unregister id →
      (t.graph.expressionAt field).isSome → P s → P t)
    (hx : ((after (create settings) ops).graph.expressionAt field).isSome)
    (hr : ¬RemovedSince ops field id) : P (after (create settings) ops) := by
  induction ops using List.reverseRecOn with
  | nil => cases hx
  | append_singleton ops op ih =>
    have hs := wired_after (wired_create settings) ops
    have hdo := hs.does op
    rw [after_concat] at hx ⊢
    by_cases hop : op.entered? = some field
    · exact henter _ _ op (by simp) hs hdo hop hx
    · rw [removedSince_concat, not_or] at hr
      have hbefore := hdo.expressionAt_eq hs hop hx
      refine hkeep _ _ op hs hdo hop hr.1 hx (ih ?_ (hbefore ▸ hx) fun hrem => hr.2 ⟨hop, hrem⟩)
      exact fun s t o ho => henter s t o (List.mem_append_left _ ho)

/-- Conversely, an id has not been removed since if something holds that only a registration of the
field can bring about and that the removal of the id undoes. -/
theorem not_removedSince {P : Session → Prop} {field id : String} {settings : Settings}
    {ops : List Operation} (hcreate : ¬P (create settings))
    (hback : ∀ s t op, Wired s → Does s t op → op.entered? ≠ some field → P t →
      P s ∧ op ≠ .unregister id)
    (h : P (after (create settings) ops)) : ¬RemovedSince ops field id := by
  induction ops using List.reverseRecOn with
  | nil => exact absurd h hcreate
  | append_singleton ops op ih =>
    have hs := wired_after (wired_create settings) ops
    have hdo := hs.does op
    rw [after_concat] at h
    rw [removedSince_concat]
    rintro (rfl | ⟨hop, hremoved⟩)
    · have hnone : Operation.entered? (.unregister id) ≠ some field := by simp [Operation.entered?]
      exact (hback _ _ _ hs hdo hnone h).2 rfl
    · exact ih (hback _ _ op hs hdo hop h).1 hremoved

end LiveForm.Session
