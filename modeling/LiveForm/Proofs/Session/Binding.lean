import LiveForm.Proofs.Session.Upkeep

/-! # What a step binds

A step enters the value of its field under the id of the field. It may also bind the last part of the
id, but never over what is reported already, nor where a value is entered under that name. A computed
value goes into its cell as well. -/

namespace LiveForm

/-- What a step leaves of a pass: what is reported under other ids already, and their errors. -/
structure Pass.Apart (id : String) (p q : Pass) : Prop where
  results : ∀ x, x ≠ id → (p.results.get? x).isSome → q.results.get? x = p.results.get? x
  errors : ∀ x, x ≠ id → q.errors.get? x = p.errors.get? x

namespace Session

open LiveForm.Action

/-- A value has been entered under an id. -/
structure Binds (raw : Context) (id : String) (v : Value) (p q : Pass) : Prop where
  working_self : q.working.get? id = some v
  working : ∀ x, x ≠ id → raw.contains x → q.working.get? x = p.working.get? x
  results_self : q.results.get? id = some v
  results : ∀ x, x ≠ id → (p.results.get? x).isSome → q.results.get? x = p.results.get? x
  errors : q.errors = p.errors

section Steps

variable {now : Number} {raw : Context} {id : String} {v : Value} {n : Node} {p q : Pass}
  {s t : Session}

theorem Binds.apart (h : Binds raw id v p q) : p.Apart id q :=
  ⟨h.results, fun x _ => by rw [h.errors]⟩

theorem bindValue_binds (h : bindValue s raw id v p = .ok q) : Binds raw id v p q := by
  have hown : Binds raw id v p
      { p with working := p.working.insert id v, results := p.results.insert id v } :=
    ⟨Table.get?_insert_self _ _ _, fun x hx _ => Table.get?_insert_of_ne _ hx v,
      Table.get?_insert_self _ _ _, fun x hx _ => Table.get?_insert_of_ne _ hx v, rfl⟩
  unfold bindValue bindAlias at h
  split at h
  · obtain rfl := Except.ok.inj h
    exact hown
  · rename_i leaf _
    split at h
    · obtain rfl := Except.ok.inj h
      exact hown
    · obtain ⟨isRow, -, h⟩ := bind_eq_ok h
      split at h
      · obtain rfl := Except.ok.inj h
        exact hown
      · rename_i hraw
        obtain rfl := Except.ok.inj h
        rw [Bool.or_eq_true, not_or] at hraw
        refine ⟨?_, fun x hx hbound => ?_, ?_, fun x hx hsome => ?_, rfl⟩
        · rw [Table.get?_insert, hown.working_self]
          split <;> rfl
        · have hleaf : x ≠ leaf := by
            rintro rfl
            exact hraw.2 hbound
          rw [Table.get?_insert_of_ne _ hleaf, hown.working x hx hbound]
        · rw [Table.get?_insertNew]
          split
          · rename_i heq
            rw [← eq_of_beq heq, hown.results_self, Option.getD_some]
          · exact hown.results_self
        · obtain ⟨w, hw⟩ := Option.isSome_iff_exists.mp hsome
          have hprev := (hown.results x hx hsome).trans hw
          rw [Table.get?_insertNew, hw]
          split
          · rename_i heq
            rw [← eq_of_beq heq, hprev, Option.getD_some]
          · exact hprev

/-- A plain input binds the value that it is given, if any. -/
theorem stepPlain_binds (h : (stepPlain raw n p).run s = (.ok q, t)) :
    t.cache = s.cache ∧ ((∃ v, plainValue? raw n p = some v ∧ Binds raw n.id v p q) ∨
      (plainValue? raw n p = none ∧ q = { p with results := p.results.insertNew n.id .null })) := by
  obtain ⟨v, hv, rfl, hq⟩ | ⟨hv, rfl, rfl⟩ := stepPlain_eq_ok h
  · exact ⟨rfl, .inl ⟨v, hv, bindValue_binds hq⟩⟩
  · exact ⟨rfl, .inr ⟨hv, rfl⟩⟩

/-- A computed field binds the value of its answer, which is also written back when the field belongs
to a row. -/
theorem bindAnswer_binds {a : Answer} (h : bindAnswer s raw id a p = .ok q) :
    ∃ row working, RowRef.parse? id = .ok row ∧
      (∀ x, x ≠ id → raw.contains x → working.get? x = p.working.get? x) ∧
      q.working = row.elim working (fun r => r.writeBack a.value working) ∧
      p.Apart id q ∧ q.results.get? id = some a.value ∧
      q.errors.get? id = a.error.or (p.errors.get? id) := by
  unfold bindAnswer at h
  obtain ⟨b, hb, h⟩ := bind_eq_ok h
  obtain ⟨row, hrow, h⟩ := bind_eq_ok h
  have hbinds := bindValue_binds hb
  have hq : q = { b with working := row.elim b.working fun r => r.writeBack a.value b.working } := by
    cases row <;> exact (Except.ok.inj h).symm
  subst hq
  refine ⟨row, b.working, hrow, fun x hx hraw => ?_, rfl, ⟨fun x hx hsome => ?_, fun x hx => ?_⟩,
    hbinds.results_self, ?_⟩
  · rw [hbinds.working x hx hraw]
    cases a.error <;> rfl
  · refine (hbinds.results x hx ?_).trans ?_ <;> cases a.error <;> first | exact hsome | rfl
  · refine (congrArg (Table.get? · x) hbinds.errors).trans ?_
    cases a.error with
    | none => rfl
    | some message => exact Table.get?_insert_of_ne _ hx message
  · refine (congrArg (Table.get? · id) hbinds.errors).trans ?_
    cases a.error with
    | none => rfl
    | some message => exact Table.get?_insert_self _ _ _

end Steps

/-! ## The next field -/

/-- What a pass has found when it comes to a field of its order. -/
def arriving (now : Number) (offer : Offer) (id : String) : Action Pass := do
  let (raw, first) ← opening offer
  ((← get).graph.order.takeWhile (· != id)).foldlM (step now raw) first

theorem arriving_eq {now : Number} {offer : Offer} {start s t : Session} {raw : Context}
    {first p : Pass} {done rest : List String} {id : String}
    (hopening : (opening offer).run start = (.ok (raw, first), s))
    (ho : s.graph.order = done ++ id :: rest) (hid : id ∉ done)
    (hsteps : (done.foldlM (step now raw) first).run s = (.ok p, t)) :
    (arriving now offer id).run start = (.ok p, t) := by
  have hdone : s.graph.order.takeWhile (· != id) = done := by
    rw [ho, List.takeWhile_append_of_pos fun x hx => ?_]
    · simp
    · simpa using fun heq : x = id => hid (heq ▸ hx)
  refine (run_bind_ok hopening).trans ((run_bind_ok (run_get s)).trans ?_)
  rw [hdone]
  exact hsteps

section Next

variable {start s : Session} {E : Edges} {done rest : List String} {id : String}

/-- The node of the next field is the one that the session has started with, up to what passes write. -/
theorem Kept.next_node (hk : Kept start s) (hE : start.graph.Consistent E)
    (ho : start.graph.order = done ++ id :: rest) :
    ∃ n, s.graph.nodes.get? id = some n ∧ n.id = id ∧
      n.expression = start.graph.expressionAt id ∧
      ∀ d, d ∈ n.dependencies ↔ start.graph.DependsOn id d := by
  obtain ⟨m, n, hm, hn, hid, hstable⟩ := hE.next_node hk.stable ho
  have hexpr := (Node.eq_of_stable_eq hstable).2
  refine ⟨n, hn, hid, hexpr.trans (Graph.expressionAt_eq hm).symm, fun d => ?_⟩
  rw [(Node.edges_of_stable_eq hstable).1]
  exact ⟨fun hd => ⟨m, hm, hd⟩, fun ⟨k, hk, hd⟩ => by rwa [Option.some.inj (hm.symm.trans hk)]⟩

end Next

end Session

end LiveForm
