import LiveForm.Proofs.Cells
import LiveForm.Proofs.Session.Binding
import LiveForm.Proofs.Session.Seed
import LiveForm.Proofs.Session.Wiring

/-! # What a step does to a pass

The working context and the report are filled side by side. Over a plain input without a value, a step
fills in the report only. Otherwise it writes a value under the id of its field into both, and for a
dotted id under its last part as well, if neither a field nor an entered value has that name: in the
working context over what the name stood for before, in the report where nothing is reported yet. What
a step does depends on the session with which the pass has started, so what every step preserves, a
whole pass preserves. -/

namespace LiveForm

namespace Pass

/-- A pass with a value under an id, and under a name that stands for it. -/
def enter (leaf? : Option String) (id : String) (v : Value) (p : Pass) : Pass :=
  let q := { p with working := p.working.insert id v, results := p.results.insert id v }
  match leaf? with
  | some leaf => { q with working := q.working.insert leaf v, results := q.results.insertNew leaf v }
  | none => q

/-- A pass with the answer for a field, also in the cell of a row. -/
def enterAnswer (leaf? : Option String) (id : String) (row : Option RowRef) (a : Answer) (p : Pass) :
    Pass :=
  let errors := a.error.elim p.errors fun message => p.errors.insert id message
  let q := enter leaf? id a.value { p with errors := errors, computed := p.computed.insert id a.value }
  { q with working := row.elim q.working fun r => r.writeBack a.value q.working }

section Enter

variable {leaf? : Option String} {id x : String} {v : Value} {p : Pass}

theorem get?_enter_working : (p.enter leaf? id v).working.get? x =
    if leaf? = some x ∨ x = id then some v else p.working.get? x := by
  cases leaf? with
  | none => simp [enter, Table.get?_insert]
  | some leaf =>
    have hleaf : x = leaf ↔ leaf = x := eq_comm
    by_cases hid : x = id <;> simp [enter, Table.get?_insert, hid, hleaf]

theorem get?_enter_results : (p.enter leaf? id v).results.get? x =
    if x = id then some v else if leaf? = some x then some ((p.results.get? x).getD v)
    else p.results.get? x := by
  cases leaf? with
  | none => simp [enter, Table.get?_insert]
  | some leaf =>
    have hleaf : x = leaf ↔ leaf = x := eq_comm
    simp only [enter, Table.get?_insertNew, Table.get?_insert, beq_iff_eq, Option.some.injEq, hleaf]
    by_cases hid : x = id
    · subst hid
      by_cases hx : leaf = x <;> simp [hx]
    · by_cases hx : leaf = x
      · subst hx
        simp [hid]
      · simp [hid, hx]

theorem enter_computed : (p.enter leaf? id v).computed = p.computed := by cases leaf? <;> rfl

theorem enter_errors : (p.enter leaf? id v).errors = p.errors := by cases leaf? <;> rfl

variable {row : Option RowRef} {a : Answer}

/-- An answer is read under the id and the name, unless the row that it is written into is there. -/
theorem get?_enterAnswer_working (h : ∀ r, row = some r → x ≠ r.array) :
    (p.enterAnswer leaf? id row a).working.get? x =
      if leaf? = some x ∨ x = id then some a.value else p.working.get? x := by
  cases row with
  | none => exact get?_enter_working
  | some r => exact (RowRef.get?_writeBack_of_ne (h r rfl)).trans get?_enter_working

theorem get?_enterAnswer_results : (p.enterAnswer leaf? id row a).results.get? x =
    if x = id then some a.value else if leaf? = some x then some ((p.results.get? x).getD a.value)
    else p.results.get? x := get?_enter_results

theorem enterAnswer_computed :
    (p.enterAnswer leaf? id row a).computed = p.computed.insert id a.value := enter_computed

theorem enterAnswer_errors : (p.enterAnswer leaf? id row a).errors =
    a.error.elim p.errors fun message => p.errors.insert id message := enter_errors

theorem bound_enter (h : x = id ∨ (p.working.get? x).isSome) :
    ((p.enter leaf? id v).working.get? x).isSome := by
  rw [get?_enter_working]
  split
  · rfl
  · rename_i hne
    exact h.resolve_left fun heq => hne (.inr heq)

theorem bound_enterAnswer (h : x = id ∨ (p.working.get? x).isSome) :
    ((p.enterAnswer leaf? id row a).working.get? x).isSome := by
  cases row with
  | none => exact bound_enter h
  | some r => exact RowRef.get?_writeBack_isSome (bound_enter h)

end Enter

end Pass

namespace Session

open LiveForm.Action

/-- The name that stands for the value of a field besides its id. -/
def standIn? (s : Session) (raw : Context) (id : String) : Option String :=
  if s.settings.aliasLeafNames then
    (alias? id).toOption.join.filter fun leaf => !s.graph.nodes.contains leaf && !raw.contains leaf
  else none

/-- The step over a field of a session, as what it makes of a pass. -/
inductive Stepped (s : Session) (raw : Context) (id : String) (p : Pass) : Pass → Prop
  | unbound (hx : s.graph.expressionAt id = none) (hw : p.working.get? id = none)
      (hraw : raw.get? id = none ∨ ∃ d, s.graph.DependsOn id d) :
      Stepped s raw id p { p with results := p.results.insertNew id .null }
  | plain (v : Value) (hx : s.graph.expressionAt id = none)
      (hv : raw.get? id = some v ∧ (∀ d, ¬s.graph.DependsOn id d) ∨
        p.working.get? id = some v ∧ (raw.get? id = none ∨ ∃ d, s.graph.DependsOn id d)) :
      Stepped s raw id p (p.enter (standIn? s raw id) id v)
  | computed (a : Answer) (row : Option RowRef) (hx : (s.graph.expressionAt id).isSome)
      (hrow : RowRef.parse? id = .ok row) :
      Stepped s raw id p (p.enterAnswer (standIn? s raw id) id row a)

section Step

variable {start s t : Session} {E : Edges} {now : Number} {raw : Context} {p q : Pass}
  {id x : String} {v : Value} {done rest : List String}

/-! ## The name that stands for a value -/

theorem standIn?_eq_some_iff : standIn? s raw id = some x ↔
    s.settings.aliasLeafNames ∧ alias? id = .ok (some x) ∧ x ∉ s.graph.nodes.keys ∧
      raw.get? x = none := by
  have hfree : (!s.graph.nodes.contains x && !raw.contains x) = true ↔
      x ∉ s.graph.nodes.keys ∧ raw.get? x = none := by
    rw [← Table.get?_isSome_iff, Bool.and_eq_true, Bool.not_eq_true', Bool.not_eq_true',
      Table.contains, Table.contains, Bool.not_eq_true, Option.isSome_eq_false_iff,
      Option.isSome_eq_false_iff, Option.isNone_iff_eq_none, Option.isNone_iff_eq_none]
  unfold standIn?
  by_cases ha : s.settings.aliasLeafNames
  · rw [if_pos ha, Option.filter_eq_some_iff, hfree]
    cases alias? id <;> simp [ha, Except.toOption]
  · simp [ha]

theorem standIn?_ne_of_mem (h : x ∈ s.graph.nodes.keys) : standIn? s raw id ≠ some x :=
  fun heq => (standIn?_eq_some_iff.mp heq).2.2.1 h

/-- A field has no name besides its id, if its last part is none that is free. -/
theorem standIn?_eq_none {leaf : String} (hleaf : leafName? id = some leaf)
    (h : standIn? s raw id ≠ some leaf) : standIn? s raw id = none := by
  cases hs : standIn? s raw id with
  | none => rfl
  | some y =>
    obtain ⟨-, halias, -⟩ := standIn?_eq_some_iff.mp hs
    obtain rfl := Option.some.inj (hleaf.symm.trans (alias?_eq_some halias).1)
    exact absurd hs h

/-! ## One step -/

theorem bindValue_eq_ok (h : bindValue s raw id v p = .ok q) :
    q = p.enter (standIn? s raw id) id v := by
  unfold bindValue bindAlias at h
  cases hleaf : leafName? id with
  | none =>
    have hnone : standIn? s raw id = none := by
      cases hs : standIn? s raw id with
      | none => rfl
      | some y =>
        obtain ⟨-, halias, -⟩ := standIn?_eq_some_iff.mp hs
        cases hleaf.symm.trans (alias?_eq_some halias).1
    simp only [hleaf] at h
    rw [hnone, ← Except.ok.inj h, Pass.enter]
  | some leaf =>
    simp only [hleaf] at h
    split at h
    · rename_i hoff
      have hne : standIn? s raw id ≠ some leaf := by
        intro heq
        obtain ⟨ha, -, hnode, -⟩ := standIn?_eq_some_iff.mp heq
        rw [← Table.contains_iff_mem_keys] at hnode
        simp [ha, hnode] at hoff
      rw [standIn?_eq_none hleaf hne, ← Except.ok.inj h, Pass.enter]
    · rename_i hon
      simp only [Bool.or_eq_true, Bool.not_eq_true', not_or, Bool.not_eq_false] at hon
      obtain ⟨isRow, hrow, h⟩ := bind_eq_ok h
      split at h
      · rename_i hbound
        have hne : standIn? s raw id ≠ some leaf := by
          intro heq
          obtain ⟨-, halias, -, hraw⟩ := standIn?_eq_some_iff.mp heq
          obtain rfl := Except.ok.inj (hrow.symm.trans (alias?_eq_some halias).2)
          simp [Table.contains, hraw] at hbound
        rw [standIn?_eq_none hleaf hne, ← Except.ok.inj h, Pass.enter]
      · rename_i hfree
        simp only [Bool.or_eq_true, not_or] at hfree
        have heq : standIn? s raw id = some leaf := by
          refine standIn?_eq_some_iff.mpr ⟨hon.1, ?_, ?_, ?_⟩
          · simp [alias?, hleaf, hrow, hfree.1, bind, Except.bind, pure, Except.pure]
          · rw [← Table.contains_iff_mem_keys]
            exact hon.2
          · simpa [Table.contains] using hfree.2
        rw [heq, ← Except.ok.inj h, Pass.enter]

theorem bindAnswer_eq_ok {a : Answer} (h : bindAnswer s raw id a p = .ok q) :
    ∃ row, RowRef.parse? id = .ok row ∧ q = p.enterAnswer (standIn? s raw id) id row a := by
  unfold bindAnswer at h
  obtain ⟨b, hb, h⟩ := bind_eq_ok h
  obtain ⟨row, hrow, h⟩ := bind_eq_ok h
  refine ⟨row, hrow, ?_⟩
  rw [Pass.enterAnswer]
  have hb := bindValue_eq_ok hb
  cases herror : a.error <;> cases row <;>
    · rw [herror] at hb
      rw [← Except.ok.inj h, hb]
      rfl

/-- An answer leaves the settings. -/
theorem settings_of_answer (hs : s.engine.Faithful) {n : Node} {expression : String}
    {working : Context} {a : Answer} (h : (answer now n expression working).run s = (.ok a, t)) :
    t.settings = s.settings := by
  cases hq : consult now n expression working with
  | error c =>
    obtain ⟨g, -, hr⟩ := answer_aborted hs hq
    cases h.symm.trans hr
  | ok q =>
    cases hg : (s.cache.get now q.key).1 with
    | some b =>
      obtain ⟨g, -, hr⟩ := answer_recalled hs hq hg
      obtain ⟨-, rfl⟩ := Prod.mk.inj (h.symm.trans hr)
      rfl
    | none =>
      obtain ⟨g, -, hr⟩ := answer_new hs hq hg
      cases hrep : Engine.reply expression q.scope <;> rw [hrep] at hr
      · cases h.symm.trans hr
      · obtain ⟨-, rfl⟩ := Prod.mk.inj (h.symm.trans hr)
        rfl

/-- What a pass does not change of the session in which it has started. -/
structure Held (start s : Session) : Prop where
  kept : Kept start s
  settings : s.settings = start.settings

theorem Held.standIn?_eq (h : Held start s) : standIn? s raw id = standIn? start raw id := by
  have hcontains (leaf : String) : s.graph.nodes.contains leaf = start.graph.nodes.contains leaf := by
    rw [Bool.eq_iff_iff, Table.contains_iff_mem_keys, Table.contains_iff_mem_keys,
      Graph.keys_of_stable_eq h.kept.stable]
  unfold standIn?
  simp only [h.settings, hcontains]

/-- One step, over the next id of the order. -/
theorem Held.step (hs : Wired start) (hE : start.graph.Consistent E)
    (ho : start.graph.order = done ++ id :: rest) (h : Held start s)
    (hrun : (Session.step now raw p id).run s = (.ok q, t)) :
    Stepped start raw id p q ∧ Held start t := by
  have hkept : Kept s t := by
    have hk := keeps_step now raw p id s
    rwa [Keeps, hrun] at hk
  have hheld (ht : t.settings = s.settings) : Held start t :=
    ⟨h.kept.trans hkept, ht.trans h.settings⟩
  obtain ⟨n, hn, rfl, hexpr, hdeps⟩ := h.kept.next_node hE ho
  have hrun := get_answers hrun
  simp only [hn] at hrun
  cases hc : n.expression with
  | none =>
    simp only [hc] at hrun
    have hx : start.graph.expressionAt n.id = none := hexpr.symm.trans hc
    obtain ⟨v, hv, rfl, hq⟩ | ⟨hv, rfl, rfl⟩ := stepPlain_eq_ok hrun
    · refine ⟨?_, hheld rfl⟩
      rw [bindValue_eq_ok hq, (hheld rfl).standIn?_eq]
      refine .plain v hx ?_
      unfold plainValue? at hv
      split at hv
      · rename_i hempty
        have hnone (d : String) : ¬start.graph.DependsOn n.id d := by
          rw [← hdeps, List.isEmpty_iff.mp hempty]
          exact List.not_mem_nil
        cases hr : raw.get? n.id with
        | some w =>
          rw [hr, Option.some_or] at hv
          exact .inl ⟨hv, hnone⟩
        | none =>
          rw [hr, Option.none_or] at hv
          exact .inr ⟨hv, .inl rfl⟩
      · rename_i hempty
        obtain ⟨d, hd⟩ := List.exists_mem_of_ne_nil _ (mt List.isEmpty_iff.mpr hempty)
        exact .inr ⟨hv, .inr ⟨d, (hdeps d).mp hd⟩⟩
    · refine ⟨.unbound hx ?_ ?_, hheld rfl⟩
      · exact (Option.or_eq_none_iff.mp hv).2
      · have hraw := (Option.or_eq_none_iff.mp hv).1
        split at hraw
        · exact .inl hraw
        · rename_i hempty
          obtain ⟨d, hd⟩ := List.exists_mem_of_ne_nil _ (mt List.isEmpty_iff.mpr hempty)
          exact .inr ⟨d, (hdeps d).mp hd⟩
  | some expression =>
    simp only [hc] at hrun
    obtain ⟨a, u, ha, rfl, hq⟩ := stepComputed_eq_ok hrun
    have hsettings := settings_of_answer (h.kept.faithful hs.faithful) ha
    obtain ⟨row, hrow, rfl⟩ := bindAnswer_eq_ok hq
    rw [(hheld hsettings).standIn?_eq]
    refine ⟨.computed a row ?_ hrow, hheld hsettings⟩
    rw [← hexpr, hc]
    rfl

/-! ## What a step leaves -/

/-- Whether a step over a field may write into the cells of an array. -/
def WritesRowOf (s : Session) (array id : String) : Prop :=
  (s.graph.expressionAt id).isSome ∧ ∃ r, RowRef.parse? id = .ok (some r) ∧ r.array = array

theorem Stepped.working_eq (h : Stepped s raw id p q) (hne : x ≠ id)
    (hleaf : standIn? s raw id ≠ some x) (hrow : ¬WritesRowOf s x id) :
    q.working.get? x = p.working.get? x := by
  cases h with
  | unbound => rfl
  | plain v => rw [Pass.get?_enter_working, if_neg (not_or.mpr ⟨hleaf, hne⟩)]
  | computed a row hx hparse =>
    have harray (r : RowRef) (hr : row = some r) : x ≠ r.array := by
      rintro rfl
      exact hrow ⟨hx, r, hr ▸ hparse, rfl⟩
    rw [Pass.get?_enterAnswer_working harray, if_neg (not_or.mpr ⟨hleaf, hne⟩)]

theorem Stepped.results_eq (h : Stepped s raw id p q) (hne : x ≠ id)
    (hleaf : standIn? s raw id ≠ some x ∨ (p.results.get? x).isSome) :
    q.results.get? x = p.results.get? x := by
  have hkept (v : Value) : (if standIn? s raw id = some x then some ((p.results.get? x).getD v)
      else p.results.get? x) = p.results.get? x := by
    split
    · rename_i heq
      obtain ⟨w, hw⟩ := Option.isSome_iff_exists.mp (hleaf.resolve_left (not_not.mpr heq))
      rw [hw, Option.getD_some]
    · rfl
  cases h with
  | unbound => rw [Table.get?_insertNew, if_neg (by simpa using hne)]
  | plain v => rw [Pass.get?_enter_results, if_neg hne, hkept]
  | computed a row => rw [Pass.get?_enterAnswer_results, if_neg hne, hkept]

/-- A step writes no error but that of its own field. -/
theorem Stepped.errors_eq (h : Stepped s raw id p q) (hne : x ≠ id) :
    q.errors.get? x = p.errors.get? x := by
  cases h with
  | unbound => rfl
  | plain v => rw [Pass.enter_errors]
  | computed a row =>
    rw [Pass.enterAnswer_errors]
    cases a.error with
    | none => rfl
    | some message => exact Table.get?_insert_of_ne _ hne message

/-- What a step binds stays bound. -/
theorem Stepped.bound_of_bound (h : Stepped s raw id p q) (hx : (p.working.get? x).isSome) :
    (q.working.get? x).isSome := by
  cases h with
  | unbound => exact hx
  | plain v => exact Pass.bound_enter (.inr hx)
  | computed a row => exact Pass.bound_enterAnswer (.inr hx)

theorem Stepped.unbound_of_unbound (h : Stepped s raw id p q) (hx : q.working.get? x = none) :
    p.working.get? x = none := by
  refine Option.not_isSome_iff_eq_none.mp fun hbound => ?_
  have hstays := h.bound_of_bound hbound
  rw [hx] at hstays
  cases hstays

/-- What is computed is kept apart. -/
theorem Stepped.computed_eq (h : Stepped s raw id p q) (hne : x ≠ id) :
    q.computed.get? x = p.computed.get? x := by
  cases h with
  | unbound => rfl
  | plain v => rw [Pass.enter_computed]
  | computed a row => rw [Pass.enterAnswer_computed, Table.get?_insert_of_ne _ hne]

theorem Stepped.nodup_computed (h : Stepped s raw id p q) (hn : p.computed.keys.Nodup) :
    q.computed.keys.Nodup := by
  cases h with
  | unbound => exact hn
  | plain v =>
    rw [Pass.enter_computed]
    exact hn
  | computed a row =>
    rw [Pass.enterAnswer_computed]
    exact Table.nodup_keys_insert hn id a.value

end Step

/-! ## A whole pass -/

section Run

variable {start s t : Session} {E : Edges} {now : Number} {offer : Offer} {raw : Context}
  {p q : Pass}

/-- The steps over a part of the order, by induction on that part. -/
theorem Held.steps (hs : Wired start) (hE : start.graph.Consistent E) {P : List String → Pass → Prop}
    (hstep : ∀ done id rest p q, start.graph.order = done ++ id :: rest →
      Stepped start raw id p q → P done p → P (done ++ [id]) q) {done part rest : List String}
    (ho : start.graph.order = done ++ part ++ rest) (h : Held start s) (hp : P done p)
    (hrun : (part.foldlM (Session.step now raw) p).run s = (.ok q, t)) :
    Held start t ∧ P (done ++ part) q := by
  induction part generalizing done p s with
  | nil =>
    obtain ⟨rfl, rfl⟩ := pure_answers hrun
    rw [List.append_nil]
    exact ⟨h, hp⟩
  | cons id part ih =>
    rw [List.foldlM_cons] at hrun
    obtain ⟨r, u, hr, hrun⟩ := bind_answers hrun
    have ho' : start.graph.order = done ++ id :: (part ++ rest) := by
      rw [ho, List.append_assoc, List.cons_append]
    obtain ⟨hstepped, hu⟩ := h.step hs hE ho' hr
    have hlast := ih (by rw [ho']; simp) hu (hstep done id _ p r ho' hstepped hp) hrun
    rwa [List.append_assoc, List.singleton_append] at hlast

/-- A pass starts from the seed of its layers, and what holds then and is preserved by every step of
the order holds at the end. -/
theorem sweep_induct (hs : Wired start) (h : (sweep now offer).run start = (.ok q, t)) :
    ∃ layers working, Layers.ofOffer offer = .ok layers ∧
      seed start.settings layers = .ok working ∧ Held start t ∧
      ∀ P : List String → Pass → Prop,
        P [] { working := working, results := layers.raw.merge layers.calculated } →
        (∀ done id rest p q, start.graph.order = done ++ id :: rest →
          Stepped start layers.raw id p q → P done p → P (done ++ [id]) q) →
        P start.graph.order q := by
  obtain ⟨E, hE⟩ := hs.consistent
  obtain ⟨raw, first, u, hopening, hsteps⟩ := sweep_eq_ok h
  obtain ⟨layers, working, hlayers, hworking, rfl, rfl, rfl⟩ := opening_eq_ok hopening
  have hg : start.graph.settle = start.graph := hE.settled.settle_eq
  have hstart : Held start ((modifyGraph Graph.settle).run start).2 :=
    ⟨⟨fun hf => hf, congrArg Graph.stable hg, rfl⟩, rfl⟩
  have horder : ((modifyGraph Graph.settle).run start).2.graph.order = start.graph.order :=
    congrArg Graph.order hg
  rw [horder] at hsteps
  have hall : start.graph.order = [] ++ start.graph.order ++ [] := (List.append_nil _).symm
  refine ⟨layers, working, hlayers, hworking, ?_, fun P hfirst hstep => ?_⟩
  · exact (hstart.steps hs hE (P := fun _ _ => True) (fun _ _ _ _ _ _ _ _ => trivial) hall trivial
      hsteps).1
  · exact (hstart.steps hs hE hstep hall hfirst hsteps).2

end Run

end Session

end LiveForm
