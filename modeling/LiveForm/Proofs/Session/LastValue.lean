import LiveForm.Proofs.Graph.Values
import LiveForm.Proofs.Session.Accounting
import LiveForm.Proofs.Session.OneValue

/-! # The value that a field keeps

A step over a plain field makes what it finds the last value of the field, and a step over a computed
field its answer, unless that is a failure. Nothing else writes a last value: it stays when the field
is registered anew, when its edges change, when the cache is cleared and when a pass aborts; and it is
gone with the node. So the last value of a circular field, which passes do not step over, is that of
the last step before that wrote it, since the node is there. -/

namespace LiveForm

/-- The last value of a field; null without a node. -/
def Graph.lastValueAt (g : Graph) (x : String) : Value := (g.bareAt x).lastValue

namespace Session

open LiveForm.Action

/-! ## What steps settle -/

/-- The last value that a step gives its field: of a plain field what is found for it, null if nothing
is; of a computed field the answer, if it is no failure. -/
def settled? (now : Number) (raw : Context) (p : Pass) (id : String) (s : Session) : Option Value :=
  match s.graph.nodes.get? id with
  | none => none
  | some n =>
    match n.expression with
    | none => some ((plainValue? raw n p).getD .null)
    | some expression =>
      match ((answer now n expression p.working).run s).1 with
      | .ok a => if a.error.isNone then some a.value else none
      | .error _ => none

/-- What the steps of a pass settle for a field, up to the step that aborts. -/
def stepSettlements (now : Number) (raw : Context) (f : String) :
    List String → Pass → Session → List Value
  | [], _, _ => []
  | id :: rest, p, s =>
    (if id = f then settled? now raw p id s else none).toList ++
      match (step now raw p id).run s with
      | (.ok p, s) => stepSettlements now raw f rest p s
      | (.error _, _) => []

def Operation.settlements (op : Operation) (f : String) (s : Session) : List Value :=
  match op with
  | evaluateAll now offer =>
    match (opening offer).run s with
    | (.ok (raw, start), s) => stepSettlements now raw f s.graph.order start s
    | (.error _, _) => []
  | _ => []

theorem Operation.settlements_evaluateAll (now : Number) (offer : Offer) (f : String) (s : Session) :
    (evaluateAll now offer).settlements f s =
      match (opening offer).run s with
      | (.ok (raw, start), s) => stepSettlements now raw f s.graph.order start s
      | (.error _, _) => [] := rfl

/-- What the steps of a history settle for a field, after what they have settled before; all of it is
forgotten when the field has no node. -/
def settlementsFrom (f : String) : List Operation → Session → List Value → List Value
  | [], _, seen => seen
  | op :: rest, s, seen =>
    let t := op.perform s
    settlementsFrom f rest t (if t.graph.nodes.contains f then seen ++ op.settlements f s else [])

/-- What the steps of a history have settled for a field since its node is there. -/
def settlements (settings : Settings) (ops : List Operation) (f : String) : List Value :=
  settlementsFrom f ops (create settings) []

/-- The default that an operation declares. -/
def Operation.default? : Operation → Option Value
  | register _ _ _ default => some default
  | _ => none

/-- The default that the last registration of a field has declared. -/
def declaredDefault (ops : List Operation) (f : String) : Value :=
  ((ops.reverse.find? fun op => op.entered? == some f).bind Operation.default?).getD .null

section Step

variable {s t : Session} {E : Edges} {now : Number} {raw : Context} {p : Pass} {n : Node}
  {id x f expression : String} {working : Context}

theorem lastValueAt_of_not_mem {g : Graph} (h : x ∉ g.nodes.keys) : g.lastValueAt x = .null := by
  rw [Graph.lastValueAt, Graph.bareAt_of_not_mem h]

/-- Writing into the node of a field. -/
theorem lastValueAt_modify {g : Graph} {h : Node → Node} (hn : g.nodes.get? id = some n) :
    Graph.lastValueAt { g with nodes := g.nodes.modify id h } x =
      if x = id then (h n).lastValue else g.lastValueAt x := by
  rw [Graph.lastValueAt, Graph.lastValueAt, Graph.bareAt, Graph.bareAt, Graph.nodeAt, Graph.nodeAt,
    Table.get?_modify]
  by_cases hx : x = id
  · subst hx
    rw [if_pos (beq_self_eq_true x), hn, if_pos rfl]
    rfl
  · rw [if_neg (by simpa using hx), if_neg hx]

theorem graph_answer (hs : s.engine.Faithful) :
    ((answer now n expression working).run s).2.graph = s.graph := by
  cases hq : consult now n expression working with
  | error c =>
    obtain ⟨g, -, hr⟩ := answer_aborted hs hq
    rw [hr]
  | ok q =>
    cases hg : (s.cache.get now q.key).1 with
    | some b =>
      obtain ⟨g, -, hr⟩ := answer_recalled hs hq hg
      rw [hr]
    | none =>
      obtain ⟨g, -, hr⟩ := answer_new hs hq hg
      rw [hr]
      cases Engine.reply expression q.scope <;> rfl

/-- Whether or not the value can be bound, a plain field is given it. -/
theorem graph_stepPlain : ((stepPlain raw n p).run s).2.graph =
    { s.graph with
      nodes := s.graph.nodes.modify n.id (Node.given ((plainValue? raw n p).getD .null)) } := by
  unfold stepPlain
  cases plainValue? raw n p with
  | none => rfl
  | some v =>
    have hwrite : (modifyNode n.id (Node.given v)).run s = (.ok ⟨⟩, _) := rfl
    dsimp only
    rw [run_bind_ok hwrite, run_bind_ok (run_get _), run_orAbort]
    rfl

theorem graph_stepComputed (hs : s.engine.Faithful) :
    ((stepComputed now raw n expression p).run s).2.graph =
      match ((answer now n expression p.working).run s).1 with
      | .ok a => { s.graph with nodes := s.graph.nodes.modify n.id (Node.answered now a) }
      | .error _ => s.graph := by
  have hgraph : ((answer now n expression p.working).run s).2.graph = s.graph := graph_answer hs
  unfold stepComputed
  cases hrun : (answer now n expression p.working).run s with
  | mk outcome t =>
    rw [hrun] at hgraph
    cases outcome with
    | error c =>
      rw [run_bind_error hrun]
      exact hgraph
    | ok a =>
      have hwrite : (modifyNode n.id (Node.answered now a)).run t = (.ok ⟨⟩, _) := rfl
      rw [run_bind_ok hrun, run_bind_ok hwrite, run_bind_ok (run_get _), run_orAbort]
      dsimp only at hgraph ⊢
      rw [← hgraph]

/-- **One step.** It gives its own field what it settles for it, and no other field anything. -/
theorem lastValueAt_step (hs : s.engine.Faithful) (hE : s.graph.Consistent E) :
    ((step now raw p id).run s).2.graph.lastValueAt x =
      (if id = x then settled? now raw p id s else none).getD (s.graph.lastValueAt x) := by
  unfold step settled?
  rw [run_bind_ok (run_get s)]
  cases hn : s.graph.nodes.get? id with
  | none =>
    simp only [ite_self, Option.getD_none]
    rfl
  | some n =>
    have hid : n.id = id := (hE.mirrors.shows id n hn).id_eq
    have hlast : s.graph.lastValueAt id = n.lastValue := by
      rw [Graph.lastValueAt, Graph.bareAt_eq hn]
      rfl
    dsimp only
    cases hexpr : n.expression with
    | none =>
      dsimp only
      rw [graph_stepPlain, hid, lastValueAt_modify hn]
      by_cases hx : x = id
      · simp [hx, Node.given]
      · simp [hx, Ne.symm hx]
    | some expression =>
      dsimp only
      rw [graph_stepComputed hs, hid]
      cases ((answer now n expression p.working).run s).1 with
      | error c => simp
      | ok a =>
        dsimp only
        rw [lastValueAt_modify hn]
        by_cases hx : x = id
        · subst hx
          cases herror : a.error <;> simp [Node.answered, herror, hlast]
        · simp [hx, Ne.symm hx]

/-- The steps of a pass, by induction on the ids that are left. -/
theorem lastValueAt_steps (hs : s.engine.Faithful) (hE : s.graph.Consistent E) (ids : List String) :
    ((ids.foldlM (step now raw) p).run s).2.graph.lastValueAt f =
      (stepSettlements now raw f ids p s).getLast?.getD (s.graph.lastValueAt f) := by
  induction ids generalizing p s with
  | nil => rfl
  | cons id rest ih =>
    have hstep : ((step now raw p id).run s).2.graph.lastValueAt f = _ := lastValueAt_step hs hE
    have hkept := keeps_step now raw p id s
    have hone (v? : Option Value) : v?.toList.getLast? = v? := by cases v? <;> rfl
    rw [List.foldlM_cons, stepSettlements, List.getLast?_append, hone]
    cases hrun : (step now raw p id).run s with
    | mk outcome t =>
      rw [Keeps, hrun] at hkept
      rw [hrun] at hstep
      cases outcome with
      | error c =>
        rw [run_bind_error hrun]
        simpa using hstep
      | ok q =>
        rw [run_bind_ok hrun, ih (hkept.faithful hs) (hE.of_stable_eq hkept.stable), hstep]
        dsimp only
        rw [Option.getD_or]

/-- A pass does not step over what is not in its order. -/
theorem stepSettlements_eq_nil {ids : List String} (hf : f ∉ ids) :
    stepSettlements now raw f ids p s = [] := by
  induction ids generalizing p s with
  | nil => rfl
  | cons id rest ih =>
    obtain ⟨hne, hrest⟩ := not_or.mp (mt List.mem_cons.mpr hf)
    rw [stepSettlements, if_neg (Ne.symm hne)]
    cases (step now raw p id).run s with
    | mk outcome t => cases outcome <;> simp [ih hrest]

end Step

/-! ## Operations -/

section Perform

variable {s : Session} {E : Edges} {now : Number} {offer : Offer} {op : Operation} {f id x : String}

theorem bareAt_enter (h : s.graph.Consistent E) {row : Option RowRef} {expression : Option String}
    {ids : List String} {default : Value} :
    (s.enter id row expression ids default).graph.bareAt x =
      if x = id then (s.graph.bareAt x).enter expression [] default else s.graph.bareAt x := by
  rw [graph_enter]
  cases row with
  | none => exact Graph.bareAt_register ..
  | some r =>
    cases expression with
    | none => exact Graph.bareAt_register ..
    | some e =>
      rw [Graph.bareAt_addDependency (h.mirrors.register id (some e) _ default)]
      exact Graph.bareAt_register ..

theorem lastValueAt_enter (h : s.graph.Consistent E) {row : Option RowRef}
    {expression : Option String} {ids : List String} {default : Value} :
    (s.enter id row expression ids default).graph.lastValueAt f = s.graph.lastValueAt f := by
  rw [Graph.lastValueAt, bareAt_enter h]
  split <;> rfl

/-- The opening of a pass leaves a session whose graph is up to date. -/
theorem opening_leaves (h : s.graph.Settled) (offer : Offer) : ((opening offer).run s).2 = s := by
  have hsettle : (modifyGraph Graph.settle).run s =
      (.ok ⟨⟩, { s with graph := s.graph.settle }) := rfl
  rw [h.settle_eq] at hsettle
  unfold opening
  rw [run_bind_ok hsettle, run_bind, run_orAbort]
  cases Layers.ofOffer offer with
  | error c => rfl
  | ok layers =>
    dsimp only
    rw [run_bind_ok (run_get s), run_bind, run_orAbort]
    cases seed s.settings layers <;> rfl

/-- A pass, whether it answers or aborts. -/
theorem lastValueAt_evaluateAll (hs : Wired s) (now : Number) (offer : Offer) :
    ((evaluateAll now offer).run s).2.graph.lastValueAt f =
      ((Operation.evaluateAll now offer).settlements f s).getLast?.getD (s.graph.lastValueAt f) := by
  obtain ⟨E, hE⟩ := hs.consistent
  have hpublish : ((evaluateAll now offer).run s).2.graph = ((sweep now offer).run s).2.graph := by
    unfold evaluateAll
    rw [run_bind]
    cases (sweep now offer).run s with
    | mk outcome t => cases outcome <;> rfl
  have hopening := opening_leaves hE.settled offer
  rw [hpublish, Operation.settlements_evaluateAll]
  unfold sweep
  cases hrun : (opening offer).run s with
  | mk outcome t =>
    obtain rfl : t = s := by rwa [hrun] at hopening
    cases outcome with
    | error c =>
      rw [run_bind_error hrun]
      rfl
    | ok r =>
      rw [run_bind_ok hrun, run_bind_ok (run_get t)]
      exact lastValueAt_steps hs.faithful hE _

/-- A pass settles nothing for a field that is not in its order. -/
theorem Operation.settlements_eq_nil (h : s.graph.Settled) (hf : f ∉ s.graph.order) :
    (Operation.evaluateAll now offer).settlements f s = [] := by
  have hopening := opening_leaves h offer
  rw [settlements_evaluateAll]
  cases hrun : (opening offer).run s with
  | mk outcome t =>
    obtain rfl : t = s := by rwa [hrun] at hopening
    cases outcome with
    | error c => rfl
    | ok r => exact stepSettlements_eq_nil hf

theorem graph_onEngine {α : Type} (action : Engine.Action α) (s : Session) :
    ((onEngine action).run s).2.graph = s.graph := by
  have hrun : (onEngine action).run s = (onEngine.liftExcept (action.run s.engine).1).run
      { s with engine := (action.run s.engine).2 } := rfl
  rw [hrun]
  cases (action.run s.engine).1 <;> rfl

/-- **One operation.** A field keeps its last value unless a step of the operation settles another one,
as long as it has a node. -/
theorem lastValueAt_perform (hs : Wired s) (op : Operation)
    (hf : f ∈ (op.perform s).graph.nodes.keys) :
    (op.perform s).graph.lastValueAt f = (op.settlements f s).getLast?.getD (s.graph.lastValueAt f) := by
  obtain ⟨E, hE⟩ := hs.consistent
  cases op with
  | register id text declared default =>
    obtain ⟨g, -, hr⟩ := run_register_eq hs.faithful id text declared default
    rw [Operation.perform, hr]
    have hE' : ({ s with engine := g } : Session).graph.Consistent E := hE
    cases reading s.graph.nodes.keys id text declared with
    | ok r => exact lastValueAt_enter hE'
    | error c => rfl
  | unregister id =>
    rw [run_unregister, graph_without] at hf ⊢
    have hne : f ≠ id := by
      rintro rfl
      rw [← Table.get?_isSome_iff, Graph.get?_unregister, if_neg fun h => h.2 rfl] at hf
      cases hf
    rw [Graph.lastValueAt, Graph.bareAt_unregister, if_neg hne]
    rfl
  | evaluateAll now offer => exact lastValueAt_evaluateAll hs now offer
  | registerArray array children => rfl
  | evaluateOnce text scope =>
    have hgraph : ((evaluateOnce text scope).run s).2.graph = s.graph := by
      unfold evaluateOnce
      rw [run_bind_ok (run_modify _ s), graph_onEngine]
    rw [Operation.perform, hgraph]
    rfl
  | clearCache =>
    rw [Graph.lastValueAt, Graph.bareAt, Graph.nodeAt]
    simp only [Operation.perform, clearCache, Table.get?_mapValues]
    rw [Graph.lastValueAt, Graph.bareAt, Graph.nodeAt]
    cases s.graph.nodes.get? f <;> rfl
  | close => cases hf

end Perform

/-! ## Histories -/

section History

variable {settings : Settings} {ops : List Operation} {op : Operation} {f : String}

theorem settlementsFrom_concat (s : Session) (seen : List Value) :
    settlementsFrom f (ops ++ [op]) s seen =
      if (op.perform (after s ops)).graph.nodes.contains f then
        settlementsFrom f ops s seen ++ op.settlements f (after s ops)
      else [] := by
  induction ops generalizing s seen with
  | nil => rfl
  | cons first rest ih => exact ih _ _

/-- **A history.** The last value of a field is what was settled last since its node is there. -/
theorem lastValueAt_after (settings : Settings) (ops : List Operation) (f : String) :
    (after (create settings) ops).graph.lastValueAt f =
      (settlements settings ops f).getLast?.getD .null := by
  induction ops using List.reverseRecOn with
  | nil => rfl
  | append_singleton ops op ih =>
    have hs := wired_after (wired_create settings) ops
    rw [after_concat, settlements, settlementsFrom_concat]
    split
    · rename_i hf
      rw [lastValueAt_perform hs op ((Table.contains_iff_mem_keys _ f).mp hf), ih, settlements,
        List.getLast?_append, Option.getD_or]
    · rename_i hf
      exact lastValueAt_of_not_mem fun hmem => hf ((Table.contains_iff_mem_keys _ f).mpr hmem)

theorem declaredDefault_concat : declaredDefault (ops ++ [op]) f =
    if op.entered? = some f then op.default?.getD .null else declaredDefault ops f := by
  rw [declaredDefault, List.reverse_append, List.reverse_singleton, List.singleton_append,
    List.find?_cons]
  by_cases hop : op.entered? = some f
  · simp [hop]
  · rw [if_neg hop, beq_false_of_ne hop]
    rfl

theorem default_of_stable_eq {g h : Graph} (hs : g.stable = h.stable) (x : String) :
    (g.bareAt x).default = (h.bareAt x).default := by
  have hone (g : Graph) : (g.bareAt x).default = (g.stable.bareAt x).default := by
    simp only [Graph.bareAt, Graph.nodeAt, Graph.stable, Table.get?_mapValues]
    cases g.nodes.get? x <;> rfl
  rw [hone g, hone h, hs]

/-- A registration declares the default. -/
theorem Does.default_of_enters {s t : Session} (h : Wired s) (hdo : Does s t op)
    (hop : op.entered? = some f) : (t.graph.bareAt f).default = op.default?.getD .null := by
  obtain ⟨E, hE⟩ := h.consistent
  cases hdo with
  | @enters id text declared default row ids g hg hr =>
    have hE' : ({ s with engine := g } : Session).graph.Consistent E := hE
    obtain rfl : id = f := Option.some.inj ((entered?_eq_some hr default).symm.trans hop)
    rw [bareAt_enter hE', if_pos rfl]
    rfl
  | removes id => cases hop
  | closes => cases hop
  | keeps hnone => exact absurd (hnone.symm.trans hop) (by simp)

theorem Does.default_eq {s t : Session} (h : Wired s) (hdo : Does s t op)
    (hop : op.entered? ≠ some f) (hx : (t.graph.expressionAt f).isSome) :
    (t.graph.bareAt f).default = (s.graph.bareAt f).default := by
  obtain ⟨E, hE⟩ := h.consistent
  cases hdo with
  | enters g hg hr =>
    have hE' : ({ s with engine := g } : Session).graph.Consistent E := hE
    rw [entered?_eq_some hr] at hop
    rw [bareAt_enter hE', if_neg fun hid => hop (congrArg some hid.symm)]
  | removes id =>
    rw [graph_without, Graph.expressionAt_unregister] at hx
    rw [graph_without, Graph.bareAt_unregister]
    split at hx
    · cases hx
    · rename_i hid
      rw [if_neg hid]
  | closes => cases hx
  | keeps _ _ hk => exact default_of_stable_eq hk.stable f

/-- A computed field has the default that was declared last. -/
theorem default_after (settings : Settings) (ops : List Operation)
    (hx : ((after (create settings) ops).graph.expressionAt f).isSome) :
    ((after (create settings) ops).graph.bareAt f).default = declaredDefault ops f := by
  induction ops using List.reverseRecOn with
  | nil => cases hx
  | append_singleton ops op ih =>
    have hs := wired_after (wired_create settings) ops
    have hdo := hs.does op
    rw [after_concat] at hx ⊢
    rw [declaredDefault_concat]
    by_cases hop : op.entered? = some f
    · rw [if_pos hop, hdo.default_of_enters hs hop]
    · rw [if_neg hop, hdo.default_eq hs hop hx, ih (by rwa [← hdo.expressionAt_eq hs hop hx])]

/-- **A circular field keeps its last good value.** After any history, a pass that answers reports of a
computed field that is circular what a step has settled for it last since its node is there: its answer
when it was evaluated without an error, or what it was found to be while it had no expression. If that
is null or there is no such step, it reports the default that the field was last registered with. -/
theorem circular_keeps_value (settings : Settings) (ops : List Operation) {now : Number}
    {offer : Offer} {results : Context} {t : Session}
    (h : (evaluateAll now offer).run (after (create settings) ops) = (.ok results, t))
    (hf : f ∈ (after (create settings) ops).graph.circular)
    (hx : ((after (create settings) ops).graph.expressionAt f).isSome) :
    results.get? f = some
      (match (settlements settings ops f).getLast? with
      | some v => if v.isNull then declaredDefault ops f else v
      | none => declaredDefault ops f) := by
  have hs := wired_after (wired_create settings) ops
  have hlast := lastValueAt_after settings ops f
  have hdefault := default_after settings ops hx
  generalize after (create settings) ops = s at *
  obtain ⟨E, hE⟩ := hs.consistent
  obtain ⟨p, hp⟩ := exists_concluded hs h
  obtain ⟨n, hn, hresult, -⟩ := hp.circular f hf
  have ht : ((evaluateAll now offer).run s).2 = t := by rw [h]
  have hvalue : n.lastValue = s.graph.lastValueAt f := by
    have horder : f ∉ s.graph.order := fun horder => (hE.mem_order_iff_not_circular.mp horder).2 hf
    have hpass := lastValueAt_evaluateAll (f := f) hs now offer
    rw [ht, Operation.settlements_eq_nil hE.settled horder, Graph.lastValueAt, Graph.bareAt_eq hn] at hpass
    exact hpass
  have hkeptDefault : n.default = (s.graph.bareAt f).default := by
    have hkept := keeps_evaluateAll hE.settled now offer
    rw [Keeps, ht] at hkept
    rw [← default_of_stable_eq hkept.stable f, Graph.bareAt_eq hn]
    rfl
  rw [hresult, Node.shown, hvalue, hlast, hkeptDefault, hdefault]
  cases (settlements settings ops f).getLast? <;> rfl

end History

/-- A field that is evaluated, and then registered anew so that it lies on a cycle. -/
def cycleLater : List Operation :=
  [.register "left" (some "price * 2") none .null, .evaluateAll (.int 0) priceOnly,
    .register "left" (some "right") none (.int 7), .register "right" (some "left") none (.int 8),
    .clearCache]

/-- The field keeps the value from before it was on the cycle, and the other one, which has never been
evaluated, shows its default. -/
theorem circular_keeps_value_cycleLater :
    ∃ results t, (evaluateAll (.int 1) {}).run (after (create {}) cycleLater) = (.ok results, t) ∧
      results.get? "left" = some (.int 6) ∧ results.get? "right" = some (.int 8) := by
  have hok : ((evaluateAll (.int 1) {}).run (after (create {}) cycleLater)).1.isOk := by decide +kernel
  have hleft : isInt 6 (settlements {} cycleLater "left").getLast? := by decide +kernel
  have hright : (settlements {} cycleLater "right").getLast?.isNone := by decide +kernel
  have hdefault : isInt 8 (some (declaredDefault cycleLater "right")) := by decide +kernel
  obtain ⟨results, t, hrun⟩ := exists_of_isOk hok
  have hshown (f : String) := circular_keeps_value (f := f) {} cycleLater hrun
  refine ⟨results, t, hrun, ?_, ?_⟩
  · rw [hshown "left" (by decide +kernel) (by decide +kernel), eq_int_of_isInt hleft]
    rfl
  · rw [hshown "right" (by decide +kernel) (by decide +kernel), Option.isNone_iff_eq_none.mp hright]
    exact eq_int_of_isInt hdefault

end Session

end LiveForm
