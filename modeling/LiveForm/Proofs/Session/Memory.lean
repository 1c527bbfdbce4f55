import LiveForm.Proofs.Session.Lockstep

/-! # What a session remembers is true

Every answer in the cache has been the reply of the engine, for the expression and the snapshot of its
key. No operation remembers anything else, so what a pass is answered is always a reply, be it recalled
or new. In particular a field that failed has no value, also when its failure is recalled. -/

namespace LiveForm.Session

open LiveForm.Action

/-- What the engine remembers of texts is what reading them gives, and every entry of the cache answers
a consultation. -/
structure Truthful (s : Session) : Prop where
  faithful : s.engine.Faithful
  backed : ∀ key e, s.cache.Holds key e → ∃ b : Consultation, b.Backs key e

section Truthful

variable {s t : Session}

theorem Truthful.transfer (h : Truthful s) (he : t.engine.Faithful)
    (hc : ∀ key e, t.cache.Holds key e → s.cache.Holds key e) : Truthful t :=
  ⟨he, fun key e hk => h.backed key e (hc key e hk)⟩

theorem Outward.truthful {g : Session → Session} (hg : Outward g) (h : Truthful s) :
    Truthful (g s) := h.transfer (hg.faithful s h.faithful) (hg.holds s)

end Truthful

/-- A computation that remembers nothing false, whether it answers or aborts. -/
def StaysTruthful {α : Type} (x : Action α) : Prop := ∀ s, Truthful s → Truthful (x.run s).2

namespace StaysTruthful

variable {α β : Type} {x : Action α} {f : α → Action β}

theorem pure (a : α) : StaysTruthful (Pure.pure a) := fun _ h => h

theorem orAbort (r : Except Abort α) : StaysTruthful (Session.orAbort r) := by
  intro s h
  rw [run_orAbort]
  exact h

theorem modify {g : Session → Session} (hg : Outward g) : StaysTruthful (modify g) :=
  fun _ h => hg.truthful h

theorem onEngine {y : Engine.Action α} {r : Except Abort α} (hy : Engine.Answers y r) :
    StaysTruthful (Session.onEngine y) := by
  intro s h
  obtain ⟨g, hg, hr⟩ := run_onEngine hy h.faithful
  rw [hr]
  exact h.transfer hg fun _ _ hk => hk

theorem bind (hx : StaysTruthful x) (hf : ∀ a, StaysTruthful (f a)) : StaysTruthful (x >>= f) := by
  intro s h
  have ht := hx s h
  rw [run_bind]
  cases hrun : x.run s with
  | mk r t =>
    rw [hrun] at ht
    cases r with
    | error c => exact ht
    | ok a => exact hf a t ht

theorem get {k : Session → Action α} (hk : ∀ s, StaysTruthful (k s)) :
    StaysTruthful (MonadState.get >>= k) := by
  intro s h
  rw [run_bind_ok (run_get s)]
  exact hk s s h

theorem foldlM {step : β → α → Action β} (h : ∀ b a, StaysTruthful (step b a)) (as : List α) (b : β) :
    StaysTruthful (as.foldlM step b) := by
  induction as generalizing b with
  | nil => exact .pure b
  | cons a rest ih =>
    rw [List.foldlM_cons]
    exact .bind (h b a) ih

end StaysTruthful

/-! ## Passes -/

section Answer

variable {now : Number} {n : Node} {expression : String} {working : Context}

theorem truthful_answer : StaysTruthful (answer now n expression working) := by
  intro s h
  cases hq : consult now n expression working with
  | error c =>
    obtain ⟨g, hg, hr⟩ := answer_aborted h.faithful hq
    rw [hr]
    exact h.transfer hg fun _ _ hk => hk
  | ok q =>
    obtain ⟨-, htime, -, rfl, hsnapshot⟩ := consult_eq_ok hq
    cases hget : (s.cache.get now q.key).1 with
    | some a =>
      obtain ⟨g, hg, hr⟩ := answer_recalled h.faithful hq hget
      rw [hr]
      exact h.transfer hg fun _ _ hk => hk.of_get
    | none =>
      obtain ⟨g, hg, hr⟩ := answer_new h.faithful hq hget
      rw [hr]
      cases hreply : Engine.reply q.key.expression q.scope with
      | error c => exact h.transfer hg fun _ _ hk => hk.of_get
      | ok a =>
        refine ⟨hg, fun key e hk => ?_⟩
        rcases hk.of_set with hk | ⟨rfl, rfl⟩
        · exact h.backed key e hk.of_get
        · exact ⟨q, rfl, htime, hsnapshot, hreply⟩

/-- Recalled or new, an answer is a reply to the expression. -/
theorem Truthful.reply_of_answer {s t : Session} (h : Truthful s) {a : Answer}
    (hrun : (answer now n expression working).run s = (.ok a, t)) :
    ∃ scope, Engine.reply expression scope = .ok a := by
  cases hq : consult now n expression working with
  | error c =>
    obtain ⟨g, -, hr⟩ := answer_aborted h.faithful hq
    cases hrun.symm.trans hr
  | ok q =>
    obtain ⟨-, -, -, rfl, -⟩ := consult_eq_ok hq
    cases hget : (s.cache.get now q.key).1 with
    | some b =>
      obtain ⟨g, -, hr⟩ := answer_recalled h.faithful hq hget
      obtain rfl := Except.ok.inj (Prod.mk.inj (hrun.symm.trans hr)).1
      obtain ⟨-, e, hk, -, rfl⟩ := Cache.holds_of_get (Prod.ext hget rfl)
      obtain ⟨b, hb⟩ := h.backed q.key e hk
      exact ⟨b.scope, hb.reply_eq⟩
    | none =>
      obtain ⟨g, -, hr⟩ := answer_new h.faithful hq hget
      cases hreply : Engine.reply q.key.expression q.scope with
      | error c =>
        rw [hreply] at hr
        cases hrun.symm.trans hr
      | ok b =>
        rw [hreply] at hr
        obtain rfl := Except.ok.inj (Prod.mk.inj (hrun.symm.trans hr)).1
        exact ⟨q.scope, hreply⟩

/-- A field that failed has no value, whether it has failed now or before. -/
theorem Truthful.value_eq_null {s t : Session} (h : Truthful s) {a : Answer}
    (hrun : (answer now n expression working).run s = (.ok a, t)) (he : a.error.isSome) :
    a.value = .null := by
  obtain ⟨scope, hreply⟩ := h.reply_of_answer hrun
  exact Engine.value_eq_null_of_reply hreply he

end Answer

theorem truthful_modifyNode (id : String) (f : Node → Node) : StaysTruthful (modifyNode id f) :=
  .modify (outward_graph fun g => { g with nodes := g.nodes.modify id f })

theorem truthful_step (now : Number) (raw : Context) (p : Pass) (id : String) :
    StaysTruthful (step now raw p id) := by
  refine .get fun s => ?_
  cases s.graph.nodes.get? id with
  | none => exact .pure p
  | some n =>
    dsimp only
    cases n.expression with
    | some expression =>
      refine .bind truthful_answer fun a => ?_
      exact .bind (truthful_modifyNode _ _) fun _ => .get fun s => .orAbort _
    | none =>
      dsimp only
      unfold stepPlain
      cases plainValue? raw n p with
      | some v => exact .bind (truthful_modifyNode _ _) fun _ => .get fun s => .orAbort _
      | none => exact .bind (truthful_modifyNode _ _) fun _ => .pure _

theorem truthful_opening (offer : Offer) : StaysTruthful (opening offer) := by
  refine .bind (.modify (outward_graph Graph.settle)) fun _ => ?_
  refine .bind (.orAbort _) fun layers => ?_
  exact .get fun s => .bind (.orAbort _) fun working => .pure _

theorem truthful_evaluateAll (now : Number) (offer : Offer) :
    StaysTruthful (evaluateAll now offer) := by
  have hsweep : StaysTruthful (sweep now offer) := by
    refine .bind (truthful_opening offer) fun r => ?_
    exact .get fun s => .foldlM (truthful_step now r.1) _ _
  exact .bind hsweep fun p => .get fun s => .bind (.modify (outward_publish _)) fun _ => .pure _

/-! ## Histories -/

theorem truthful_register (id : String) (text : Option String) (declared : Option (List String))
    (default : Value) : StaysTruthful (register id text declared default) := by
  unfold register
  generalize expressionOf text = expression
  have hrest (references : List String) : StaysTruthful (do
      let extracted ← orAbort (withHeads references (← get).graph.nodes.keys)
      let row ← orAbort (RowRef.parse? id)
      modify fun s => s.enter id row expression (declared.getD extracted) default) := by
    refine .get fun s => .bind (.orAbort _) fun extracted => ?_
    exact .bind (.orAbort _) fun row => .modify (outward_enter id row _ _ default)
  cases expression with
  | none => exact hrest []
  | some e => exact .bind (.onEngine (Engine.answers_dependencies e)) hrest

theorem truthful_unregister (id : String) : StaysTruthful (unregister id) := by
  refine .get fun s => .bind (.modify (outward_drop id)) fun _ => ?_
  refine .bind (.orAbort _) fun row => ?_
  cases row with
  | none => exact .pure _
  | some row => exact .bind (.modify (outward_unlinkRow row id)) fun _ => .pure _

theorem Truthful.perform {s : Session} (h : Truthful s) (op : Operation) : Truthful (op.perform s) := by
  cases op with
  | register id text declared default => exact truthful_register id text declared default s h
  | registerArray array children => exact (outward_registerArray array children).truthful h
  | unregister id => exact truthful_unregister id s h
  | evaluateAll now offer => exact truthful_evaluateAll now offer s h
  | evaluateOnce text scope =>
    have hrun : StaysTruthful (evaluateOnce text scope) :=
      .bind (.modify outward_evaluations) fun _ => .onEngine (Engine.answers_evaluate text scope)
    exact hrun s h
  | clearCache => exact outward_clearCache.truthful h
  | close => exact outward_close.truthful h

/-- **After any history, passes that abort included, every answer in the cache has been a reply.** -/
theorem truthful_after (settings : Settings) (ops : List Operation) :
    Truthful (after (create settings) ops) := by
  have hrun (s : Session) (h : Truthful s) : Truthful (after s ops) := by
    induction ops generalizing s with
    | nil => exact h
    | cons op rest ih => exact ih _ (h.perform op)
  exact hrun _ ⟨Engine.faithful_new, fun key e hk => absurd hk (Cache.not_holds_new _)⟩

end LiveForm.Session
