import LiveForm.Proofs.Session.Registration
import LiveForm.Proofs.Session.Upkeep

/-! # No field is computed from a value that changes later

While a pass goes through the order, every computed field that is done reports what its expression
evaluates to in the working context as it is now. A later step writes under an id that is not done,
and no such id is read by an expression that is done: what it reads are dependencies, which are done
before it, or reserved names, which no field has. -/

namespace LiveForm.Session

open LiveForm.Action

/-- A pass reports of a field what its expression evaluates to in the working context. -/
def Explains (p : Pass) (id text : String) : Prop :=
  ∃ a, Engine.reply text (Context.scope p.working) = .ok a ∧
    p.results.get? id = some a.value ∧ p.errors.get? id = a.error

/-- How far a pass has come that started in a session of simple fields. -/
structure Advancing (start : Session) (done : List String) (p : Pass) (s : Session) : Prop where
  faithful : s.engine.Faithful
  stable : s.graph.stable = start.graph.stable
  answered : ∀ key e, s.cache.Holds key e → key.field ∈ done
  pending : ∀ id, id ∉ done → p.errors.get? id = none
  explained : ∀ id ∈ done, ∀ n text, start.graph.nodes.get? id = some n →
    n.expression = some text → Explains p id text

section Steps

variable {start s t : Session} {done rest : List String} {p q : Pass} {id : String} {n : Node}
  {now : Number} {raw : Context}

/-- The expression of a node evaluates to the same in scopes that agree on its dependencies and on
reserved names. -/
theorem Covered.reply_eq (h : Covered n) {text : String} (ht : n.expression = some text)
    {σ τ : Scope} (hd : ∀ x ∈ n.dependencies, τ x = σ x) (hr : ∀ x, Expr.isReserved x → τ x = σ x) :
    Engine.reply text τ = Engine.reply text σ := by
  refine Engine.reply_congr fun e he => e.evaluateWithin_congr_of_probes depthLimit fun x hx => ?_
  obtain ⟨hplain, hsub⟩ := h text e ht he
  by_cases hres : Expr.isReserved x
  · exact hr x hres
  · exact hd x (hsub ((Expr.mem_mentions_iff hplain).mpr ⟨hx, hres⟩))

theorem Explains.mono {text : String} {x : String} (h : Explains p x text) (he : p.Elsewhere id q)
    (hx : x ≠ id) (hrep : Engine.reply text (Context.scope q.working) =
      Engine.reply text (Context.scope p.working)) : Explains q x text := by
  obtain ⟨a, ha, hres, herr⟩ := h
  exact ⟨a, hrep.trans ha, (he.results x hx).trans hres, (he.errors x hx).trans herr⟩

theorem Registered.next_not_done (hs : Registered start)
    (ho : start.graph.order = done ++ id :: rest) : id ∉ done := by
  obtain ⟨E, hE⟩ := hs.consistent
  exact hE.next_not_done ho

theorem Registered.next_mem_keys (hs : Registered start)
    (ho : start.graph.order = done ++ id :: rest) : id ∈ start.graph.nodes.keys := by
  obtain ⟨E, hE⟩ := hs.consistent
  exact hE.next_mem_keys ho

/-- Writing under the next id changes no reply of a field that is done, nor the one of the next field
itself. -/
theorem Registered.reply_eq (hs : Registered start) (ho : start.graph.order = done ++ id :: rest)
    (he : p.Elsewhere id q) {x : String} (hx : x ∈ done ++ [id])
    (hn : start.graph.nodes.get? x = some n) {text : String} (ht : n.expression = some text) :
    Engine.reply text (Context.scope q.working) = Engine.reply text (Context.scope p.working) := by
  obtain ⟨E, hE⟩ := hs.consistent
  refine (hs.covered x n hn).reply_eq ht (fun d hd => ?_) fun r hr => ?_
  · have hdone := hE.mem_of_dependsOn ho hx ⟨n, hn, hd⟩
    exact he.working d fun heq => hs.next_not_done ho (heq ▸ hdone)
  · exact he.working r fun heq => (hs.named id (hs.next_mem_keys ho)).2 (heq ▸ hr)

/-- What is done stays explained when the next id is written, so only that one has to be explained. -/
theorem Advancing.extend (hs : Registered start) (ho : start.graph.order = done ++ id :: rest)
    (h : Advancing start done p s) (he : p.Elsewhere id q) (hf : t.engine.Faithful)
    (hg : t.graph.stable = s.graph.stable)
    (hc : ∀ key e, t.cache.Holds key e → s.cache.Holds key e ∨ key.field = id)
    (hid : ∀ n text, start.graph.nodes.get? id = some n → n.expression = some text →
      Explains q id text) : Advancing start (done ++ [id]) q t := by
  refine ⟨hf, hg.trans h.stable, fun key e hk => ?_, fun x hx => ?_, fun x hx n text hn ht => ?_⟩
  · rcases hc key e hk with hk | hk
    · exact List.mem_append_left _ (h.answered key e hk)
    · exact List.mem_append_right _ (by simp [hk])
  · obtain ⟨hxd, hxi⟩ := not_or.mp (mt List.mem_append.mpr hx)
    rw [he.errors x (by simpa using hxi)]
    exact h.pending x hxd
  · have hrep := hs.reply_eq ho he hx hn ht
    rcases List.mem_append.mp hx with hx | hx
    · exact (h.explained x hx n text hn ht).mono he
        (fun heq => hs.next_not_done ho (heq ▸ hx)) hrep
    · obtain rfl := List.mem_singleton.mp hx
      exact hid n text hn ht

/-- The node of the next id is the one that the session has started with, up to what passes write. -/
theorem Advancing.next_node (hs : Registered start) (ho : start.graph.order = done ++ id :: rest)
    (h : Advancing start done p s) :
    ∃ m n, start.graph.nodes.get? id = some m ∧ s.graph.nodes.get? id = some n ∧ n.id = id ∧
      n.expression = m.expression := by
  obtain ⟨E, hE⟩ := hs.consistent
  obtain ⟨m, n, hm, hn, hid, hstable⟩ := hE.next_node h.stable ho
  exact ⟨m, n, hm, hn, hid, (Node.eq_of_stable_eq hstable).2⟩

/-- A computed field gets the reply to its expression, since no answer of it is remembered yet. -/
theorem Advancing.reply_of_answer (hs : Registered start)
    (ho : start.graph.order = done ++ id :: rest) (h : Advancing start done p s)
    (hid : n.id = id) {expression : String} {a : Answer}
    (ha : (answer now n expression p.working).run s = (.ok a, t)) :
    Engine.reply expression (Context.scope p.working) = .ok a := by
  subst hid
  have hlocal : isLocalName n.id := (hs.named n.id (hs.next_mem_keys ho)).1
  obtain ⟨scope, hscope, hreply⟩ := Session.reply_of_answer h.faithful
    (fun key e hk heq => hs.next_not_done ho (heq ▸ h.answered key e hk)) ha
  rw [scopeOf_of_isLocalName hlocal] at hscope
  rwa [Except.ok.inj hscope]

/-- One step, over the next id of the order. -/
theorem Advancing.step (hs : Registered start) (ho : start.graph.order = done ++ id :: rest)
    (h : Advancing start done p s) (hrun : (step now raw p id).run s = (.ok q, t)) :
    Advancing start (done ++ [id]) q t := by
  obtain ⟨m, n, hm, hn, hid, hexpr⟩ := h.next_node hs ho
  have hlocal : isLocalName n.id := hid ▸ (hs.named id (hs.next_mem_keys ho)).1
  have hrun := get_answers hrun
  simp only [hn] at hrun
  cases hc : n.expression with
  | none =>
    simp only [hc] at hrun
    obtain ⟨he, heng, hcache, hg⟩ := stepPlain_returns hlocal hrun
    refine h.extend hs ho (hid ▸ he) (heng ▸ h.faithful) hg (fun key e hk => ?_)
      fun k text hk ht => ?_
    · exact .inl (hcache ▸ hk)
    · obtain rfl := Option.some.inj (hm.symm.trans hk)
      rw [← hexpr, hc] at ht
      cases ht
  | some expression =>
    simp only [hc] at hrun
    obtain ⟨a, u, ha, he, hres, herr, heng, hcache, hg⟩ := stepComputed_returns hlocal hrun
    obtain ⟨hug, hfaithful, hholds, -⟩ := answer_returns h.faithful ha
    have hreply := h.reply_of_answer hs ho hid ha
    rw [hid] at he hres herr hholds
    refine h.extend hs ho he (heng ▸ hfaithful) (hg.trans (congrArg Graph.stable hug))
      (hcache ▸ hholds) fun k text hk ht => ?_
    have hrep := hs.reply_eq ho he (List.mem_append_right done List.mem_cons_self) hk ht
    obtain rfl := Option.some.inj (hm.symm.trans hk)
    rw [← hexpr, hc] at ht
    obtain rfl := Option.some.inj ht
    refine ⟨a, hrep.trans hreply, hres, ?_⟩
    rw [herr, h.pending id (hs.next_not_done ho), Option.or_none]

/-- All steps, by induction on what is left of the order. -/
theorem Advancing.steps (hs : Registered start) (ho : start.graph.order = done ++ rest)
    (h : Advancing start done p s) (hrun : (rest.foldlM (Session.step now raw) p).run s = (.ok q, t)) :
    Advancing start start.graph.order q t := by
  induction rest generalizing done p s with
  | nil =>
    obtain ⟨rfl, rfl⟩ := pure_answers hrun
    rw [ho, List.append_nil]
    exact h
  | cons id rest ih =>
    rw [List.foldlM_cons] at hrun
    obtain ⟨r, u, hr, hrun⟩ := bind_answers hrun
    exact ih (by rw [ho, List.append_assoc]; rfl) (h.step hs ho hr) hrun

end Steps

/-- A pass starts with nothing done. -/
theorem advancing_opening {start s : Session} (hs : Registered start) {offer : Offer}
    {raw : Context} {p : Pass} (h : (opening offer).run start = (.ok (raw, p), s)) :
    Advancing start [] p s ∧ s.graph = start.graph := by
  obtain ⟨E, hE⟩ := hs.consistent
  obtain ⟨layers, working, -, -, rfl, -, rfl⟩ := opening_eq_ok h
  have hg : start.graph.settle = start.graph := hE.settled.settle_eq
  refine ⟨⟨hs.faithful, congrArg Graph.stable hg, ?_, fun _ _ => rfl, fun _ h => by cases h⟩, hg⟩
  exact fun key e hk => absurd hk (hs.unanswered key e)

theorem advancing_sweep {start s : Session} (hs : Registered start) {now : Number} {offer : Offer}
    {p : Pass} (h : (sweep now offer).run start = (.ok p, s)) :
    Advancing start start.graph.order p s := by
  obtain ⟨raw, q, u, hu, hsteps⟩ := sweep_eq_ok h
  obtain ⟨hq, hg⟩ := advancing_opening hs hu
  rw [hg] at hsteps
  exact hq.steps hs rfl hsteps

/-- **No field is computed from a value that changes later.** In a session of simple fields, what a
pass reports of a computed field that is not circular, value and error, is what the expression
evaluates to in the final working context of the pass. -/
theorem evaluateAll_consistent (settings : Settings) (ops : List Operation)
    (hops : ∀ op ∈ ops, op.isSimple) (now : Number) (offer : Offer) {results : Context} {s : Session}
    (h : (evaluateAll now offer).run (after (create settings) ops) = (.ok results, s)) :
    ∃ p t, (sweep now offer).run (after (create settings) ops) = (.ok p, t) ∧
      ∀ id n expression, s.graph.nodes.get? id = some n → n.expression = some expression →
        id ∉ s.graph.circular →
        ∃ a g, (Engine.evaluate expression (Context.scope p.working)).run s.engine = (.ok a, g) ∧
          results.get? id = some a.value ∧ s.errors.get? id = a.error := by
  have hs := registered_after settings hops
  obtain ⟨p, t, hp, rfl, rfl⟩ := evaluateAll_returns h
  refine ⟨p, t, hp, fun id n expression hn he hc => ?_⟩
  have hadv := advancing_sweep hs hp
  obtain ⟨E, hE⟩ := hs.consistent
  obtain ⟨m, hm, hstable⟩ := Graph.get?_of_stable_eq hadv.stable hn
  have hcirc := Graph.circular_eq_of_stable_eq hadv.stable
  have horder : id ∈ (after (create settings) ops).graph.order := by
    by_contra ho
    refine hc (hcirc ▸ hE.mem_circular_iff.mpr ⟨?_, ho⟩)
    exact (hE.mirrors.node_iff id).mp (Table.mem_keys_of_get? hm)
  obtain ⟨a, ha, hres, herr⟩ := hadv.explained id horder m expression hm
    ((Node.eq_of_stable_eq hstable).2.trans he)
  obtain ⟨g, hg, -⟩ := Engine.answers_evaluate expression (Context.scope p.working) t.engine
    hadv.faithful
  obtain ⟨hr, he⟩ := foldl_addCircular (p := p) t.graph.nodes hc
  exact ⟨a, g, hg.trans (by rw [ha]), hr.trans hres, he.trans herr⟩

/-- A sum that is registered before what it is made of. -/
def dueBeforeTotal : List Operation :=
  [.register "due" (some "total + fee") none .null,
    .register "total" (some "price * quantity") none .null]

/-- The pass reports of the sum what it evaluates to in the final working context. -/
theorem evaluateAll_dueBeforeTotal :
    (∀ op ∈ dueBeforeTotal, op.isSimple) ∧
      ∃ offer results s p t a g,
        (evaluateAll (.int 0) offer).run (after (create {}) dueBeforeTotal) = (.ok results, s) ∧
        (sweep (.int 0) offer).run (after (create {}) dueBeforeTotal) = (.ok p, t) ∧
        (Engine.evaluate "total + fee" (Context.scope p.working)).run s.engine = (.ok a, g) ∧
        results.get? "due" = some a.value ∧ s.errors.get? "due" = a.error := by
  have hops : ∀ op ∈ dueBeforeTotal, op.isSimple := by decide +kernel
  let offer : Offer :=
    { raw := ⟨[(.text "price", .int 5), (.text "quantity", .int 3), (.text "fee", .int 2)]⟩ }
  let run := (evaluateAll (.int 0) offer).run (after (create {}) dueBeforeTotal)
  have hok : run.1.isOk := by decide +kernel
  have hnode : ((run.2.graph.nodes.get? "due").bind Node.expression) = some "total + fee" := by
    decide +kernel
  have hcirc : "due" ∉ run.2.graph.circular := by decide +kernel
  cases hrun : run with
  | mk outcome s =>
    rw [hrun] at hok hnode hcirc
    cases outcome with
    | error c => cases hok
    | ok results =>
      obtain ⟨p, t, hp, hall⟩ := evaluateAll_consistent {} dueBeforeTotal hops (.int 0) offer hrun
      obtain ⟨n, hn, he⟩ := Option.bind_eq_some_iff.mp hnode
      obtain ⟨a, g, ha, hres, herr⟩ := hall "due" n "total + fee" hn he hcirc
      exact ⟨hops, offer, results, s, p, t, a, g, hrun, hp, ha, hres, herr⟩

end LiveForm.Session
