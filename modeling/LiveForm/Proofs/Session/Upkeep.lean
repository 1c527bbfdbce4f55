import LiveForm.Proofs.Graph.Cycles
import LiveForm.Proofs.Graph.Expressions
import LiveForm.Proofs.Session.History
import LiveForm.Proofs.Session.Pass

/-! # What a pass leaves as it finds it

The schedule looks at edges only, so writing into nodes does not change it. Whether it answers or
aborts, a pass writes nothing else into the graph, and it does not touch the rows that are linked to
arrays. -/

namespace LiveForm

theorem Node.edges_of_stable_eq {n m : Node} (h : n.stable = m.stable) :
    n.dependencies = m.dependencies ∧ n.dependents = m.dependents := by
  have hd : n.stable.dependencies = m.stable.dependencies := by rw [h]
  have hf : n.stable.dependents = m.stable.dependents := by rw [h]
  exact ⟨hd, hf⟩

namespace Graph

theorem contains_stable (nodes : Nodes) (x : String) :
    (nodes.mapValues Node.stable).contains x = nodes.contains x := by
  rw [Table.contains, Table.get?_mapValues, Option.isSome_map, Table.contains]

theorem degree_stable (nodes : Nodes) (n : Node) :
    degree (nodes.mapValues Node.stable) n.stable = degree nodes n := by
  have hc : (nodes.mapValues Node.stable).contains = nodes.contains :=
    funext fun x => contains_stable nodes x
  rw [degree, degree, hc]
  rfl

theorem start_stable (nodes : Nodes) :
    Sweep.start (nodes.mapValues Node.stable) = Sweep.start nodes := by
  have hd : (nodes.mapValues Node.stable).mapValues (degree (nodes.mapValues Node.stable)) =
      nodes.mapValues (degree nodes) := by
    simp only [Table.mapValues, List.map_map, Table.mk.injEq]
    exact List.map_congr_left fun e _ => Prod.ext rfl (degree_stable nodes e.2)
  simp only [Sweep.start, hd]

theorem place_stable (nodes : Nodes) (s : Sweep) (current : String) (rest : List String) :
    s.place (nodes.mapValues Node.stable) current rest = s.place nodes current rest := by
  unfold Sweep.place
  rw [Table.get?_mapValues, Option.map_map]
  rfl

theorem run_stable (nodes : Nodes) (rounds : Nat) (s : Sweep) :
    Sweep.run (nodes.mapValues Node.stable) rounds s = Sweep.run nodes rounds s := by
  induction rounds generalizing s with
  | zero => rfl
  | succ rounds ih =>
    unfold Sweep.run
    cases s.waiting with
    | nil => rfl
    | cons current rest => simp only [place_stable, ih]

/-- The schedule does not see what passes write into nodes. -/
theorem schedule_stable (nodes : Nodes) :
    schedule (nodes.mapValues Node.stable) = schedule nodes := by
  have hsize : (nodes.mapValues Node.stable).size = nodes.size := List.length_map _
  rw [schedule, schedule, hsize, start_stable, run_stable]

/-! ## Graphs that differ in what passes write -/

section Stable

variable {g h : Graph} {E : Edges}

theorem keys_of_stable_eq (hs : g.stable = h.stable) : g.nodes.keys = h.nodes.keys := by
  have hk : (g.nodes.mapValues Node.stable).keys = (h.nodes.mapValues Node.stable).keys :=
    congrArg (fun g : Graph => g.nodes.keys) hs
  rwa [Table.keys_mapValues, Table.keys_mapValues] at hk

theorem order_of_stable_eq (hs : g.stable = h.stable) : g.order = h.order := by
  have ho : g.stable.order = h.stable.order := by rw [hs]
  exact ho

theorem schedule_of_stable_eq (hs : g.stable = h.stable) : schedule g.nodes = schedule h.nodes := by
  rw [← schedule_stable g.nodes, ← schedule_stable h.nodes]
  exact congrArg (fun g : Graph => schedule g.nodes) hs

theorem Settled.of_stable_eq (hg : g.Settled) (hs : h.stable = g.stable) : h.Settled := by
  have horder : schedule h.nodes = h.order := by
    rw [schedule_of_stable_eq hs, ← hg.order_eq, order_of_stable_eq hs]
  have hcircular : (h.nodes.keys.filter fun id => !h.order.contains id) = h.circular := by
    rw [← horder, keys_of_stable_eq hs, schedule_of_stable_eq hs, ← hg.circular_eq,
      circular_eq_of_stable_eq hs]
  have hdirty : h.stable.isDirty = g.stable.isDirty := by rw [hs]
  have hclean : h.isDirty = false := hdirty.trans hg.isDirty_eq_false
  unfold Settled rebuild
  simp only [horder, hcircular, ← hclean]

theorem Mirrors.of_stable_eq (hg : Mirrors g.nodes E) (hs : h.stable = g.stable) :
    Mirrors h.nodes E := by
  refine ⟨keys_of_stable_eq hs ▸ hg.keys_nodup, fun x => ?_, fun x n hn => ?_, hg.closed⟩
  · rw [keys_of_stable_eq hs, hg.node_iff]
  · obtain ⟨m, hm, hnm⟩ := get?_of_stable_eq hs hn
    obtain ⟨hd, hf⟩ := Node.edges_of_stable_eq hnm
    have hshows := hg.shows x m hm
    exact ⟨(Node.eq_of_stable_eq hnm).1 ▸ hshows.id_eq, hd ▸ hshows.dependencies,
      hf ▸ hshows.dependents, hd ▸ hshows.dependencies_nodup, hf ▸ hshows.dependents_nodup⟩

theorem Consistent.of_stable_eq (hg : g.Consistent E) (hs : h.stable = g.stable) :
    h.Consistent E := ⟨hg.mirrors.of_stable_eq hs, hg.settled.of_stable_eq hs⟩

/-- The node of the next id of the order, up to what passes write. -/
theorem Consistent.next_node (hg : g.Consistent E) (hs : h.stable = g.stable)
    {done rest : List String} {id : String} (ho : g.order = done ++ id :: rest) :
    ∃ m n, g.nodes.get? id = some m ∧ h.nodes.get? id = some n ∧ n.id = id ∧
      n.stable = m.stable := by
  obtain ⟨m, hm⟩ := Table.exists_get?_of_mem_keys (hg.next_mem_keys ho)
  obtain ⟨n, hn, hstable⟩ := get?_of_stable_eq hs.symm hm
  have hid := (Node.eq_of_stable_eq hstable).1
  exact ⟨m, n, hm, hn, hid.trans (hg.mirrors.shows id m hm).id_eq, hstable⟩

theorem expressionAt_of_stable_eq (hs : g.stable = h.stable) (x : String) :
    g.expressionAt x = h.expressionAt x := by
  have he (g : Graph) : g.expressionAt x = g.stable.expressionAt x := by
    simp only [expressionAt, stable, Table.get?_mapValues]
    cases g.nodes.get? x <;> rfl
  rw [he g, he h, hs]

theorem dependsOn_iff_of_stable_eq (hs : g.stable = h.stable) (x d : String) :
    g.DependsOn x d ↔ h.DependsOn x d := by
  have hone {g h : Graph} (hs : g.stable = h.stable) : g.DependsOn x d → h.DependsOn x d := by
    rintro ⟨n, hn, hd⟩
    obtain ⟨m, hm, hnm⟩ := get?_of_stable_eq hs hn
    exact ⟨m, hm, (Node.edges_of_stable_eq hnm).1 ▸ hd⟩
  exact ⟨hone hs, hone hs.symm⟩

end Stable

end Graph

namespace Session

open LiveForm.Action

/-- What a pass does to a session before it publishes a report: the engine remembers more, nodes are
written into, expressions are counted, and the cache is asked and filled for nodes as they are. -/
inductive Touched : Session → Session → Prop
  | refl (s : Session) : Touched s s
  | trans {s t u : Session} (h : Touched s t) (h' : Touched t u) : Touched s u
  | engine {s : Session} {g : Engine} (hg : s.engine.Faithful → g.Faithful) :
      Touched s { s with engine := g }
  | count (s : Session) : Touched s { s with evaluations := s.evaluations + 1 }
  | write (s : Session) {f : Node → Node} (hf : ∀ n, (f n).stable = n.stable) (id : String) :
      Touched s { s with graph := { s.graph with nodes := s.graph.nodes.modify id f } }
  | ask (s : Session) (now : Number) (key : CacheKey) :
      Touched s { s with cache := (s.cache.get now key).2 }
  | remember {s : Session} {id : String} {n : Node} {key : CacheKey}
      (hn : s.graph.nodes.get? id = some n) (hfield : key.field = n.id)
      (hexpression : n.expression = some key.expression) (now : Number) (a : Answer) :
      Touched s { s with cache := s.cache.set now key a }

/-- What is the same of a session before and after a part of a pass. -/
structure Kept (s t : Session) : Prop where
  faithful : s.engine.Faithful → t.engine.Faithful
  stable : t.graph.stable = s.graph.stable
  rowLinks : t.rowLinks = s.rowLinks

namespace Kept

variable {s t u : Session}

theorem refl (s : Session) : Kept s s := ⟨id, rfl, rfl⟩

theorem trans (h : Kept s t) (h' : Kept t u) : Kept s u :=
  ⟨h'.faithful ∘ h.faithful, h'.stable.trans h.stable, h'.rowLinks.trans h.rowLinks⟩

end Kept

theorem Touched.kept {s t : Session} (h : Touched s t) : Kept s t := by
  induction h with
  | refl => exact .refl _
  | trans _ _ ih ih' => exact ih.trans ih'
  | engine hg => exact ⟨hg, rfl, rfl⟩
  | write s hf id => exact ⟨fun h => h, Graph.stable_modify hf s.graph id, rfl⟩
  | _ => exact ⟨id, rfl, rfl⟩

/-- A computation that does to a session what a pass may do, whether it answers or aborts. -/
def Touches {α : Type} (x : Action α) (s : Session) : Prop := Touched s (x.run s).2

section Touches

variable {α β : Type} {x : Action α} {f : α → Action β} {s : Session}

theorem Touches.pure (a : α) (s : Session) : Touches (Pure.pure a) s := .refl s

theorem Touches.orAbort (r : Except Abort α) (s : Session) : Touches (Session.orAbort r) s := by
  unfold Touches
  rw [run_orAbort]
  exact .refl s

theorem Touches.bind (hx : Touches x s)
    (hf : ∀ a t, x.run s = (.ok a, t) → Touched s t → Touches (f a) t) : Touches (x >>= f) s := by
  unfold Touches at hx ⊢
  rw [run_bind]
  cases hrun : x.run s with
  | mk r t =>
    rw [hrun] at hx
    cases r with
    | error c => exact hx
    | ok a => exact hx.trans (hf a t hrun hx)

theorem Touches.get {k : Session → Action α} (h : Touches (k s) s) :
    Touches (MonadState.get >>= k) s := by
  unfold Touches
  rw [run_bind_ok (run_get s)]
  exact h

theorem Touches.onEngine {y : Engine.Action α} {r : Except Abort α} (hy : Engine.Answers y r)
    (s : Session) : Touches (Session.onEngine y) s := by
  have hrun : (Session.onEngine y).run s =
      (onEngine.liftExcept (y.run s.engine).1).run { s with engine := (y.run s.engine).2 } := rfl
  have hstate : ((Session.onEngine y).run s).2 = { s with engine := (y.run s.engine).2 } := by
    rw [hrun]
    cases (y.run s.engine).1 <;> rfl
  unfold Touches
  rw [hstate]
  refine .engine fun hs => ?_
  obtain ⟨g, hg, hf⟩ := hy s.engine hs
  rw [hg]
  exact hf

theorem Touches.foldlM {step : β → α → Action β} (h : ∀ b a s, Touches (step b a) s)
    (as : List α) (b : β) (s : Session) : Touches (as.foldlM step b) s := by
  induction as generalizing b s with
  | nil => exact .pure b s
  | cons a rest ih =>
    rw [List.foldlM_cons]
    exact .bind (h b a s) fun c t _ _ => ih c t

end Touches

/-! ## The parts of a pass -/

section Parts

variable {now : Number} {raw : Context} {n : Node} {p : Pass} {s : Session}

theorem touches_modifyNode {f : Node → Node} (hf : ∀ n, (f n).stable = n.stable) (x : String)
    (s : Session) : Touches (modifyNode x f) s := .write s hf x

theorem touches_stepPlain (raw : Context) (n : Node) (p : Pass) (s : Session) :
    Touches (stepPlain raw n p) s := by
  unfold stepPlain
  cases plainValue? raw n p with
  | none =>
    exact .bind (touches_modifyNode (Node.stable_given .null) n.id s) fun _ t _ _ => .pure _ t
  | some v =>
    refine .bind (touches_modifyNode (Node.stable_given v) n.id s) fun _ t _ _ => ?_
    exact .get (.orAbort _ t)

theorem touches_lookup (n : Node) (expression : String) (working : Context) (s : Session) :
    Touches (lookup n expression working) s := by
  refine .bind (.orAbort _ s) fun scope t _ _ => ?_
  refine .bind (.onEngine (Engine.answers_dependencies expression) t) fun references t _ _ => ?_
  refine .bind (.orAbort _ t) fun read t _ _ => ?_
  exact .bind (.orAbort _ t) fun text t _ _ => .pure _ t

/-- A lookup is for the node and its expression. -/
theorem key_of_lookup {expression : String} {working : Context} {q : Scope × CacheKey} {t : Session}
    (h : (lookup n expression working).run s = (.ok q, t)) :
    q.2.field = n.id ∧ q.2.expression = expression := by
  obtain ⟨scope, -, h⟩ := orAbort_answers h
  obtain ⟨references, u, -, h⟩ := bind_answers h
  obtain ⟨read, -, h⟩ := orAbort_answers h
  obtain ⟨text, -, h⟩ := orAbort_answers h
  obtain ⟨rfl, -⟩ := pure_answers h
  exact ⟨rfl, rfl⟩

/-- Only an answer to a node that the graph has, for the expression that it has, is remembered. -/
theorem touches_answer {id expression : String} (hn : s.graph.nodes.get? id = some n)
    (he : n.expression = some expression) (now : Number) (working : Context) :
    Touches (answer now n expression working) s := by
  refine .bind (touches_lookup n expression working s) fun q t hq ht => ?_
  obtain ⟨hfield, hexpression⟩ := key_of_lookup hq
  refine .bind (Touched.ask t now q.2) fun found u _ hu => ?_
  cases found with
  | some a => exact .pure a u
  | none =>
    refine .bind (Touched.count u) fun _ v _ hv => ?_
    refine .bind (.onEngine (Engine.answers_evaluate expression q.1) v) fun a w _ hw => ?_
    obtain ⟨m, hm, hstable⟩ :=
      Graph.get?_of_stable_eq (ht.trans (hu.trans (hv.trans hw))).kept.stable.symm hn
    obtain ⟨hid, hme⟩ := Node.eq_of_stable_eq hstable
    have hset : Touches (modify fun s => { s with cache := s.cache.set now q.2 a }) w :=
      .remember hm (hfield.trans hid.symm) (by rw [hme, he, hexpression]) now a
    exact .bind hset fun _ t _ _ => .pure a t

theorem touches_step (now : Number) (raw : Context) (p : Pass) (id : String) (s : Session) :
    Touches (step now raw p id) s := by
  refine .get ?_
  cases hn : s.graph.nodes.get? id with
  | none => exact .pure p s
  | some n =>
    dsimp only
    cases he : n.expression with
    | none => exact touches_stepPlain raw n p s
    | some expression =>
      refine .bind (touches_answer hn he now p.working) fun a t _ _ => ?_
      refine .bind (touches_modifyNode (Node.stable_answered now a) n.id t) fun _ t _ _ => ?_
      exact .get (.orAbort _ t)

theorem touches_sweep (hs : s.graph.Settled) (now : Number) (offer : Offer) :
    Touches (sweep now offer) s := by
  have hsettle : Touches (modifyGraph Graph.settle) s := by
    show Touched s { s with graph := s.graph.settle }
    rw [hs.settle_eq]
    exact .refl s
  refine .bind ?_ fun r t _ _ => .get (.foldlM (fun p id s => touches_step now r.1 p id s) _ _ t)
  refine .bind hsettle fun _ t _ _ => .bind (.orAbort _ t) fun layers t _ _ => ?_
  exact .get (.bind (.orAbort _ t) fun working t _ _ => .pure _ t)

/-- **A pass that aborts has only touched the session; one that answers publishes a report besides.** -/
theorem run_evaluateAll (hs : s.graph.Settled) (now : Number) (offer : Offer) :
    (∃ c t, (evaluateAll now offer).run s = (.error c, t) ∧ Touched s t) ∨
      ∃ p t, (evaluateAll now offer).run s = (.ok p.results, publish p t) ∧ Touched s t := by
  have htouched := touches_sweep hs now offer
  unfold evaluateAll
  cases hrun : (sweep now offer).run s with
  | mk r t =>
    rw [Touches, hrun] at htouched
    cases r with
    | error c => exact .inl ⟨c, t, run_bind_error hrun, htouched⟩
    | ok p => exact .inr ⟨_, t, run_bind_ok hrun, htouched⟩

/-- An evaluation apart from the fields only has the engine remember more. -/
theorem touches_evaluateOnce (text : String) (scope : Scope) (s : Session) :
    Touches (evaluateOnce text scope) s :=
  .bind (Touched.count s) fun _ t _ _ => .onEngine (Engine.answers_evaluate text scope) t

end Parts

/-! ## What is kept of a session -/

/-- A computation that leaves what a pass has to leave, whether it answers or aborts. -/
def Keeps {α : Type} (x : Action α) (s : Session) : Prop := Kept s (x.run s).2

theorem keeps_step (now : Number) (raw : Context) (p : Pass) (id : String) (s : Session) :
    Keeps (step now raw p id) s := (touches_step now raw p id s).kept

/-- A pass over a graph that is up to date keeps what it has to, in every case. -/
theorem keeps_evaluateAll {s : Session} (hs : s.graph.Settled) (now : Number) (offer : Offer) :
    Keeps (evaluateAll now offer) s := by
  unfold Keeps
  rcases run_evaluateAll hs now offer with ⟨c, t, hrun, ht⟩ | ⟨p, t, hrun, ht⟩
  · rw [hrun]
    exact ht.kept
  · rw [hrun]
    exact ⟨ht.kept.faithful, ht.kept.stable, ht.kept.rowLinks⟩

end Session

end LiveForm
