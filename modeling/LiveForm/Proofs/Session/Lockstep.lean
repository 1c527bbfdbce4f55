import LiveForm.Proofs.Session.History

/-! # Two sessions in lockstep

Two sessions that show the same, but remember answers for different lengths of time, are driven by
the same operations. What they remember is accounted for by the consultations so far: every entry of
a cache is the answer to one of them. Operations other than a pass do the same to both. -/

namespace LiveForm.Session

open LiveForm.Action

/-- What a session shows: all but what it remembers and for how long. -/
def face (s : Session) : Session :=
  { s with
    settings := { s.settings with stalenessWindow := 0 }
    engine := {}
    cache := {}
    evaluations := 0 }

/-- An entry of a cache answers a consultation. -/
structure Consultation.Backs (b : Consultation) (key : CacheKey) (e : CacheEntry Answer) :
    Prop where
  key_eq : b.key = key
  time_eq : b.time = e.time
  snapshot_eq : snapshot b.scope b.ids = .ok key.snapshot
  reply_eq : Engine.reply key.expression b.scope = .ok e.result

/-- Every entry of a cache answers one of these consultations. -/
def Accounted (log : List Consultation) (c : Cache Answer) : Prop :=
  ∀ key e, c.Holds key e → ∃ b ∈ log, b.Backs key e

/-- What is known of the memory of a session. -/
structure Remembers (window : Number) (log : List Consultation) (s : Session) : Prop where
  faithful : s.engine.Faithful
  window_eq : s.cache.window = window
  accounted : Accounted log s.cache

/-- Two sessions that show the same. The second remembers nothing that is older than no time. -/
structure Lockstep (window : Number) (log : List Consultation) (s r : Session) : Prop where
  face_eq : s.face = r.face
  left : Remembers window log s
  right : Remembers (.float 0) log r

section Remembers

variable {window : Number} {log log' : List Consultation} {s t : Session}

theorem Remembers.mono (h : Remembers window log s) (hl : log ⊆ log') :
    Remembers window log' s := by
  refine ⟨h.faithful, h.window_eq, fun key e he => ?_⟩
  obtain ⟨b, hb, hrest⟩ := h.accounted key e he
  exact ⟨b, hl hb, hrest⟩

theorem Remembers.transfer (h : Remembers window log s) (he : t.engine.Faithful)
    (hw : t.cache.window = s.cache.window) (hc : ∀ k e, t.cache.Holds k e → s.cache.Holds k e) :
    Remembers window log t :=
  ⟨he, hw.trans h.window_eq, fun key e hk => h.accounted key e (hc key e hk)⟩

/-- A new answer that is remembered is accounted for by its consultation. -/
theorem Remembers.set (h : Remembers window log s) {q : Consultation} {a : Answer} {now : Number}
    (hq : q.Backs q.key ⟨a, now⟩) (he : t.engine.Faithful) (hw : t.cache.window = s.cache.window)
    (hc : ∀ k e, t.cache.Holds k e → s.cache.Holds k e ∨ (k = q.key ∧ e = ⟨a, now⟩)) :
    Remembers window (log ++ [q]) t := by
  refine ⟨he, hw.trans h.window_eq, fun key e hk => ?_⟩
  rcases hc key e hk with hk | ⟨rfl, rfl⟩
  · obtain ⟨b, hb, hrest⟩ := h.accounted key e hk
    exact ⟨b, List.mem_append_left _ hb, hrest⟩
  · exact ⟨q, by simp, hq⟩

end Remembers

theorem Lockstep.mono {window : Number} {log log' : List Consultation} {s r : Session}
    (h : Lockstep window log s r) (hl : log ⊆ log') : Lockstep window log' s r :=
  ⟨h.face_eq, h.left.mono hl, h.right.mono hl⟩

/-- A change that depends only on what a session shows, and by which it remembers no more. -/
structure Outward (g : Session → Session) : Prop where
  face_eq : ∀ s, (g s).face = (g s.face).face
  faithful : ∀ s : Session, s.engine.Faithful → (g s).engine.Faithful
  window_eq : ∀ s, (g s).cache.window = s.cache.window
  holds : ∀ s k e, (g s).cache.Holds k e → s.cache.Holds k e

theorem Lockstep.change {window : Number} {log : List Consultation} {s r : Session}
    (h : Lockstep window log s r) {g : Session → Session} (hg : Outward g) :
    Lockstep window log (g s) (g r) := by
  refine ⟨by rw [hg.face_eq s, h.face_eq, ← hg.face_eq r], ?_, ?_⟩
  · exact h.left.transfer (hg.faithful s h.left.faithful) (hg.window_eq s) (hg.holds s)
  · exact h.right.transfer (hg.faithful r h.right.faithful) (hg.window_eq r) (hg.holds r)

/-- A computation that answers alike in two sessions and leaves them in lockstep. -/
def Alike {α : Type} (window : Number) (log : List Consultation) (x : Action α) (s r : Session) :
    Prop :=
  (x.run s).1 = (x.run r).1 ∧ Lockstep window log (x.run s).2 (x.run r).2

section Alike

variable {α β : Type} {window : Number} {log log' : List Consultation} {s r : Session}
  {x : Action α} {f : α → Action β}

theorem Alike.pure (h : Lockstep window log s r) (a : α) : Alike window log (Pure.pure a) s r :=
  ⟨rfl, h⟩

theorem Alike.orAbort (h : Lockstep window log s r) (o : Except Abort α) :
    Alike window log (Session.orAbort o) s r := by
  unfold Alike
  rw [run_orAbort, run_orAbort]
  exact ⟨rfl, h⟩

/-- The second part of a sequence may account for more. -/
theorem Alike.grow (hl : log ⊆ log') (hx : Alike window log x s r)
    (hf : ∀ a t u, x.run s = (.ok a, t) → x.run r = (.ok a, u) → Lockstep window log t u →
      Alike window log' (f a) t u) :
    Alike window log' (x >>= f) s r := by
  obtain ⟨ho, hlock⟩ := hx
  unfold Alike
  rw [run_bind, run_bind]
  cases hs : x.run s with
  | mk o t =>
    cases hr : x.run r with
    | mk o' u =>
      rw [hs, hr] at ho hlock
      obtain rfl : o = o' := ho
      cases o with
      | error c => exact ⟨rfl, hlock.mono hl⟩
      | ok a => exact hf a t u hs hr hlock

theorem Alike.bind (hx : Alike window log x s r)
    (hf : ∀ a t u, Lockstep window log t u → Alike window log (f a) t u) :
    Alike window log (x >>= f) s r :=
  hx.grow (fun _ h => h) fun a t u _ _ => hf a t u

theorem Alike.onEngine (h : Lockstep window log s r) {y : Engine.Action α} {o : Except Abort α}
    (hy : Engine.Answers y o) : Alike window log (Session.onEngine y) s r := by
  obtain ⟨g, hg, hs⟩ := run_onEngine hy h.left.faithful
  obtain ⟨g', hg', hr⟩ := run_onEngine hy h.right.faithful
  unfold Alike
  rw [hs, hr]
  exact ⟨rfl, h.face_eq, h.left.transfer hg rfl fun _ _ hk => hk,
    h.right.transfer hg' rfl fun _ _ hk => hk⟩

theorem Alike.modify (h : Lockstep window log s r) {g : Session → Session} (hg : Outward g) :
    Alike window log (modify g) s r :=
  ⟨rfl, h.change hg⟩

/-- What is read of a session is read alike, if it shows. -/
theorem Alike.get (hface : s.face = r.face) {k : Session → Action α}
    (hk : ∀ s : Session, k s = k s.face) (ha : Alike window log (k s) s r) :
    Alike window log (get >>= k) s r := by
  have hrun (t : Session) : (MonadState.get >>= k).run t = (k t).run t := run_bind_ok (run_get t)
  unfold Alike
  rw [hrun, hrun, show k r = k s by rw [hk r, ← hface, ← hk s]]
  exact ha

end Alike

/-! ## Operations on the fields -/

theorem outward_registerArray (array : String) (children : List String) :
    Outward fun s => s.registerArray array children :=
  ⟨fun _ => rfl, fun _ h => h, fun _ => rfl, fun _ _ _ h => h⟩

theorem outward_graph (g : Graph → Graph) : Outward fun s => { s with graph := g s.graph } :=
  ⟨fun _ => rfl, fun _ h => h, fun _ => rfl, fun _ _ _ h => h⟩

theorem outward_publish (p : Pass) : Outward (publish p) :=
  ⟨fun _ => rfl, fun _ h => h, fun _ => rfl, fun _ _ _ h => h⟩

theorem outward_unlinkRow (row : RowRef) (id : String) : Outward (unlinkRow row id) :=
  ⟨fun _ => rfl, fun _ h => h, fun _ => rfl, fun _ _ _ h => h⟩

theorem outward_drop (id : String) : Outward (drop id) :=
  ⟨fun _ => rfl, fun _ h => h, fun _ => rfl, fun _ _ _ h => h.of_discard.1⟩

theorem outward_enter (id : String) (row : Option RowRef) (expression : Option String)
    (dependencies : List String) (default : Value) :
    Outward fun s => s.enter id row expression dependencies default := by
  cases row with
  | none => exact ⟨fun _ => rfl, fun _ h => h, fun _ => rfl, fun _ _ _ h => h.of_discard.1⟩
  | some row =>
    cases expression <;>
      exact ⟨fun _ => rfl, fun _ h => h, fun _ => rfl, fun _ _ _ h => h.of_discard.1⟩

theorem outward_clearCache : Outward clearCache :=
  ⟨fun _ => rfl, fun _ h => h, fun _ => rfl, fun _ _ _ h => by cases h⟩

theorem outward_close : Outward close :=
  ⟨fun _ => rfl, fun _ _ => Engine.faithful_new, fun _ => rfl, fun _ _ _ h => by cases h⟩

theorem outward_evaluations :
    Outward fun s => { s with evaluations := s.evaluations + 1 } :=
  ⟨fun _ => rfl, fun _ h => h, fun _ => rfl, fun _ _ _ h => h⟩

section Operations

variable {window : Number} {log : List Consultation} {s r : Session}

theorem alike_modifyNode (h : Lockstep window log s r) (id : String) (f : Node → Node) :
    Alike window log (modifyNode id f) s r :=
  .modify h (outward_graph fun g => { g with nodes := g.nodes.modify id f })

theorem alike_register (h : Lockstep window log s r) (id : String) (text : Option String)
    (declared : Option (List String)) (default : Value) :
    Alike window log (register id text declared default) s r := by
  unfold register
  generalize expressionOf text = expression
  have rest (references : List String) {s r : Session} (h : Lockstep window log s r) :
      Alike window log (do
        let extracted ← orAbort (withHeads references (← get).graph.nodes.keys)
        let row ← orAbort (RowRef.parse? id)
        modify fun s => s.enter id row expression (declared.getD extracted) default) s r := by
    refine .get h.face_eq (fun _ => rfl) (.bind (.orAbort h _) fun extracted _ _ h => ?_)
    refine .bind (.orAbort h _) fun row _ _ h => ?_
    exact .modify h (outward_enter id row _ _ default)
  cases expression with
  | none => exact rest [] h
  | some e =>
    exact .bind (.onEngine h (Engine.answers_dependencies e)) fun references _ _ h =>
      rest references h

theorem alike_unregister (h : Lockstep window log s r) (id : String) :
    Alike window log (unregister id) s r := by
  refine .get h.face_eq (fun _ => rfl) (.bind (.modify h (outward_drop id)) fun _ _ _ h => ?_)
  refine .bind (.orAbort h _) fun row _ _ h => ?_
  cases row with
  | none => exact .pure h (s.graph.unregister id).1
  | some row =>
    refine .bind (.modify h (outward_unlinkRow row id)) fun _ _ _ h => ?_
    exact .pure h (s.graph.unregister id).1

theorem alike_evaluateOnce (h : Lockstep window log s r) (text : String) (scope : Scope) :
    Alike window log (evaluateOnce text scope) s r :=
  .bind (.modify h outward_evaluations) fun _ _ _ h =>
    .onEngine h (Engine.answers_evaluate text scope)

/-- Operations that take no reading of the clock keep the lockstep. -/
theorem Lockstep.perform (h : Lockstep window log s r) {op : Operation} (ht : op.time? = none) :
    Lockstep window log (op.perform s) (op.perform r) := by
  cases op with
  | register id text declared default => exact (alike_register h id text declared default).2
  | registerArray array children => exact h.change (outward_registerArray array children)
  | unregister id => exact (alike_unregister h id).2
  | evaluateAll now offer => cases ht
  | evaluateOnce text scope => exact (alike_evaluateOnce h text scope).2
  | clearCache => exact h.change outward_clearCache
  | close => exact h.change outward_close

theorem alike_opening (h : Lockstep window log s r) (offer : Offer) :
    Alike window log (opening offer) s r := by
  refine .bind (.modify h (outward_graph Graph.settle)) fun _ _ _ h => ?_
  refine .bind (.orAbort h _) fun layers _ _ h => ?_
  exact .get h.face_eq (fun _ => rfl) (.bind (.orAbort h _) fun working _ _ h => .pure h _)

end Operations

end LiveForm.Session
