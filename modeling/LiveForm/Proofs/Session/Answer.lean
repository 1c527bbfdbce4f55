import LiveForm.Proofs.Cache
import LiveForm.Proofs.Engine
import LiveForm.Proofs.Except
import LiveForm.Session

/-! # How a computed field gets its answer

A field is consulted in a scope: the scope gives the key, and the key either has an answer that is
still fresh, or the expression is evaluated and its answer is remembered. The four outcomes are
stated one by one, each with what it leaves of the session. -/

namespace LiveForm.Session

open LiveForm.Action

theorem run_orAbort {α : Type} (r : Except Abort α) (s : Session) : (orAbort r).run s = (r, s) := by
  cases r <;> rfl

theorem orAbort_answers {α β : Type} {r : Except Abort α} {f : α → Action β} {s u : Session} {b : β}
    (h : (orAbort r >>= f).run s = (.ok b, u)) : ∃ a, r = .ok a ∧ (f a).run s = (.ok b, u) := by
  obtain ⟨a, t, ht, h⟩ := bind_answers h
  rw [run_orAbort] at ht
  obtain ⟨hr, rfl⟩ := Prod.mk.inj ht
  exact ⟨a, hr, h⟩

theorem run_onEngine {α : Type} {x : Engine.Action α} {r : Except Abort α}
    (hx : Engine.Answers x r) {s : Session} (hs : s.engine.Faithful) :
    ∃ g : Engine, g.Faithful ∧ (onEngine x).run s = (r, { s with engine := g }) := by
  obtain ⟨g, hg, hf⟩ := hx s.engine hs
  refine ⟨g, hf, ?_⟩
  have hrun : (onEngine x).run s =
      (onEngine.liftExcept (x.run s.engine).1).run { s with engine := (x.run s.engine).2 } := rfl
  rw [hrun, hg]
  cases r <;> rfl

/-- What an answer is looked up by: the scope of the field, the ids whose values are in the key, and
the key. -/
structure Consultation where
  time : Number
  scope : Scope
  ids : List String
  key : CacheKey

def consult (now : Number) (n : Node) (expression : String) (working : Context) :
    Except Abort Consultation := do
  let scope ← scopeOf n.id working
  let references ← Engine.mentionedIn expression
  let read ← withHeads references []
  let text ← snapshot scope (n.dependencies ++ read)
  return ⟨now, scope, n.dependencies ++ read, ⟨n.id, expression, text⟩⟩

section Answer

variable {now : Number} {n : Node} {expression : String} {working : Context} {q : Consultation}
  {s : Session} {c : Abort}

/-- What a consultation consists of. -/
theorem consult_eq_ok (h : consult now n expression working = .ok q) :
    scopeOf n.id working = .ok q.scope ∧ q.time = now ∧ q.key.field = n.id ∧
      q.key.expression = expression ∧ snapshot q.scope q.ids = .ok q.key.snapshot := by
  obtain ⟨scope, hs, h⟩ := bind_eq_ok h
  obtain ⟨references, -, h⟩ := bind_eq_ok h
  obtain ⟨read, -, h⟩ := bind_eq_ok h
  obtain ⟨text, ht, h⟩ := bind_eq_ok h
  obtain rfl := Except.ok.inj h
  exact ⟨hs, rfl, rfl, rfl, ht⟩

theorem run_lookup (now : Number) (n : Node) (expression : String) (working : Context)
    (hs : s.engine.Faithful) :
    ∃ g : Engine, g.Faithful ∧ (lookup n expression working).run s =
      ((consult now n expression working).map fun q => (q.scope, q.key),
        { s with engine := g }) := by
  unfold lookup consult
  rw [run_bind, run_orAbort]
  cases scopeOf n.id working with
  | error c => exact ⟨s.engine, hs, rfl⟩
  | ok scope =>
    obtain ⟨g, hg, hr⟩ := run_onEngine (Engine.answers_dependencies expression) hs
    refine ⟨g, hg, ?_⟩
    dsimp only
    rw [run_bind, hr]
    cases Engine.mentionedIn expression with
    | error c => rfl
    | ok references =>
      dsimp only
      rw [run_bind, run_orAbort]
      cases hh : withHeads references [] with
      | error c => simp [bind, Except.bind, Except.map, hh]
      | ok read =>
        dsimp only
        rw [run_bind, run_orAbort]
        simp only [bind, Except.bind, hh]
        cases snapshot scope (n.dependencies ++ read) <;> rfl

theorem run_remembered (now : Number) (key : CacheKey) (s : Session) :
    (remembered now key).run s =
      (.ok (s.cache.get now key).1, { s with cache := (s.cache.get now key).2 }) := rfl

theorem answer_aborted (hs : s.engine.Faithful) (hq : consult now n expression working = .error c) :
    ∃ g : Engine, g.Faithful ∧
      (answer now n expression working).run s = (.error c, { s with engine := g }) := by
  obtain ⟨g, hg, hr⟩ := run_lookup now n expression working hs
  rw [hq] at hr
  exact ⟨g, hg, run_bind_error hr⟩

theorem answer_recalled (hs : s.engine.Faithful) (hq : consult now n expression working = .ok q)
    {a : Answer} (ha : (s.cache.get now q.key).1 = some a) :
    ∃ g : Engine, g.Faithful ∧ (answer now n expression working).run s =
      (.ok a, { s with engine := g, cache := (s.cache.get now q.key).2 }) := by
  obtain ⟨g, hg, hr⟩ := run_lookup now n expression working hs
  rw [hq] at hr
  refine ⟨g, hg, (run_bind_ok hr).trans ?_⟩
  refine (run_bind_ok (run_remembered now q.key _)).trans ?_
  simp only [ha]
  rfl

/-- An expression that is evaluated anew. -/
theorem answer_new (hs : s.engine.Faithful) (hq : consult now n expression working = .ok q)
    (hn : (s.cache.get now q.key).1 = none) :
    ∃ g : Engine, g.Faithful ∧ (answer now n expression working).run s =
      match Engine.reply expression q.scope with
      | .ok a => (.ok a, { s with
          engine := g
          evaluations := s.evaluations + 1
          cache := ((s.cache.get now q.key).2).set now q.key a })
      | .error c => (.error c, { s with
          engine := g
          evaluations := s.evaluations + 1
          cache := (s.cache.get now q.key).2 }) := by
  obtain ⟨g, hg, hr⟩ := run_lookup now n expression working hs
  rw [hq] at hr
  let t : Session := { s with
    engine := g, evaluations := s.evaluations + 1, cache := (s.cache.get now q.key).2 }
  obtain ⟨g', hg', hr'⟩ :=
    run_onEngine (Engine.answers_evaluate expression q.scope) (s := t) hg
  refine ⟨g', hg', (run_bind_ok hr).trans ?_⟩
  refine (run_bind_ok (run_remembered now q.key _)).trans ?_
  simp only [hn]
  refine (run_bind_ok (run_modify _ _)).trans ?_
  cases hrep : Engine.reply expression q.scope with
  | error c =>
    rw [hrep] at hr'
    exact run_bind_error hr'
  | ok a =>
    rw [hrep] at hr'
    refine (run_bind_ok hr').trans ?_
    rfl

/-- Where an answer comes from, and that it is remembered for this field only. -/
theorem answer_returns (hs : s.engine.Faithful) {a : Answer} {t : Session}
    (h : (answer now n expression working).run s = (.ok a, t)) :
    t.graph = s.graph ∧ t.engine.Faithful ∧
      (∀ key e, t.cache.Holds key e → s.cache.Holds key e ∨ key.field = n.id) ∧
      ∃ q, consult now n expression working = .ok q ∧
        ((∃ e, s.cache.Holds q.key e) ∨ Engine.reply expression q.scope = .ok a) := by
  cases hq : consult now n expression working with
  | error c =>
    obtain ⟨g, -, hr⟩ := answer_aborted hs hq
    rw [h] at hr
    cases hr
  | ok q =>
    obtain ⟨-, -, hfield, -⟩ := consult_eq_ok hq
    cases hg : (s.cache.get now q.key).1 with
    | some b =>
      obtain ⟨g, hgf, hr⟩ := answer_recalled hs hq hg
      obtain ⟨-, e, he, -⟩ := Cache.holds_of_get (Prod.ext hg rfl)
      rw [h] at hr
      obtain ⟨-, rfl⟩ := Prod.mk.inj hr
      exact ⟨rfl, hgf, fun _ _ hk => .inl hk.of_get, q, rfl, .inl ⟨e, he⟩⟩
    | none =>
      obtain ⟨g, hgf, hr⟩ := answer_new hs hq hg
      rw [h] at hr
      cases hrep : Engine.reply expression q.scope with
      | error c =>
        rw [hrep] at hr
        cases hr
      | ok b =>
        rw [hrep] at hr
        obtain ⟨hb, rfl⟩ := Prod.mk.inj hr
        obtain rfl := Except.ok.inj hb
        refine ⟨rfl, hgf, fun key e hk => ?_, q, rfl, .inr hrep⟩
        rcases hk.of_set with hk | ⟨rfl, -⟩
        · exact .inl hk.of_get
        · exact .inr hfield

/-- An answer that is not remembered is the reply to the expression. -/
theorem reply_of_answer (hs : s.engine.Faithful)
    (hunknown : ∀ key e, s.cache.Holds key e → key.field ≠ n.id) {a : Answer} {t : Session}
    (h : (answer now n expression working).run s = (.ok a, t)) :
    ∃ scope, scopeOf n.id working = .ok scope ∧ Engine.reply expression scope = .ok a := by
  obtain ⟨-, -, -, q, hq, hfrom⟩ := answer_returns hs h
  obtain ⟨hscope, -, hfield, -⟩ := consult_eq_ok hq
  rcases hfrom with ⟨e, hk⟩ | hreply
  · exact absurd hfield (hunknown q.key e hk)
  · exact ⟨q.scope, hscope, hreply⟩

end Answer

end LiveForm.Session
