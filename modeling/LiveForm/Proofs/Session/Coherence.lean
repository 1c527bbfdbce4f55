import LiveForm.Proofs.Session.Locality
import LiveForm.Proofs.Session.Wiring

/-! # The cache and the graph agree

What the cache holds of a field is an answer to the expression that the field has now. Answers are
remembered in passes only, for nodes of the graph as they are; and whatever gives a field another
expression, or takes it away, has the cache discard the field. -/

namespace LiveForm.Session

open LiveForm.Action

/-- The cache has at most one entry for a field, and it is for the expression of the field. -/
structure Coherent (s : Session) : Prop where
  onePerField : s.cache.OnePerField
  current : ∀ key e, s.cache.Holds key e → s.graph.expressionAt key.field = some key.expression

section Coherent

variable {s t : Session} {key : CacheKey} {a : Answer} {now : Number}

theorem Coherent.of_empty (h : s.cache.entries = .empty) : Coherent s := by
  have hno : ∀ key e, ¬s.cache.Holds key e := by
    intro key e hk
    rw [Cache.Holds, h] at hk
    cases hk
  refine ⟨?_, fun key e hk => absurd hk (hno key e)⟩
  rw [Cache.OnePerField, Cache.fields, h]
  exact List.nodup_nil

/-- Discarding a field keeps the rest, whose expressions have to be the same. -/
theorem Coherent.of_discard (h : Coherent s) {id : String} (hc : t.cache = (s.cache.discard id).2)
    (hx : ∀ x, x ≠ id → t.graph.expressionAt x = s.graph.expressionAt x) : Coherent t := by
  refine ⟨hc ▸ h.onePerField.discard id, fun key e hk => ?_⟩
  obtain ⟨hk, hne⟩ := Cache.holds_discard_iff.mp (hc ▸ hk)
  rw [hx _ hne]
  exact h.current key e hk

theorem Coherent.of_eq (h : Coherent s) (hc : t.cache = s.cache)
    (hx : ∀ x, t.graph.expressionAt x = s.graph.expressionAt x) : Coherent t := by
  refine ⟨hc ▸ h.onePerField, fun key e hk => ?_⟩
  rw [hx]
  exact h.current key e (hc ▸ hk)

/-- What passes do keeps the cache and the graph in agreement, at every point of a pass. -/
theorem Coherent.touched {E : Edges} (hm : Graph.Mirrors s.graph.nodes E) (h : Coherent s)
    (ht : Touched s t) : Coherent t := by
  induction ht with
  | refl => exact h
  | trans h₁ _ ih₁ ih₂ => exact ih₂ (hm.of_stable_eq h₁.kept.stable) (ih₁ hm h)
  | write s hf id =>
    exact h.of_eq rfl fun x => Graph.expressionAt_of_stable_eq (Graph.stable_modify hf s.graph id) x
  | ask s now key => exact ⟨h.onePerField.get, fun k e hk => h.current k e hk.of_get⟩
  | @remember s id n key hn hfield hexpression now a =>
    refine ⟨h.onePerField.set, fun k e hk => ?_⟩
    rcases Cache.holds_set_iff.mp hk with ⟨hk, -⟩ | ⟨rfl, -⟩
    · exact h.current k e hk
    · have hid : k.field = id := hfield.trans (hm.shows id n hn).id_eq
      show s.graph.expressionAt k.field = _
      rw [hid, Graph.expressionAt_eq hn, hexpression]
  | _ => exact h.of_eq rfl fun _ => rfl

/-- **Every operation keeps the cache and the graph in agreement.** -/
theorem Coherent.perform (hw : Wired s) (h : Coherent s) (op : Operation) :
    Coherent (op.perform s) := by
  obtain ⟨E, hE⟩ := hw.consistent
  cases op with
  | register id text declared default =>
    obtain ⟨g, hg, hr⟩ := run_register_eq hw.faithful id text declared default
    rw [Operation.perform, hr]
    cases hread : reading s.graph.nodes.keys id text declared with
    | error c => exact h.of_eq rfl fun _ => rfl
    | ok r =>
      have hE' : ({ s with engine := g } : Session).graph.Consistent E := hE
      refine h.of_discard cache_enter fun x hne => ?_
      exact (expressionAt_enter hE').trans (if_neg hne)
  | unregister id =>
    rw [run_unregister]
    refine h.of_discard cache_without fun x hne => ?_
    rw [graph_without, Graph.expressionAt_unregister, if_neg hne]
  | evaluateAll now offer =>
    rw [Operation.perform]
    rcases run_evaluateAll hE.settled now offer with ⟨c, t, hrun, ht⟩ | ⟨p, t, hrun, ht⟩
    · rw [hrun]
      exact h.touched hE.mirrors ht
    · rw [hrun]
      exact (h.touched hE.mirrors ht).of_eq rfl fun _ => rfl
  | evaluateOnce text scope => exact h.touched hE.mirrors (touches_evaluateOnce text scope s)
  | registerArray array children => exact h.of_eq rfl fun _ => rfl
  | clearCache => exact .of_empty rfl
  | close => exact .of_empty rfl

theorem coherent_after (settings : Settings) (ops : List Operation) :
    Coherent (after (create settings) ops) := by
  induction ops using List.reverseRecOn with
  | nil => exact .of_empty rfl
  | append_singleton ops op ih =>
    rw [after_concat]
    exact ih.perform (wired_after (wired_create settings) ops) op

/-- **After any history, passes that abort included, a cache entry is of a field that is registered, for
the expression that the field has now, and no field has two.** So nothing is served for an id that is no
field, that has no expression or that had another one; that goes for the session and for every point of
a pass over it. Rendering a template and showing a value only read the session. -/
theorem entries_are_current (settings : Settings) (ops : List Operation) :
    let s := after (create settings) ops
    (∀ key e, s.cache.Holds key e → ∃ n, s.graph.nodes.get? key.field = some n ∧
      n.id = key.field ∧ n.expression = some key.expression) ∧
    s.cache.fields.Nodup ∧
    ∀ t, Touched s t → ∀ now key a, (t.cache.get now key).1 = some a →
      s.graph.expressionAt key.field = some key.expression := by
  intro s
  have h : Coherent s := coherent_after settings ops
  obtain ⟨E, hE⟩ := (wired_after (wired_create settings) ops).consistent
  refine ⟨fun key e hk => ?_, h.onePerField, fun t ht now key a hget => ?_⟩
  · obtain ⟨n, hn, he⟩ := Option.bind_eq_some_iff.mp (h.current key e hk)
    exact ⟨n, hn, (hE.mirrors.shows key.field n hn).id_eq, he⟩
  · obtain ⟨-, e, hk, -⟩ := Cache.holds_of_get (Prod.ext hget rfl)
    rw [← Graph.expressionAt_of_stable_eq ht.kept.stable]
    exact (h.touched hE.mirrors ht).current key e hk

/-- A total that is evaluated once is served afterwards, and its expression is that of the field. -/
theorem entries_are_current_total :
    ∃ key a, key.field = "total" ∧
      ((after (create {}) billed).cache.get (.int 0) key).1 = some a ∧
      (after (create {}) billed).graph.expressionAt key.field = some key.expression := by
  have hcurrent := (entries_are_current {} billed).2.2 _ (.refl _) (.int 0)
  have hserved : (after (create {}) billed).cache.entries.keys.any (fun key =>
      key.field == "total" && ((after (create {}) billed).cache.get (.int 0) key).1.isSome) = true := by
    decide +kernel
  -- The session must not be unfolded where it only has a name.
  generalize after (create {}) billed = s at *
  obtain ⟨key, -, hkey⟩ := List.any_eq_true.mp hserved
  obtain ⟨hfield, hsome⟩ := Bool.and_eq_true_iff.mp hkey
  obtain ⟨a, ha⟩ := Option.isSome_iff_exists.mp hsome
  exact ⟨key, a, eq_of_beq hfield, ha, hcurrent key a ha⟩

end Coherent

end LiveForm.Session
