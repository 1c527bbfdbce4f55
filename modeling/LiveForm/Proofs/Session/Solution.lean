import LiveForm.Proofs.Session.Consistency
import LiveForm.Proofs.Session.Fields

/-! # What a pass ends with, as equations

At the end of a pass over simple fields every id has one equation. An id without a place in the order
is bound to what the pass has started with. A plain input is bound to its entered value, or else to
what it was bound to at the start. A computed field is bound to the reply to its expression in the
working context as it is at the end. The order of the steps does not occur in the equations. -/

namespace LiveForm.Session

open LiveForm.Action

/-- The equations of the fields of a list, for a pass that starts with these entered values, this
working context and these results. -/
structure Solves (F : Fields) (done : List String) (raw working results : Context) (p : Pass) :
    Prop where
  apart : ∀ x ∉ done, p.working.get? x = working.get? x ∧ p.results.get? x = results.get? x ∧
    p.errors.get? x = none
  plain : ∀ x ∈ done, ∀ f, F x = some f → f.expression = none →
    p.working.get? x = (raw.get? x).or (working.get? x) ∧
      p.results.get? x =
        some (((raw.get? x).or (working.get? x)).getD ((results.get? x).getD .null)) ∧
      p.errors.get? x = none
  computed : ∀ x ∈ done, ∀ f text, F x = some f → f.expression = some text →
    Explains p x text ∧ p.working.get? x = p.results.get? x

/-! ## One step -/

section Step

variable {now : Number} {raw : Context} {id : String} {n : Node} {p q : Pass} {s t : Session}

/-- What a plain input is given is entered under its id; without a value the report alone is. -/
theorem stepPlain_enters (hn : isLocalName n.id) (h : (stepPlain raw n p).run s = (.ok q, t)) :
    q.working.get? n.id = (plainValue? raw n p).or (p.working.get? n.id) ∧
      q.results.get? n.id = some ((plainValue? raw n p).getD ((p.results.get? n.id).getD .null)) ∧
      q.errors = p.errors ∧ ∀ x, x ≠ n.id → t.graph.nodes.get? x = s.graph.nodes.get? x := by
  have hnodes (v : Value) (x : String) (hx : x ≠ n.id) :
      (s.graph.nodes.modify n.id (Node.given v)).get? x = s.graph.nodes.get? x := by
    rw [Table.get?_modify, if_neg (by simpa using hx)]
  obtain ⟨v, hv, rfl, hq⟩ | ⟨hv, rfl, rfl⟩ := stepPlain_eq_ok h
  · rw [bindValue_of_isLocalName hn] at hq
    obtain rfl := Except.ok.inj hq
    rw [hv]
    exact ⟨by simp, by simp, rfl, hnodes v⟩
  · rw [hv]
    exact ⟨rfl, by simp [Table.get?_insertNew], rfl, hnodes .null⟩

/-- The answer of a computed field is entered under its id both for expressions and in the report. -/
theorem stepComputed_enters {expression : String} (hn : isLocalName n.id) (hs : s.engine.Faithful)
    (h : (stepComputed now raw n expression p).run s = (.ok q, t)) :
    q.working.get? n.id = q.results.get? n.id ∧
      ∀ x, x ≠ n.id → t.graph.nodes.get? x = s.graph.nodes.get? x := by
  obtain ⟨a, u, ha, rfl, hq⟩ := stepComputed_eq_ok h
  obtain ⟨hgraph, -⟩ := answer_returns hs ha
  constructor
  · unfold bindAnswer at hq
    simp only [bindValue_of_isLocalName hn, RowRef.parse?_of_isLocalName hn] at hq
    obtain rfl := Except.ok.inj hq
    cases a.error <;> exact (Table.get?_insert_self _ _ _).trans (Table.get?_insert_self _ _ _).symm
  · intro x hx
    show (u.graph.nodes.modify n.id (Node.answered now a)).get? x = _
    rw [Table.get?_modify, if_neg (by simpa using hx), hgraph]

end Step

/-! ## All steps -/

/-- How far a pass has come, in equations. The nodes that are still to come are as at the start. -/
structure Solving (start : Session) (done : List String) (raw working results : Context) (p : Pass)
    (s : Session) : Prop where
  advancing : Advancing start done p s
  solves : Solves start.graph.fields done raw working results p
  nodes : ∀ x ∉ done, s.graph.nodes.get? x = start.graph.nodes.get? x

section Steps

variable {start s t : Session} {done rest : List String} {p q : Pass} {id : String} {now : Number}
  {raw working results : Context}

/-- A step solves the equation of its own id; those of the other ids stay as they are, once the
computed fields among them are explained. -/
theorem Solves.extend {F : Fields} (h : Solves F done raw working results p) (he : p.Elsewhere id q)
    (hid : id ∉ done)
    (hplain : ∀ f, F id = some f → f.expression = none →
      q.working.get? id = (raw.get? id).or (working.get? id) ∧
        q.results.get? id =
          some (((raw.get? id).or (working.get? id)).getD ((results.get? id).getD .null)) ∧
        q.errors.get? id = none)
    (hcomputed : ∀ f text, F id = some f → f.expression = some text →
      q.working.get? id = q.results.get? id)
    (hexplains : ∀ x ∈ done ++ [id], ∀ f text, F x = some f → f.expression = some text →
      Explains q x text) :
    Solves F (done ++ [id]) raw working results q := by
  refine ⟨fun x hx => ?_, fun x hx f hf hnone => ?_, fun x hx f text hf ht => ?_⟩
  · obtain ⟨hxd, hxi⟩ := not_or.mp (mt List.mem_append.mpr hx)
    have hne : x ≠ id := by simpa using hxi
    rw [he.working x hne, he.results x hne, he.errors x hne]
    exact h.apart x hxd
  · rcases List.mem_append.mp hx with hx | hx
    · have hne : x ≠ id := fun heq => hid (heq ▸ hx)
      rw [he.working x hne, he.results x hne, he.errors x hne]
      exact h.plain x hx f hf hnone
    · obtain rfl := List.mem_singleton.mp hx
      exact hplain f hf hnone
  · refine ⟨hexplains x hx f text hf ht, ?_⟩
    rcases List.mem_append.mp hx with hx | hx
    · have hne : x ≠ id := fun heq => hid (heq ▸ hx)
      rw [he.working x hne, he.results x hne]
      exact (h.computed x hx f text hf ht).2
    · obtain rfl := List.mem_singleton.mp hx
      exact hcomputed f text hf ht

theorem Solving.step (hs : Registered start)
    (hfresh : ∀ x f, start.graph.fields x = some f → f.Fresh)
    (ho : start.graph.order = done ++ id :: rest)
    (h : Solving start done raw working results p s)
    (hrun : (step now raw p id).run s = (.ok q, t)) :
    Solving start (done ++ [id]) raw working results q t := by
  have hadv := h.advancing.step hs ho hrun
  have hnext := hs.next_not_done ho
  obtain ⟨m, n, hm, hn, hid, -⟩ := h.advancing.next_node hs ho
  obtain rfl : n = m := Option.some.inj (hn.symm.trans ((h.nodes id hnext).trans hm))
  have hlocal : isLocalName n.id := hid ▸ (hs.named id (hs.next_mem_keys ho)).1
  have hfield : start.graph.fields id = some n.field := Graph.fields_eq_some hm
  obtain ⟨hworking, hresults, herrors⟩ := h.solves.apart id hnext
  have hexplains : ∀ x ∈ done ++ [id], ∀ f text, start.graph.fields x = some f →
      f.expression = some text → Explains q x text := by
    intro x hx f text hf ht
    obtain ⟨k, hk, rfl⟩ := Option.map_eq_some_iff.mp hf
    exact hadv.explained x hx k text hk ht
  have hleft : ∀ x ∉ done ++ [id], x ∉ done ∧ x ≠ id := by simp
  have hrun := get_answers hrun
  simp only [hn] at hrun
  cases hc : n.expression with
  | none =>
    simp only [hc] at hrun
    obtain ⟨he, -⟩ := stepPlain_returns hlocal hrun
    obtain ⟨hw, hr, herr, hnodes⟩ := stepPlain_enters hlocal hrun
    rw [hid] at he hw hr hnodes
    have hvalue : plainValue? raw n p = (raw.get? id).or (working.get? id) := by
      have hnone : n.dependencies = [] := (hfresh id n.field hfield).placeholder hc
      simp [plainValue?, hnone, hid, hworking]
    refine ⟨hadv, h.solves.extend he hnext (fun f hf _ => ?_) (fun f text hf ht => ?_) hexplains,
      fun x hx => (hnodes x (hleft x hx).2).trans (h.nodes x (hleft x hx).1)⟩
    · rw [hw, hr, herr, hvalue, hworking, hresults]
      exact ⟨by simp [Option.or_assoc], rfl, herrors⟩
    · obtain rfl := Option.some.inj (hfield.symm.trans hf)
      exact absurd (hc.symm.trans ht) (by simp)
  | some expression =>
    simp only [hc] at hrun
    obtain ⟨a, u, -, he, -⟩ := stepComputed_returns hlocal hrun
    obtain ⟨hw, hnodes⟩ := stepComputed_enters hlocal h.advancing.faithful hrun
    rw [hid] at he hw hnodes
    refine ⟨hadv, h.solves.extend he hnext (fun f hf hnone => ?_) (fun f text _ _ => hw) hexplains,
      fun x hx => (hnodes x (hleft x hx).2).trans (h.nodes x (hleft x hx).1)⟩
    obtain rfl := Option.some.inj (hfield.symm.trans hf)
    exact absurd (hc.symm.trans hnone) (by simp)

/-- All steps, by induction on what is left of the order. -/
theorem Solving.steps (hs : Registered start)
    (hfresh : ∀ x f, start.graph.fields x = some f → f.Fresh)
    (ho : start.graph.order = done ++ rest) (h : Solving start done raw working results p s)
    (hrun : (rest.foldlM (Session.step now raw) p).run s = (.ok q, t)) :
    Solving start start.graph.order raw working results q t := by
  induction rest generalizing done p s with
  | nil =>
    obtain ⟨rfl, rfl⟩ := pure_answers hrun
    rw [ho, List.append_nil]
    exact h
  | cons id rest ih =>
    rw [List.foldlM_cons] at hrun
    obtain ⟨r, u, hr, hrun⟩ := bind_answers hrun
    exact ih (by rw [ho, List.append_assoc]; rfl) (h.step hs hfresh ho hr) hrun

end Steps

/-! ## A whole pass -/

section Pass

variable {start s : Session} {now : Number} {offer : Offer} {p : Pass}

theorem solving_sweep (hs : Registered start)
    (hfresh : ∀ x f, start.graph.fields x = some f → f.Fresh)
    (h : (sweep now offer).run start = (.ok p, s)) :
    ∃ layers working, Layers.ofOffer offer = .ok layers ∧
      seed start.settings layers = .ok working ∧
      Solving start start.graph.order layers.raw working (layers.raw.merge layers.calculated) p s := by
  obtain ⟨raw, q, u, hu, hsteps⟩ := sweep_eq_ok h
  obtain ⟨hadv, hgraph⟩ := advancing_opening hs hu
  obtain ⟨layers, working, hlayers, hworking, -, rfl, rfl⟩ := opening_eq_ok hu
  rw [hgraph] at hsteps
  have hnone : Solves start.graph.fields [] layers.raw working (layers.raw.merge layers.calculated)
      { working := working, results := layers.raw.merge layers.calculated } :=
    ⟨fun _ _ => ⟨rfl, rfl, rfl⟩, fun _ h => (by cases h), fun _ h => (by cases h)⟩
  refine ⟨layers, working, hlayers, hworking, ?_⟩
  exact Solving.steps hs hfresh rfl ⟨hadv, hnone, fun x _ => by rw [hgraph]⟩ hsteps

/-- What a pass reports of each id: the default of a circular field, with an error, and otherwise what
solves its equation. -/
theorem evaluateAll_solves (hs : Registered start)
    (hfresh : ∀ x f, start.graph.fields x = some f → f.Fresh) {results : Context}
    (h : (evaluateAll now offer).run start = (.ok results, s)) :
    ∃ layers working p, Layers.ofOffer offer = .ok layers ∧
      seed start.settings layers = .ok working ∧
      Solves start.graph.fields start.graph.order layers.raw working
        (layers.raw.merge layers.calculated) p ∧
      (∀ x ∈ start.graph.circular, ∀ f, start.graph.fields x = some f →
        results.get? x = some f.default ∧
          s.errors.get? x = some ("Circular dependency detected for field: " ++ x)) ∧
      ∀ x ∉ start.graph.circular,
        results.get? x = p.results.get? x ∧ s.errors.get? x = p.errors.get? x := by
  obtain ⟨p, u, hp, rfl, rfl⟩ := evaluateAll_returns h
  obtain ⟨layers, working, hlayers, hworking, hsolving⟩ := solving_sweep hs hfresh hp
  have hcirc := Graph.circular_eq_of_stable_eq hsolving.advancing.stable
  refine ⟨layers, working, p, hlayers, hworking, hsolving.solves, fun x hx f hf => ?_,
    fun x hx => ?_⟩
  · obtain ⟨E, hE⟩ := hs.consistent
    obtain ⟨n, hn, rfl⟩ := Option.map_eq_some_iff.mp hf
    have hnode := hsolving.nodes x (hE.mem_circular_iff.mp hx).2
    have hnull : n.lastValue = .null := (hfresh x _ hf).unknown
    obtain ⟨hres, herr⟩ := foldl_addCircular_of_mem (p := p) (hcirc ▸ hx) (hnode.trans hn)
    refine ⟨hres.trans ?_, herr⟩
    rw [Node.shown, hnull]
    rfl
  · exact foldl_addCircular u.graph.nodes (hcirc ▸ hx)

end Pass

end LiveForm.Session
