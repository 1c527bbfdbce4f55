import LiveForm.Proofs.Row
import LiveForm.Proofs.Session.Answer

/-! # What the steps of a pass write

A pass goes through the order step by step. A step writes into its node what it has found for it; ids,
expressions and edges stay, and so does the order. A step over a field of the form itself enters the
value of that field, and leaves everything that the pass holds under other ids. -/

namespace LiveForm

namespace Node

/-- A node without what passes write into it. -/
def stable (n : Node) : Node :=
  { n with lastValue := .null, isComputed := false, lastEvaluatedAt := none }

theorem stable_given (v : Value) (n : Node) : (n.given v).stable = n.stable := rfl

theorem stable_answered (now : Number) (a : Answer) (n : Node) :
    (n.answered now a).stable = n.stable := by
  unfold answered
  split <;> rfl

/-- What is shown of a circular field. -/
def shown (n : Node) : Value := if n.lastValue.isNull then n.default else n.lastValue

theorem eq_of_stable_eq {n m : Node} (h : n.stable = m.stable) :
    n.id = m.id ∧ n.expression = m.expression := by
  have hid : n.stable.id = m.stable.id := by rw [h]
  have he : n.stable.expression = m.stable.expression := by rw [h]
  exact ⟨hid, he⟩

end Node

namespace Graph

/-- A graph without what passes write into its nodes. -/
def stable (g : Graph) : Graph := { g with nodes := g.nodes.mapValues Node.stable }

theorem stable_modify {f : Node → Node} (hf : ∀ n, (f n).stable = n.stable) (g : Graph)
    (id : String) : stable { g with nodes := g.nodes.modify id f } = g.stable :=
  congrArg (fun nodes => ({ g with nodes := nodes } : Graph))
    (Table.mapValues_modify hf g.nodes id)

theorem circular_eq_of_stable_eq {g h : Graph} (hs : g.stable = h.stable) :
    g.circular = h.circular := by
  have hc : g.stable.circular = h.stable.circular := by rw [hs]
  exact hc

theorem get?_of_stable_eq {g h : Graph} (hs : g.stable = h.stable) {x : String} {n : Node}
    (hx : g.nodes.get? x = some n) : ∃ m, h.nodes.get? x = some m ∧ m.stable = n.stable := by
  have he : (h.nodes.get? x).map Node.stable = (g.nodes.get? x).map Node.stable := by
    rw [← Table.get?_mapValues, ← Table.get?_mapValues]
    exact congrArg (fun g => g.nodes.get? x) hs.symm
  rw [hx, Option.map_some, Option.map_eq_some_iff] at he
  exact he

end Graph

/-- What stays the same between two passes under other ids than one. -/
structure Pass.Elsewhere (id : String) (p q : Pass) : Prop where
  working : ∀ x, x ≠ id → q.working.get? x = p.working.get? x
  results : ∀ x, x ≠ id → q.results.get? x = p.results.get? x
  errors : ∀ x, x ≠ id → q.errors.get? x = p.errors.get? x

namespace Session

open LiveForm.Action

variable {now : Number} {raw : Context} {id : String} {n : Node} {p q : Pass} {s t : Session}

/-! ## The parts of a pass -/

/-- A plain input binds the value that it is given; without one only its report is filled in. -/
theorem stepPlain_eq_ok (h : (stepPlain raw n p).run s = (.ok q, t)) :
    (∃ v, plainValue? raw n p = some v ∧ t = ((modifyNode n.id (Node.given v)).run s).2 ∧
      bindValue t raw n.id v p = .ok q) ∨
    (plainValue? raw n p = none ∧ t = ((modifyNode n.id (Node.given .null)).run s).2 ∧
      q = { p with results := p.results.insertNew n.id .null }) := by
  unfold stepPlain at h
  cases hv : plainValue? raw n p with
  | none =>
    simp only [hv] at h
    have hpure := modify_answers h
    obtain ⟨rfl, rfl⟩ := pure_answers hpure
    exact .inr ⟨rfl, rfl, rfl⟩
  | some v =>
    simp only [hv] at h
    have hbind := get_answers (modify_answers h)
    rw [run_orAbort] at hbind
    obtain ⟨hq, rfl⟩ := Prod.mk.inj hbind
    exact .inl ⟨v, rfl, rfl, hq⟩

/-- A computed field binds its answer. -/
theorem stepComputed_eq_ok {expression : String}
    (h : (stepComputed now raw n expression p).run s = (.ok q, t)) :
    ∃ a u, (answer now n expression p.working).run s = (.ok a, u) ∧
      t = ((modifyNode n.id (Node.answered now a)).run u).2 ∧ bindAnswer t raw n.id a p = .ok q := by
  obtain ⟨a, u, ha, h⟩ := bind_answers h
  have hbind := get_answers (modify_answers h)
  rw [run_orAbort] at hbind
  obtain ⟨hq, rfl⟩ := Prod.mk.inj hbind
  exact ⟨a, u, ha, rfl, hq⟩

theorem opening_eq_ok {offer : Offer} (h : (opening offer).run s = (.ok (raw, p), t)) :
    ∃ layers working, Layers.ofOffer offer = .ok layers ∧ seed s.settings layers = .ok working ∧
      t = ((modifyGraph Graph.settle).run s).2 ∧ raw = layers.raw ∧
      p = { working := working, results := layers.raw.merge layers.calculated } := by
  obtain ⟨layers, hlayers, h⟩ := orAbort_answers (modify_answers h)
  obtain ⟨working, hworking, h⟩ := orAbort_answers (get_answers h)
  obtain ⟨hp, rfl⟩ := pure_answers h
  obtain ⟨rfl, rfl⟩ := Prod.mk.inj hp
  exact ⟨layers, working, hlayers, hworking, rfl, rfl, rfl⟩

theorem sweep_eq_ok {offer : Offer} (h : (sweep now offer).run s = (.ok q, t)) :
    ∃ raw first u, (opening offer).run s = (.ok (raw, first), u) ∧
      (u.graph.order.foldlM (step now raw) first).run u = (.ok q, t) := by
  obtain ⟨⟨raw, first⟩, u, hu, h⟩ := bind_answers h
  exact ⟨raw, first, u, hu, get_answers h⟩

/-! ## Fields of the form itself -/

theorem scopeOf_of_isLocalName (h : isLocalName id) (working : Context) :
    scopeOf id working = .ok (Context.scope working) := by
  unfold scopeOf
  rw [RowRef.parse?_of_isLocalName h]
  rfl

/-- A field of the form itself has no alias. -/
theorem bindValue_of_isLocalName (h : isLocalName id) (v : Value) :
    bindValue s raw id v p =
      .ok { p with working := p.working.insert id v, results := p.results.insert id v } := by
  unfold bindValue bindAlias
  rw [leafName?_of_isLocalName h]

theorem elsewhere_of_insert {v : Value} (hw : q.working = p.working.insert id v)
    (hr : q.results = p.results.insert id v)
    (he : ∀ x, x ≠ id → q.errors.get? x = p.errors.get? x) : p.Elsewhere id q := by
  refine ⟨fun x hx => ?_, fun x hx => ?_, he⟩
  · rw [hw, Table.get?_insert_of_ne _ hx]
  · rw [hr, Table.get?_insert_of_ne _ hx]

theorem bindAnswer_of_isLocalName (h : isLocalName id) {a : Answer}
    (hq : bindAnswer s raw id a p = .ok q) :
    p.Elsewhere id q ∧ q.results.get? id = some a.value ∧
      q.errors.get? id = a.error.or (p.errors.get? id) := by
  unfold bindAnswer at hq
  simp only [bindValue_of_isLocalName h, RowRef.parse?_of_isLocalName h] at hq
  obtain rfl := Except.ok.inj hq
  cases a.error with
  | none =>
    refine ⟨elsewhere_of_insert rfl rfl fun _ _ => rfl, ?_, rfl⟩
    exact Table.get?_insert_self _ _ _
  | some message =>
    refine ⟨elsewhere_of_insert rfl rfl fun x hx => Table.get?_insert_of_ne _ hx message, ?_, ?_⟩
    · exact Table.get?_insert_self _ _ _
    · exact Table.get?_insert_self _ _ _

/-- A plain input writes under its own id only, and into its own node. -/
theorem stepPlain_returns (hn : isLocalName n.id) (h : (stepPlain raw n p).run s = (.ok q, t)) :
    p.Elsewhere n.id q ∧ t.engine = s.engine ∧ t.cache = s.cache ∧
      t.graph.stable = s.graph.stable := by
  obtain ⟨v, -, rfl, hq⟩ | ⟨-, rfl, rfl⟩ := stepPlain_eq_ok h
  · rw [bindValue_of_isLocalName hn] at hq
    obtain rfl := Except.ok.inj hq
    exact ⟨elsewhere_of_insert rfl rfl fun _ _ => rfl, rfl, rfl,
      Graph.stable_modify (Node.stable_given v) s.graph n.id⟩
  · refine ⟨⟨fun _ _ => rfl, fun x hx => ?_, fun _ _ => rfl⟩, rfl, rfl,
      Graph.stable_modify (Node.stable_given .null) s.graph n.id⟩
    rw [Table.get?_insertNew, if_neg (by simpa using hx)]

/-- A computed field writes its answer under its own id only, and into its own node. -/
theorem stepComputed_returns {expression : String} (hn : isLocalName n.id)
    (h : (stepComputed now raw n expression p).run s = (.ok q, t)) :
    ∃ a u, (answer now n expression p.working).run s = (.ok a, u) ∧ p.Elsewhere n.id q ∧
      q.results.get? n.id = some a.value ∧
      q.errors.get? n.id = a.error.or (p.errors.get? n.id) ∧
      t.engine = u.engine ∧ t.cache = u.cache ∧ t.graph.stable = u.graph.stable := by
  obtain ⟨a, u, ha, rfl, hq⟩ := stepComputed_eq_ok h
  obtain ⟨he, hres, herr⟩ := bindAnswer_of_isLocalName hn hq
  exact ⟨a, u, ha, he, hres, herr, rfl, rfl,
    Graph.stable_modify (Node.stable_answered now a) u.graph n.id⟩

/-! ## After the steps -/

theorem addCircular_of_ne (nodes : Graph.Nodes) {x : String} (h : x ≠ id) :
    (Pass.addCircular nodes p id).results.get? x = p.results.get? x ∧
      (Pass.addCircular nodes p id).errors.get? x = p.errors.get? x :=
  ⟨Table.get?_insert_of_ne _ h _, Table.get?_insert_of_ne _ h _⟩

/-- Circular fields are reported under their own ids. -/
theorem foldl_addCircular (nodes : Graph.Nodes) {ids : List String} {x : String} (h : x ∉ ids) :
    (ids.foldl (Pass.addCircular nodes) p).results.get? x = p.results.get? x ∧
      (ids.foldl (Pass.addCircular nodes) p).errors.get? x = p.errors.get? x := by
  induction ids generalizing p with
  | nil => exact ⟨rfl, rfl⟩
  | cons id rest ih =>
    obtain ⟨hne, hrest⟩ := not_or.mp (mt List.mem_cons.mpr h)
    obtain ⟨hr, he⟩ := addCircular_of_ne (p := p) nodes hne
    rw [List.foldl_cons]
    exact ⟨(ih hrest).1.trans hr, (ih hrest).2.trans he⟩

/-- A circular field is reported as what is shown of it, with an error. -/
theorem foldl_addCircular_of_mem {nodes : Graph.Nodes} {ids : List String} {x : String}
    (hx : x ∈ ids) (hn : nodes.get? x = some n) :
    (ids.foldl (Pass.addCircular nodes) p).results.get? x = some n.shown ∧
      (ids.foldl (Pass.addCircular nodes) p).errors.get? x =
        some ("Circular dependency detected for field: " ++ x) := by
  induction ids generalizing p with
  | nil => cases hx
  | cons id rest ih =>
    rw [List.foldl_cons]
    by_cases hr : x ∈ rest
    · exact ih hr
    · obtain rfl : x = id := (List.mem_cons.mp hx).resolve_right hr
      obtain ⟨hres, herr⟩ := foldl_addCircular (p := Pass.addCircular nodes p x) nodes hr
      rw [hres, herr]
      simp [Pass.addCircular, hn, Node.shown]

/-- What a pass answers and leaves, in terms of its steps. -/
theorem evaluateAll_returns {offer : Offer} {results : Context}
    (h : (evaluateAll now offer).run s = (.ok results, t)) :
    ∃ p u, (sweep now offer).run s = (.ok p, u) ∧
      results = (u.graph.circular.foldl (Pass.addCircular u.graph.nodes) p).results ∧
      t = publish (u.graph.circular.foldl (Pass.addCircular u.graph.nodes) p) u := by
  obtain ⟨p, u, hp, h⟩ := bind_answers h
  have hpublish := modify_answers (get_answers h)
  obtain ⟨rfl, rfl⟩ := pure_answers hpublish
  exact ⟨p, u, hp, rfl, rfl⟩

end Session

end LiveForm
