import LiveForm.Proofs.Session.Memory
import LiveForm.Proofs.Session.Steps

/-! # What a report holds, and what its errors say

Every field has one turn in a pass, in the order or, if it is circular, after all others. Its entry in
the report is written then, and neither the turn of another field nor a name that stands for one
touches it again. So the results have a key for whatever is offered and for every field, and the
errors are those of the turns. -/

namespace LiveForm.Session

open LiveForm.Action

/-- The answer that a pass obtains for a computed field when it comes to the field. -/
inductive Obtains (now : Number) (offer : Offer) (s : Session) (id : String) (a : Answer) : Prop
  | intro {p : Pass} {u v : Session} {n : Node} {expression : String} (hid : id ∈ s.graph.order)
      (harriving : (arriving now offer id).run s = (.ok p, u))
      (hn : u.graph.nodes.get? id = some n) (hexpression : n.expression = some expression)
      (hanswer : (answer now n expression p.working).run u = (.ok a, v)) :
      Obtains now offer s id a

section Step

variable {s : Session} {raw offered : Context} {p q : Pass} {id x : String} {done : List String}

/-! ## One turn -/

theorem Stepped.reported_self (h : Stepped s raw id p q) : (q.results.get? id).isSome := by
  cases h with
  | unbound =>
    rw [Table.get?_insertNew, if_pos (beq_self_eq_true id)]
    rfl
  | plain v =>
    rw [Pass.get?_enter_results, if_pos rfl]
    rfl
  | computed a row =>
    rw [Pass.get?_enterAnswer_results, if_pos rfl]
    rfl

theorem Stepped.reported_of_reported (h : Stepped s raw id p q) (hx : (p.results.get? x).isSome) :
    (q.results.get? x).isSome := by
  by_cases hne : x = id
  · subst hne
    exact h.reported_self
  · rw [h.results_eq hne (.inr hx)]
    exact hx

/-- A turn reports its own field, and perhaps a name that stands for it. -/
theorem Stepped.reported_cases (h : Stepped s raw id p q) (hx : (q.results.get? x).isSome) :
    (p.results.get? x).isSome ∨ x = id ∨ standIn? s raw id = some x := by
  by_cases hne : x = id
  · exact .inr (.inl hne)
  · by_cases hleaf : standIn? s raw id = some x
    · exact .inr (.inr hleaf)
    · rw [h.results_eq hne (.inl hleaf)] at hx
      exact .inl hx

/-- The entry of a field is not touched in the turn of another one. -/
theorem Stepped.entry_eq (h : Stepped s raw id p q) (hx : x ∈ s.graph.nodes.keys) (hne : x ≠ id) :
    q.results.get? x = p.results.get? x ∧ q.errors.get? x = p.errors.get? x :=
  ⟨h.results_eq hne (.inl (standIn?_ne_of_mem hx)), h.errors_eq hne⟩

/-- The keys that a pass reports so far, and the errors that are still to come. -/
structure Reporting (offered : Context) (done : List String) (p : Pass) : Prop where
  reported : ∀ x, (offered.get? x).isSome ∨ x ∈ done → (p.results.get? x).isSome
  named : ∀ x, (p.results.get? x).isSome →
    (offered.get? x).isSome ∨ x ∈ done ∨ ∃ f ∈ done, alias? f = .ok (some x)
  pending : ∀ x ∉ done, p.errors.get? x = none

theorem Reporting.start (working offered : Context) :
    Reporting offered [] { working := working, results := offered } := by
  refine ⟨fun x hx => ?_, fun x hx => .inl hx, fun x _ => Table.get?_empty x⟩
  exact hx.resolve_right List.not_mem_nil

theorem Reporting.step (h : Stepped s raw id p q) (hp : Reporting offered done p) :
    Reporting offered (done ++ [id]) q := by
  refine ⟨?_, ?_, ?_⟩
  · intro x hx
    rw [List.mem_append, List.mem_singleton, ← or_assoc] at hx
    rcases hx with hx | rfl
    · exact h.reported_of_reported (hp.reported x hx)
    · exact h.reported_self
  · intro x hx
    rcases h.reported_cases hx with hx | rfl | hleaf
    · refine (hp.named x hx).imp_right (Or.imp (List.mem_append_left [id]) ?_)
      rintro ⟨f, hf, hfx⟩
      exact ⟨f, List.mem_append_left [id] hf, hfx⟩
    · exact .inr (.inl (by simp))
    · exact .inr (.inr ⟨id, by simp, (standIn?_eq_some_iff.mp hleaf).2.1⟩)
  · intro x hx
    obtain ⟨hdone, hne⟩ := not_or.mp (mt List.mem_append.mpr hx)
    rw [h.errors_eq (mt List.mem_singleton.mpr hne)]
    exact hp.pending x hdone

end Step

/-! ## All turns -/

/-- The turn of a field in a pass that ends: what the pass has found when it comes to the field, and
what of it stands in the end. -/
structure Turn (now : Number) (offer : Offer) (start : Session) (last : Pass) (done : List String)
    (id : String) (raw : Context) (p q : Pass) (u v : Session) : Prop where
  arriving : (Session.arriving now offer id).run start = (.ok p, u)
  held : Held start u
  pending : p.errors.get? id = none
  step : (Session.step now raw p id).run u = (.ok q, v)
  before : ∀ f ∈ done, last.results.get? f = p.results.get? f ∧ last.errors.get? f = p.errors.get? f
  own : last.results.get? id = q.results.get? id ∧ last.errors.get? id = q.errors.get? id

section Sweep

variable {start u t : Session} {E : Edges} {now : Number} {offer : Offer} {raw : Context}
  {p last : Pass} {done rest : List String} {id x : String}

/-- A pass over a graph that is up to date starts from the session as it is. -/
theorem sweep_steps (hs : Wired start) (h : (sweep now offer).run start = (.ok last, t)) :
    ∃ layers working, Layers.ofOffer offer = .ok layers ∧
      (opening offer).run start = (.ok (layers.raw,
        { working := working, results := layers.raw.merge layers.calculated }), start) ∧
      (start.graph.order.foldlM (step now layers.raw)
        { working := working, results := layers.raw.merge layers.calculated }).run start =
          (.ok last, t) := by
  obtain ⟨E, hE⟩ := hs.consistent
  obtain ⟨raw, first, u, hopening, hsteps⟩ := sweep_eq_ok h
  obtain ⟨layers, working, hlayers, -, hu, rfl, rfl⟩ := opening_eq_ok hopening
  have hsettled : u = start := by
    rw [hu]
    show ({ start with graph := start.graph.settle } : Session) = start
    rw [hE.settled.settle_eq]
  subst hsettled
  exact ⟨layers, working, hlayers, hopening, hsteps⟩

theorem Held.self (s : Session) : Held s s := ⟨.refl s, rfl⟩

/-- What is reported of the fields that are done stands in the end. -/
theorem Held.final (hs : Wired start) (hE : start.graph.Consistent E)
    (ho : start.graph.order = done ++ rest) (h : Held start u)
    (hrun : (rest.foldlM (Session.step now raw) p).run u = (.ok last, t)) :
    ∀ f ∈ done, last.results.get? f = p.results.get? f ∧ last.errors.get? f = p.errors.get? f := by
  intro f hf
  have hkey : f ∈ start.graph.nodes.keys := by
    refine (hE.mem_order_iff_not_circular.mp ?_).1
    rw [ho]
    exact List.mem_append_left rest hf
  refine (h.steps hs hE (P := fun done q => f ∈ done ∧ q.results.get? f = p.results.get? f ∧
    q.errors.get? f = p.errors.get? f) ?_ (ho.trans (List.append_nil _).symm) ⟨hf, rfl, rfl⟩ hrun).2.2
  intro done id rest q r ho hstepped ⟨hdone, hresults, herrors⟩
  have hne : f ≠ id := fun heq => hE.next_not_done ho (heq ▸ hdone)
  obtain ⟨hres, herr⟩ := hstepped.entry_eq hkey hne
  exact ⟨List.mem_append_left _ hdone, hres.trans hresults, herr.trans herrors⟩

theorem exists_turn (hs : Wired start) (h : (sweep now offer).run start = (.ok last, t))
    (ho : start.graph.order = done ++ id :: rest) :
    ∃ raw p q u v, Turn now offer start last done id raw p q u v := by
  obtain ⟨E, hE⟩ := hs.consistent
  obtain ⟨layers, working, -, hopening, hsteps⟩ := sweep_steps hs h
  have hid := hE.next_not_done ho
  rw [ho, List.foldlM_append] at hsteps
  obtain ⟨p, u, hp, hsteps⟩ := bind_answers hsteps
  have hrest := hsteps
  rw [List.foldlM_cons] at hsteps
  obtain ⟨q, v, hq, hsteps⟩ := bind_answers hsteps
  have hfront : start.graph.order = [] ++ done ++ id :: rest := ho
  obtain ⟨hheld, hreporting⟩ := (Held.self start).steps hs hE
    (fun _ _ _ _ _ _ hstepped hp => hp.step hstepped) hfront (Reporting.start working _) hp
  obtain ⟨-, hv⟩ := hheld.step hs hE ho hq
  have ho' : start.graph.order = (done ++ [id]) ++ rest := by rw [ho, List.append_assoc]; rfl
  refine ⟨layers.raw, p, q, u, v, arriving_eq hopening ho hid hp, hheld, hreporting.pending id hid, hq,
    hheld.final hs hE ho hrest, ?_⟩
  exact hv.final hs hE ho' hsteps id (by simp)

theorem truthful_arriving (now : Number) (offer : Offer) (id : String) :
    StaysTruthful (arriving now offer id) := by
  refine .bind (truthful_opening offer) fun r => ?_
  exact .get fun s => .foldlM (truthful_step now r.1) _ _

namespace Turn

variable {q : Pass} {v : Session}

/-- The turn of a computed field enters its answer. -/
theorem answered (hs : Wired start) (htrue : Truthful start)
    (ho : start.graph.order = done ++ id :: rest)
    (h : Turn now offer start last done id raw p q u v) {n : Node} {expression : String}
    (hn : u.graph.nodes.get? id = some n) (hexpression : n.expression = some expression) :
    ∃ a w, (answer now n expression p.working).run u = (.ok a, w) ∧
      last.results.get? id = some a.value ∧ last.errors.get? id = a.error ∧
      (a.error.isSome → a.value = .null) := by
  obtain ⟨E, hE⟩ := hs.consistent
  have hid : n.id = id := by
    obtain ⟨m, hm, hid, -⟩ := h.held.kept.next_node hE ho
    rw [Option.some.inj (hn.symm.trans hm), hid]
  have hrun := get_answers h.step
  simp only [hn, hexpression] at hrun
  obtain ⟨a, w, ha, rfl, hq⟩ := stepComputed_eq_ok hrun
  obtain ⟨-, -, -, -, -, -, hresult, herror⟩ := bindAnswer_binds hq
  rw [hid] at hresult herror
  rw [h.pending, Option.or_none] at herror
  have hu : Truthful u := by
    have hu := truthful_arriving now offer id start htrue
    rwa [h.arriving] at hu
  exact ⟨a, w, ha, h.own.1.trans hresult, h.own.2.trans herror, hu.value_eq_null ha⟩

/-- The turn of a plain field enters no error. -/
theorem errors_eq_none (hs : Wired start) (ho : start.graph.order = done ++ id :: rest)
    (h : Turn now offer start last done id raw p q u v)
    (hplain : start.graph.expressionAt id = none) : last.errors.get? id = none := by
  obtain ⟨E, hE⟩ := hs.consistent
  obtain ⟨hstepped, -⟩ := h.held.step hs hE ho h.step
  rw [h.own.2, ← h.pending]
  cases hstepped with
  | unbound => rfl
  | plain w => rw [Pass.enter_errors]
  | computed _ _ hcomputed =>
    rw [hplain] at hcomputed
    cases hcomputed

end Turn

/-- A pass that ends has obtained an answer for every computed field of the order. -/
theorem exists_obtains (hs : Wired start) (htrue : Truthful start)
    (h : (sweep now offer).run start = (.ok last, t)) (hid : id ∈ start.graph.order)
    (hcomputed : (start.graph.expressionAt id).isSome) : ∃ a, Obtains now offer start id a := by
  obtain ⟨E, hE⟩ := hs.consistent
  obtain ⟨done, rest, ho⟩ := List.append_of_mem hid
  obtain ⟨raw, p, q, u, v, hturn⟩ := exists_turn hs h ho
  obtain ⟨n, hn, -, hexpression, -⟩ := hturn.held.kept.next_node hE ho
  obtain ⟨expression, hexpr⟩ := Option.isSome_iff_exists.mp hcomputed
  obtain ⟨a, w, ha, -⟩ := hturn.answered hs htrue ho hn (hexpression.trans hexpr)
  exact ⟨a, .intro hid hturn.arriving hn (hexpression.trans hexpr) ha⟩

/-- What is obtained for a field is its entry in the end. -/
theorem Obtains.entry (hs : Wired start) (htrue : Truthful start)
    (h : (sweep now offer).run start = (.ok last, t)) {a : Answer}
    (ha : Obtains now offer start id a) :
    last.results.get? id = some a.value ∧ last.errors.get? id = a.error ∧
      (a.error.isSome → a.value = .null) := by
  obtain ⟨hid, harriving, hn, hexpression, hanswer⟩ := ha
  obtain ⟨done, rest, ho⟩ := List.append_of_mem hid
  obtain ⟨raw, p, q, u, v, hturn⟩ := exists_turn hs h ho
  obtain ⟨hp, rfl⟩ := Prod.mk.inj (harriving.symm.trans hturn.arriving)
  obtain rfl := Except.ok.inj hp
  obtain ⟨b, w, hb, hentry⟩ := hturn.answered hs htrue ho hn hexpression
  obtain rfl := Except.ok.inj (Prod.mk.inj (hanswer.symm.trans hb)).1
  exact hentry

/-- What a pass reports before the circular fields are reported. -/
theorem sweep_reporting (hs : Wired start) (h : (sweep now offer).run start = (.ok last, t)) :
    ∃ layers, Layers.ofOffer offer = .ok layers ∧
      Reporting (layers.raw.merge layers.calculated) start.graph.order last := by
  obtain ⟨layers, working, hlayers, -, -, hinduct⟩ := sweep_induct hs h
  refine ⟨layers, hlayers, hinduct (Reporting _) (.start working _) ?_⟩
  exact fun done id rest p q _ hstepped hp => hp.step hstepped

/-- Only a field that has failed has an error before the circular fields are reported. -/
theorem sweep_errors_eq_none (hs : Wired start) (htrue : Truthful start)
    (h : (sweep now offer).run start = (.ok last, t))
    (hnone : ∀ a, Obtains now offer start x a → a.error = none) : last.errors.get? x = none := by
  by_cases hx : x ∈ start.graph.order
  · by_cases hcomputed : (start.graph.expressionAt x).isSome
    · obtain ⟨a, ha⟩ := exists_obtains hs htrue h hx hcomputed
      rw [(ha.entry hs htrue h).2.1, hnone a ha]
    · obtain ⟨done, rest, ho⟩ := List.append_of_mem hx
      obtain ⟨raw, p, q, u, v, hturn⟩ := exists_turn hs h ho
      exact hturn.errors_eq_none hs ho (Option.not_isSome_iff_eq_none.mp hcomputed)
  · obtain ⟨layers, -, hreporting⟩ := sweep_reporting hs h
    exact hreporting.pending x hx

end Sweep

/-! ## The report -/

/-- What a pass reports: circular fields as they are shown, and else what the turns have entered. -/
structure Concluded (now : Number) (offer : Offer) (s : Session) (p : Pass) (results : Context)
    (t : Session) : Prop where
  sweep : ∃ u, (Session.sweep now offer).run s = (.ok p, u)
  turns : ∀ x ∉ s.graph.circular,
    results.get? x = p.results.get? x ∧ t.errors.get? x = p.errors.get? x
  circular : ∀ x ∈ s.graph.circular, ∃ n, t.graph.nodes.get? x = some n ∧
    results.get? x = some n.shown ∧
    t.errors.get? x = some ("Circular dependency detected for field: " ++ x)

section Report

variable {s t : Session} {E : Edges} {now : Number} {offer : Offer} {layers : Layers} {p : Pass}
  {results : Context} {x f : String}

theorem exists_concluded (hs : Wired s)
    (h : (evaluateAll now offer).run s = (.ok results, t)) : ∃ p, Concluded now offer s p results t := by
  obtain ⟨E, hE⟩ := hs.consistent
  obtain ⟨p, u, hsweep, rfl, rfl⟩ := evaluateAll_returns h
  obtain ⟨-, -, -, -, hheld, -⟩ := sweep_induct hs hsweep
  have hcirc : u.graph.circular = s.graph.circular :=
    Graph.circular_eq_of_stable_eq hheld.kept.stable
  refine ⟨p, ⟨u, hsweep⟩, fun x hx => ?_, fun x hx => ?_⟩
  · exact foldl_addCircular u.graph.nodes (hcirc ▸ hx)
  · have hkey : x ∈ u.graph.nodes.keys := by
      rw [Graph.keys_of_stable_eq hheld.kept.stable, hE.mirrors.node_iff]
      exact (hE.mem_circular_iff.mp hx).1
    obtain ⟨n, hn⟩ := Table.exists_get?_of_mem_keys hkey
    exact ⟨n, hn, foldl_addCircular_of_mem (hcirc ▸ hx) hn⟩

theorem mem_keys_of_ofOffer (h : Layers.ofOffer offer = .ok layers) {k : Key} :
    k ∈ offer.raw.keys ∨ k ∈ offer.calculated.keys ↔
      ∃ x, ((layers.raw.merge layers.calculated).get? x).isSome ∧ .text x = k := by
  obtain ⟨hraw, hcalculated, -⟩ := ofOffer_eq_ok h
  rw [Layers.eq_of_named hraw, Layers.eq_of_named hcalculated, keys_ofContext, keys_ofContext,
    ← List.mem_append, ← List.map_append, List.mem_map]
  simp only [Table.get?_isSome_iff, Table.mem_keys_merge, List.mem_append]

namespace Concluded

theorem mem_keys_iff (h : Concluded now offer s p results t) :
    x ∈ results.keys ↔ x ∈ s.graph.circular ∨ (p.results.get? x).isSome := by
  rw [← Table.get?_isSome_iff]
  by_cases hx : x ∈ s.graph.circular
  · obtain ⟨n, -, hn, -⟩ := h.circular x hx
    simp [hx, hn]
  · simp [hx, (h.turns x hx).1]

theorem reports_offered (hs : Wired s) (h : Concluded now offer s p results t) {k : Key}
    (hk : k ∈ offer.raw.keys ∨ k ∈ offer.calculated.keys) : ∃ x ∈ results.keys, k = .text x := by
  obtain ⟨u, hsweep⟩ := h.sweep
  obtain ⟨layers, hlayers, hreporting⟩ := sweep_reporting hs hsweep
  obtain ⟨x, hx, rfl⟩ := (mem_keys_of_ofOffer hlayers).mp hk
  exact ⟨x, h.mem_keys_iff.mpr (.inr (hreporting.reported x (.inl hx))), rfl⟩

theorem reports_field (hs : Wired s) (h : Concluded now offer s p results t)
    (hf : f ∈ s.graph.nodes.keys) : f ∈ results.keys := by
  obtain ⟨E, hE⟩ := hs.consistent
  obtain ⟨u, hsweep⟩ := h.sweep
  obtain ⟨layers, -, hreporting⟩ := sweep_reporting hs hsweep
  rw [h.mem_keys_iff]
  by_cases hx : f ∈ s.graph.circular
  · exact .inl hx
  · have horder : f ∈ s.graph.order := hE.mem_order_iff_not_circular.mpr ⟨hf, hx⟩
    exact .inr (hreporting.reported f (.inr horder))

theorem named (hs : Wired s) (h : Concluded now offer s p results t) (hx : x ∈ results.keys) :
    .text x ∈ offer.raw.keys ∨ .text x ∈ offer.calculated.keys ∨ x ∈ s.graph.nodes.keys ∨
      ∃ f ∈ s.graph.nodes.keys, alias? f = .ok (some x) := by
  obtain ⟨E, hE⟩ := hs.consistent
  obtain ⟨u, hsweep⟩ := h.sweep
  obtain ⟨layers, hlayers, hreporting⟩ := sweep_reporting hs hsweep
  have hfield {f : String} (hf : f ∈ s.graph.order) : f ∈ s.graph.nodes.keys :=
    (hE.mem_order_iff_not_circular.mp hf).1
  rcases h.mem_keys_iff.mp hx with hx | hx
  · exact .inr (.inr (.inl ((hE.mirrors.node_iff x).mpr (hE.mem_circular_iff.mp hx).1)))
  · rcases hreporting.named x hx with hx | hx | ⟨f, hf, hfx⟩
    · exact or_assoc.mp (.inl ((mem_keys_of_ofOffer hlayers).mpr ⟨x, hx, rfl⟩))
    · exact .inr (.inr (.inl (hfield hx)))
    · exact .inr (.inr (.inr ⟨f, hfield hf, hfx⟩))

/-- The answer that is obtained for a field is its entry. -/
theorem entry (hs : Wired s) (htrue : Truthful s) (h : Concluded now offer s p results t)
    {a : Answer} (ha : Obtains now offer s f a) :
    f ∉ s.graph.circular ∧ results.get? f = some a.value ∧ t.errors.get? f = a.error ∧
      (a.error.isSome → a.value = .null) := by
  obtain ⟨E, hE⟩ := hs.consistent
  obtain ⟨u, hsweep⟩ := h.sweep
  obtain ⟨hresult, herror, hnull⟩ := ha.entry hs htrue hsweep
  obtain ⟨hid, -⟩ := ha
  have hf := (hE.mem_order_iff_not_circular.mp hid).2
  exact ⟨hf, (h.turns f hf).1.trans hresult, (h.turns f hf).2.trans herror, hnull⟩

theorem mem_errors_iff (hs : Wired s) (htrue : Truthful s) (h : Concluded now offer s p results t) :
    f ∈ t.errors.keys ↔
      f ∈ s.graph.circular ∨ ∃ a, Obtains now offer s f a ∧ a.error.isSome := by
  obtain ⟨u, hsweep⟩ := h.sweep
  rw [← Table.get?_isSome_iff]
  constructor
  · intro hf
    by_contra hno
    obtain ⟨hcircular, hanswers⟩ := not_or.mp hno
    rw [(h.turns f hcircular).2, sweep_errors_eq_none hs htrue hsweep] at hf
    · cases hf
    · intro a ha
      exact Option.not_isSome_iff_eq_none.mp fun hfailed => hanswers ⟨a, ha, hfailed⟩
  · rintro (hx | ⟨a, ha, hfailed⟩)
    · obtain ⟨n, -, -, herror⟩ := h.circular f hx
      rw [herror]
      rfl
    · rw [(h.entry hs htrue ha).2.2.1]
      exact hfailed

/-- The entries of the fields that are done when a pass comes to another one. -/
theorem final (hs : Wired s) (h : Concluded now offer s p results t) {done rest : List String}
    {id : String} (ho : s.graph.order = done ++ id :: rest) :
    ∃ q u, (arriving now offer id).run s = (.ok q, u) ∧
      ∀ f ∈ done, results.get? f = q.results.get? f ∧ t.errors.get? f = q.errors.get? f := by
  obtain ⟨E, hE⟩ := hs.consistent
  obtain ⟨u, hsweep⟩ := h.sweep
  obtain ⟨raw, q, r, v, w, hturn⟩ := exists_turn hs hsweep ho
  refine ⟨q, v, hturn.arriving, fun f hf => ?_⟩
  have horder : f ∈ s.graph.order := by
    rw [ho]
    exact List.mem_append_left _ hf
  obtain ⟨hresult, herror⟩ := h.turns f (hE.mem_order_iff_not_circular.mp horder).2
  obtain ⟨hresult', herror'⟩ := hturn.before f hf
  exact ⟨hresult.trans hresult', herror.trans herror'⟩

end Concluded

end Report

/-- What the results of a pass hold, and which fields have an error. -/
structure Accounts (now : Number) (offer : Offer) (s : Session) (results : Context) (t : Session) :
    Prop where
  reports_offered : ∀ k, k ∈ offer.raw.keys ∨ k ∈ offer.calculated.keys →
    ∃ x ∈ results.keys, k = .text x
  reports_fields : ∀ f ∈ s.graph.nodes.keys, f ∈ results.keys
  /-- Any other key is the last part of the id of a field, dotted and of no row. -/
  named : ∀ x ∈ results.keys, .text x ∈ offer.raw.keys ∨ .text x ∈ offer.calculated.keys ∨
    x ∈ s.graph.nodes.keys ∨ ∃ f ∈ s.graph.nodes.keys, alias? f = .ok (some x)
  mem_errors_iff : ∀ f, f ∈ t.errors.keys ↔
    f ∈ s.graph.circular ∨ ∃ a, Obtains now offer s f a ∧ a.error.isSome
  obtained : ∀ f ∈ s.graph.nodes.keys, (s.graph.expressionAt f).isSome → f ∉ s.graph.circular →
    ∃ a, Obtains now offer s f a
  entry : ∀ f a, Obtains now offer s f a → f ∉ s.graph.circular ∧
    results.get? f = some a.value ∧ t.errors.get? f = a.error ∧ (a.error.isSome → a.value = .null)
  circular_entry : ∀ f ∈ s.graph.circular, ∃ n, t.graph.nodes.get? f = some n ∧
    results.get? f = some n.shown ∧
    t.errors.get? f = some ("Circular dependency detected for field: " ++ f)
  /-- When a pass comes to a field, the entries of the fields before it are as they are in the end. -/
  final : ∀ done id rest, s.graph.order = done ++ id :: rest →
    ∃ p u, (arriving now offer id).run s = (.ok p, u) ∧
      ∀ f ∈ done, results.get? f = p.results.get? f ∧ t.errors.get? f = p.errors.get? f
  /-- So are those of all fields of the order when it comes to the circular ones. -/
  final_order : ∃ p u, (sweep now offer).run s = (.ok p, u) ∧
    ∀ f ∈ s.graph.order, results.get? f = p.results.get? f ∧ t.errors.get? f = p.errors.get? f

/-- **Outputs are complete, and errors are accounted for.** After any history, a pass that answers
reports a value under every key that is entered or computed before and under every field; any other
key stands for a field with a dotted id. A field has an error exactly if it is circular or if the
answer that it obtains is a failure, and then its value is null; otherwise its value is that of the
answer. No field is written again after its turn. -/
theorem evaluateAll_accounts (settings : Settings) (ops : List Operation) {now : Number}
    {offer : Offer} {results : Context} {t : Session}
    (h : (evaluateAll now offer).run (after (create settings) ops) = (.ok results, t)) :
    Accounts now offer (after (create settings) ops) results t := by
  have hs := wired_after (wired_create settings) ops
  have htrue := truthful_after settings ops
  generalize after (create settings) ops = s at *
  obtain ⟨E, hE⟩ := hs.consistent
  obtain ⟨p, hp⟩ := exists_concluded hs h
  obtain ⟨u, hsweep⟩ := hp.sweep
  refine ⟨fun k hk => hp.reports_offered hs hk, fun f hf => hp.reports_field hs hf,
    fun x hx => hp.named hs hx, fun f => hp.mem_errors_iff hs htrue, fun f hf hcomputed hx => ?_,
    fun f a ha => hp.entry hs htrue ha, hp.circular, fun done id rest ho => hp.final hs ho, p, u,
    hsweep, fun f hf => hp.turns f (hE.mem_order_iff_not_circular.mp hf).2⟩
  exact exists_obtains hs htrue hsweep (hE.mem_order_iff_not_circular.mpr ⟨hf, hx⟩) hcomputed

/-- A field that fails, one with a dotted id, two that depend on each other, and a plain one. -/
def mixedFields : List Operation :=
  [.register "broken" (some "price + absent") none .null,
    .register "order.fee" (some "price * 2") none .null,
    .register "left" (some "right") none (.int 7),
    .register "right" (some "left") none .null,
    .register "note" none none .null]

def priceOnly : Offer := { raw := ⟨[(.text "price", .int 3)]⟩ }

/-- Every key and every error of such a pass is accounted for. -/
theorem evaluateAll_accounts_mixedFields :
    ∃ results t, (evaluateAll (.int 0) priceOnly).run (after (create {}) mixedFields) =
        (.ok results, t) ∧
      results.keys = ["price", "absent", "note", "order.fee", "fee", "broken", "left", "right"] ∧
      t.errors.keys = ["broken", "left", "right"] ∧
      Accounts (.int 0) priceOnly (after (create {}) mixedFields) results t := by
  let run := (evaluateAll (.int 0) priceOnly).run (after (create {}) mixedFields)
  have hok : run.1.isOk := by decide +kernel
  have hkeys : run.1.toOption.all fun results => results.keys ==
      ["price", "absent", "note", "order.fee", "fee", "broken", "left", "right"] := by decide +kernel
  have herrors : run.2.errors.keys = ["broken", "left", "right"] := by decide +kernel
  obtain ⟨results, t, hrun⟩ := exists_of_isOk hok
  simp only [hrun, Except.toOption, Option.all_some] at hkeys herrors
  exact ⟨results, t, hrun, eq_of_beq hkeys, herrors, evaluateAll_accounts {} mixedFields hrun⟩

end LiveForm.Session
