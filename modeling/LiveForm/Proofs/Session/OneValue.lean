import LiveForm.Proofs.Session.RowLinks
import LiveForm.Proofs.Session.Seed
import LiveForm.Proofs.Session.Steps

/-! # What is read under a name and what is reported

Expressions read the working context, and the caller is told the results. Under the id of a field both
hold the same at the end of a pass; a field that nothing is bound under is reported as null. An array
that is no longer linked to its computed rows is an exception, since their cells change it after it
has been reported. Under other names the two may differ where several values compete for the name: the
working context has the value that came last, the results the one that came first. -/

namespace LiveForm

/-- What is reported under a key is what is read under it; of nothing, null is reported. -/
def Pass.AgreesOn (p : Pass) (k : String) : Prop :=
  ∀ v, p.results.get? k = some v →
    p.working.get? k = some v ∨ p.working.get? k = none ∧ v = .null

namespace Session

open LiveForm.Action

/-- An array depends on the computed fields of its rows. -/
def WaitsForRows (s : Session) (k : String) : Prop := ∀ id, WritesRowOf s k id → s.graph.DependsOn k id

/-- No value competes with the one that is reported under a name that is no field: neither a computed
value that is offered under a dotted id, when the name itself is offered, nor a field with a dotted
id, unless the name is entered. -/
structure Undisputed (s : Session) (offer : Offer) (working results : Context) (k : String)
    (v : Value) : Prop where
  offered : (offer.raw.get? (.text k)).isSome ∨ (offer.calculated.get? (.text k)).isSome →
    ∀ d w, offer.calculated.get? (.text d) = some w → alias? d = .ok (some k) → w = v
  fields : offer.raw.get? (.text k) = none →
    ∀ f ∈ s.graph.order, alias? f = .ok (some k) →
      working.get? f = none ∨ results.get? f = some v

section Steps

variable {s : Session} {E : Edges} {raw : Context} {p q : Pass} {id k : String} {v : Value}
  {done rest : List String}

/-- No computed field of a row of an array comes after the array, if the array waits for it. -/
theorem not_writesRowOf_of_mem (hE : s.graph.Consistent E) (ho : s.graph.order = done ++ id :: rest)
    (hk : k ∈ done ++ [id]) (hrows : WaitsForRows s k) : ¬WritesRowOf s k id := fun hw =>
  hE.next_not_done ho (hE.mem_of_dependsOn ho hk (hrows id hw))

/-! ## Fields -/

/-- A pass reports nothing under a field before it comes to the field, unless something is bound
there; afterwards it agrees on the field. -/
def Settles (done : List String) (k : String) (p : Pass) : Prop :=
  if k ∈ done then p.AgreesOn k else p.working.get? k = none → p.results.get? k = none

/-- A step agrees on its own field. -/
theorem Stepped.agreesOn_self (h : Stepped s raw id p q) (hrow : ¬WritesRowOf s id id)
    (hp : p.working.get? id = none → p.results.get? id = none) : q.AgreesOn id := by
  intro w hw
  cases h with
  | unbound hx hnone hraw =>
    rw [Table.get?_insertNew, hp hnone] at hw
    simp only [beq_self_eq_true, if_true, Option.getD_none, Option.some.injEq] at hw
    exact .inr ⟨hnone, hw.symm⟩
  | plain v =>
    rw [Pass.get?_enter_results, if_pos rfl] at hw
    rw [Pass.get?_enter_working, if_pos (.inr rfl)]
    exact .inl hw
  | computed a row hx hparse =>
    have harray (r : RowRef) (hr : row = some r) : id ≠ r.array := fun heq =>
      hrow ⟨hx, r, hr ▸ hparse, heq.symm⟩
    rw [Pass.get?_enterAnswer_results, if_pos rfl] at hw
    rw [Pass.get?_enterAnswer_working harray, if_pos (.inr rfl)]
    exact .inl hw

theorem Settles.step (hE : s.graph.Consistent E) (ho : s.graph.order = done ++ id :: rest)
    (hk : k ∈ s.graph.nodes.keys) (hrows : WaitsForRows s k) (h : Stepped s raw id p q)
    (hp : Settles done k p) : Settles (done ++ [id]) k q := by
  have hleaf : standIn? s raw id ≠ some k := standIn?_ne_of_mem hk
  by_cases hne : k = id
  · subst hne
    rw [Settles, if_neg (hE.next_not_done ho)] at hp
    rw [Settles, if_pos (by simp)]
    exact h.agreesOn_self (not_writesRowOf_of_mem hE ho (by simp) hrows) hp
  · have hresults := h.results_eq hne (.inl hleaf)
    by_cases hdone : k ∈ done
    · have hrow := not_writesRowOf_of_mem hE ho (List.mem_append_left [id] hdone) hrows
      rw [Settles, if_pos hdone] at hp
      rw [Settles, if_pos (List.mem_append_left [id] hdone), Pass.AgreesOn, hresults,
        h.working_eq hne hleaf hrow]
      exact hp
    · rw [Settles, if_neg hdone] at hp
      rw [Settles, if_neg (by simp [hdone, hne]), hresults]
      exact fun hnone => hp (h.unbound_of_unbound hnone)

/-! ## Names that are no fields -/

/-- The fields that are done and share a name have the value that is reported under it. -/
def Concur (s : Session) (raw : Context) (done : List String) (k : String) (v : Value) (p : Pass) :
    Prop :=
  ∀ f ∈ done, standIn? s raw f = some k → p.working.get? f = none ∨ p.results.get? f = some v

theorem Concur.of_step (hE : s.graph.Consistent E) (ho : s.graph.order = done ++ id :: rest)
    (h : Stepped s raw id p q) (hq : Concur s raw (done ++ [id]) k v q) : Concur s raw done k v p := by
  intro f hf hleaf
  have hne : f ≠ id := fun heq => hE.next_not_done ho (heq ▸ hf)
  have hmem : f ∈ s.graph.nodes.keys :=
    (hE.mirrors.node_iff f).mpr (hE.node_of_mem_order (by rw [ho]; exact List.mem_append_left _ hf))
  refine (hq f (List.mem_append_left _ hf) hleaf).imp h.unbound_of_unbound fun hv => ?_
  rwa [h.results_eq hne (.inl (standIn?_ne_of_mem hmem))] at hv

/-- A pass reads under a name what it reports there, if the fields that share the name concur. -/
def Shares (s : Session) (raw : Context) (done : List String) (k : String) (v : Value) (p : Pass) :
    Prop :=
  p.results.get? k = some v → Concur s raw done k v p → p.working.get? k = some v

theorem Shares.step (hE : s.graph.Consistent E) (ho : s.graph.order = done ++ id :: rest)
    (hk : k ∉ s.graph.nodes.keys) (hrows : WaitsForRows s k) (h : Stepped s raw id p q)
    (hp : Shares s raw done k v p) : Shares s raw (done ++ [id]) k v q := by
  intro hv hq
  have hne : k ≠ id := fun heq => hk (heq ▸ hE.next_mem_keys ho)
  have hrow : ¬WritesRowOf s k id := fun hw =>
    hk ((hE.mirrors.node_iff k).mpr (hE.node_of_dependsOn (hrows id hw)).1)
  have hbefore := hq.of_step hE ho h
  by_cases hleaf : standIn? s raw id = some k
  · -- the name now stands for the value of this field, which is the one that is reported
    have hself := hq id (by simp) hleaf
    cases h with
    | unbound =>
      rw [Table.get?_insertNew, if_neg (by simpa using hne)] at hv
      exact hp hv hbefore
    | plain w =>
      have hw := hself.resolve_left (Option.isSome_iff_ne_none.mp (Pass.bound_enter (.inl rfl)))
      rw [Pass.get?_enter_results, if_pos rfl] at hw
      rw [Pass.get?_enter_working, if_pos (.inl hleaf), hw]
    | computed a row hx hparse =>
      have hw := hself.resolve_left (Option.isSome_iff_ne_none.mp (Pass.bound_enterAnswer (.inl rfl)))
      have harray (r : RowRef) (hr : row = some r) : k ≠ r.array := fun heq =>
        hrow ⟨hx, r, hr ▸ hparse, heq.symm⟩
      rw [Pass.get?_enterAnswer_results, if_pos rfl] at hw
      rw [Pass.get?_enterAnswer_working harray, if_pos (.inl hleaf), hw]
  · rw [h.results_eq hne (.inl hleaf)] at hv
    rw [h.working_eq hne hleaf hrow]
    exact hp hv hbefore

end Steps

/-! ## A whole pass -/

section Sweep

variable {s u : Session} {now : Number} {offer : Offer} {p : Pass} {k : String} {v : Value}

/-- A pass agrees on every field that has an order. -/
theorem sweep_agreesOn_field (hs : Wired s) (h : (sweep now offer).run s = (.ok p, u))
    (hraw : offer.raw.keys.Nodup) (hcalculated : offer.calculated.keys.Nodup)
    (hk : k ∈ s.graph.order) (hrows : WaitsForRows s k) : p.AgreesOn k := by
  obtain ⟨E, hE⟩ := hs.consistent
  obtain ⟨layers, working, hlayers, hworking, -, hinduct⟩ := sweep_induct hs h
  obtain ⟨hraw, hcalculated, -, -⟩ := get?_of_ofOffer hlayers hraw hcalculated
  have hfirst : Settles [] k
      { working := working, results := layers.raw.merge layers.calculated } := by
    rw [Settles, if_neg List.not_mem_nil]
    intro hnone
    by_contra hsome
    obtain ⟨w, hw⟩ := Option.ne_none_iff_exists'.mp hsome
    have hbound := get?_seed_isSome hraw hcalculated hworking hw
    rw [hnone] at hbound
    cases hbound
  have hmem := (hE.mem_order_iff_not_circular.mp hk).1
  have hlast := hinduct (fun done => Settles done k) hfirst
    fun done id rest p q ho hstep hp => hp.step hE ho hmem hrows hstep
  rwa [Settles, if_pos hk] at hlast

/-- A pass reads under a name that is no field what it reports there, if the value is not disputed. -/
theorem sweep_reads_name (hs : Wired s) (h : (sweep now offer).run s = (.ok p, u))
    (hraw : offer.raw.keys.Nodup) (hcalculated : offer.calculated.keys.Nodup)
    (hk : k ∉ s.graph.nodes.keys) (hrows : WaitsForRows s k) (hv : p.results.get? k = some v)
    (hundisputed : s.settings.aliasLeafNames → Undisputed s offer p.working p.results k v) :
    p.working.get? k = some v := by
  obtain ⟨E, hE⟩ := hs.consistent
  obtain ⟨layers, working, hlayers, hworking, -, hinduct⟩ := sweep_induct hs h
  obtain ⟨hraw, hcalculated, hentered, hcomputed⟩ := get?_of_ofOffer hlayers hraw hcalculated
  have hfirst : Shares s layers.raw [] k v
      { working := working, results := layers.raw.merge layers.calculated } := by
    intro hw _
    refine get?_seed_of_offered hraw hcalculated hworking hw fun ha d w hd hdk => ?_
    refine (hundisputed ha).offered ?_ d w ((hcomputed d).trans hd) hdk
    rw [hentered, hcomputed, Or.comm, ← Bool.or_eq_true, ← Option.isSome_or,
      ← Table.get?_merge hcalculated, hw]
    rfl
  have hlast := hinduct (fun done => Shares s layers.raw done k v) hfirst
    fun done id rest p q ho hstep hp => hp.step hE ho hk hrows hstep
  refine hlast hv fun f hf hleaf => ?_
  obtain ⟨ha, hfk, -, hfree⟩ := standIn?_eq_some_iff.mp hleaf
  exact (hundisputed ha).fields ((hentered k).trans hfree) f hf hfk

end Sweep

/-- **What is reported under a name is what is read under it.** After any history, a pass reports under
every key that is not circular what its working context binds the key to in the end, or null under a
key that is left unbound; provided that the key, if it is an array, depends on the computed fields of
its rows, and that its value is not disputed, if the key is no field. -/
theorem evaluateAll_agrees (settings : Settings) (ops : List Operation) {now : Number} {offer : Offer}
    (hraw : offer.raw.keys.Nodup) (hcalculated : offer.calculated.keys.Nodup) {results : Context}
    {t : Session}
    (h : (evaluateAll now offer).run (after (create settings) ops) = (.ok results, t)) :
    let s := after (create settings) ops
    ∃ p u, (sweep now offer).run s = (.ok p, u) ∧
      ∀ k v, results.get? k = some v → k ∉ t.graph.circular → WaitsForRows s k →
        (k ∉ s.graph.nodes.keys → s.settings.aliasLeafNames →
          Undisputed s offer p.working results k v) →
        p.working.get? k = some v ∨ p.working.get? k = none ∧ v = .null := by
  intro s
  have hs : Wired s := wired_after (wired_create settings) ops
  obtain ⟨E, hE⟩ := hs.consistent
  obtain ⟨p, u, hsweep, rfl, rfl⟩ := evaluateAll_returns h
  obtain ⟨-, -, -, -, hheld, -⟩ := sweep_induct hs hsweep
  have hcircular : u.graph.circular = s.graph.circular :=
    Graph.circular_eq_of_stable_eq hheld.kept.stable
  have hreported {x : String} (hx : x ∉ s.graph.circular) :=
    (foldl_addCircular (p := p) u.graph.nodes (hcircular.symm ▸ hx)).1
  refine ⟨p, u, hsweep, fun k v hv hk hrows hundisputed => ?_⟩
  have hk : k ∉ s.graph.circular := hcircular ▸ hk
  rw [hreported hk] at hv
  by_cases hmem : k ∈ s.graph.nodes.keys
  · have horder := hE.mem_order_iff_not_circular.mpr ⟨hmem, hk⟩
    exact sweep_agreesOn_field hs hsweep hraw hcalculated horder hrows v hv
  · refine .inl (sweep_reads_name hs hsweep hraw hcalculated hmem hrows hv fun ha => ?_)
    refine ⟨(hundisputed hmem ha).offered, fun hnone f hf hfk => ?_⟩
    rw [← hreported (hE.mem_order_iff_not_circular.mp hf).2]
    exact (hundisputed hmem ha).fields hnone f hf hfk

/-- A field with a dotted id, and one that reads its last part. -/
def monthlyRate : List Operation :=
  [.register "result.rate" (some "income * 4") none .null,
    .register "monthly" (some "rate / 12") (some ["result.rate"]) .null]

def incomeOnly : Offer := { raw := ⟨[(.text "income", .int 30)]⟩ }

def isInt (n : Int) : Option Value → Bool
  | some (.int m) => m == n
  | _ => false

theorem eq_int_of_isInt {n : Int} {v? : Option Value} (h : isInt n v?) : v? = some (.int n) := by
  match v? with
  | some (.int m) => rw [eq_of_beq h]
  | some .null | some (.bool _) | some (.float _) | some (.undefined _) | some (.text _)
  | some (.list _) | some (.mapping _) | none => cases h

/-- The last part of the id is read as it is reported. -/
theorem evaluateAll_agrees_monthlyRate :
    ∃ results t p u, (evaluateAll (.int 0) incomeOnly).run (after (create {}) monthlyRate) =
        (.ok results, t) ∧
      (sweep (.int 0) incomeOnly).run (after (create {}) monthlyRate) = (.ok p, u) ∧
      results.get? "rate" = some (.int 120) ∧ p.working.get? "rate" = some (.int 120) := by
  let s := after (create {}) monthlyRate
  let run := (evaluateAll (.int 0) incomeOnly).run s
  have hok : run.1.isOk := by decide +kernel
  have hcircular : "rate" ∉ run.2.graph.circular := by decide +kernel
  have hvalues : run.1.toOption.all fun results =>
      isInt 120 (results.get? "rate") && isInt 120 (results.get? "result.rate") := by decide +kernel
  have hleaf : s.graph.order.all fun f => !aliases "rate" f || f == "result.rate" := by decide +kernel
  have hrow : s.graph.nodes.keys.all fun f => (RowRef.parse? f).toOption.join.isNone := by
    decide +kernel
  obtain ⟨results, t, hrun⟩ := exists_of_isOk hok
  simp only [hrun, Except.toOption, Option.all_some, Bool.and_eq_true] at hvalues hcircular
  have hrate := eq_int_of_isInt hvalues.1
  have hcalculated : incomeOnly.calculated.keys.Nodup := List.nodup_nil
  obtain ⟨p, u, hsweep, hall⟩ := evaluateAll_agrees {} monthlyRate (by simp [incomeOnly, Table.keys])
    hcalculated hrun
  have hwaits : WaitsForRows s "rate" := by
    rintro id ⟨hx, r, hr, -⟩
    have hnone := List.all_eq_true.mp hrow id (Graph.mem_keys_of_expressionAt hx)
    rw [hr] at hnone
    cases hnone
  refine ⟨results, t, p, u, hrun, hsweep, hrate, ?_⟩
  have hundisputed : Undisputed s incomeOnly p.working results "rate" (.int 120) := by
    refine ⟨fun _ d w hd => (by cases hd), fun _ f hf hfk => ?_⟩
    have hf' := List.all_eq_true.mp hleaf f hf
    rw [aliases_iff.mpr hfk] at hf'
    rw [eq_of_beq hf']
    exact .inr (eq_int_of_isInt hvalues.2)
  exact (hall "rate" _ hrate hcircular hwaits fun _ _ => hundisputed).resolve_right
    fun hnull => by cases hnull.2

/-! ## Names with several values -/

/-- A pass reports something else under a key than its working context binds the key to, although the
key is not circular. -/
def Disputed (ops : List Operation) (offer : Offer) (k : String) : Prop :=
  ∃ results t p u v w, (evaluateAll (.int 0) offer).run (after (create {}) ops) = (.ok results, t) ∧
    (sweep (.int 0) offer).run (after (create {}) ops) = (.ok p, u) ∧ k ∉ t.graph.circular ∧
    results.get? k = some v ∧ p.working.get? k = some w ∧ v ≠ w

/-- Whether a key is disputed, by equality of values. -/
def disputes (ops : List Operation) (offer : Offer) (k : String) : Bool :=
  match (evaluateAll (.int 0) offer).run (after (create {}) ops),
    (sweep (.int 0) offer).run (after (create {}) ops) with
  | (.ok results, t), (.ok p, _) =>
    match results.get? k, p.working.get? k with
    | some v, some w => !t.graph.circular.contains k && v.equal v && !v.equal w
    | _, _ => false
  | _, _ => false

theorem disputed_of_disputes {ops : List Operation} {offer : Offer} {k : String}
    (h : disputes ops offer k) : Disputed ops offer k := by
  unfold disputes at h
  split at h
  · rename_i results t p u hrun hsweep
    split at h
    · rename_i v w hv hw
      simp only [Bool.and_eq_true, Bool.not_eq_true', List.contains_eq_mem, decide_eq_false_iff_not]
        at h
      refine ⟨results, t, p, u, v, w, hrun, hsweep, h.1.1, hv, hw, ?_⟩
      rintro rfl
      rw [h.1.2] at h
      cases h.2
    · cases h
  · cases h

/-- Two fields have ids that end in one name. -/
def twoRates : List Operation :=
  [.register "first.rate" (some "1") none .null, .register "second.rate" (some "2") none .null]

/-- Names under which two values compete: of two fields, of a computed value that is offered and a
field, and of values that are offered under a name and under an id that ends in it; and an array that
has lost the links to its rows. -/
theorem not_agreeing :
    Disputed twoRates {} "rate" ∧
    Disputed [.register "first.rate" (some "1") none .null]
      { calculated := ⟨[(.text "rate", .int 2)]⟩ } "rate" ∧
    Disputed [] { raw := ⟨[(.text "rate", .int 1)]⟩, calculated := ⟨[(.text "first.rate", .int 2)]⟩ }
      "rate" ∧
    Disputed itemsAgain
      { raw := ⟨[(.text "items", .list [.mapping [(.text "price", .int 5), (.text "total", .int 0)]])]⟩ }
      "items" := by
  refine ⟨?_, ?_, ?_, ?_⟩
  all_goals exact disputed_of_disputes (by decide +kernel)

end Session

end LiveForm
