import LiveForm.Proofs.Session.Inputs

/-! # What a pass leaves for a new seed

A pass keeps the values of its computed fields apart. A new seed of the entered values takes them over
whatever the pass has started with; what the pass itself reports of entered values and of plain fields
is what it has started with, up to cells that fields have written into. -/

namespace LiveForm.Session

open LiveForm.Action

/-! ## What a pass reports, by what it starts with -/

theorem named_ofContext (c : Context) : Layers.named (Mapping.ofContext c) = .ok c := by
  obtain ⟨es⟩ := c
  have hbindings : (es.map fun e => (Key.text e.1, e.2)).mapM Mapping.binding? = some es := by
    induction es with
    | nil => rfl
    | cons e rest ih => simp [List.mapM_cons, ih, Mapping.binding?, Key.text?]
  simp [Layers.named, Mapping.context?, Mapping.ofContext, Table.mapKeys, hbindings]

section Steps

variable {s : Session} {E : Edges} {raw seeded : Context} {p q : Pass} {id x : String} {v : Value}
  {done rest : List String}

/-- What a pass keeps apart are the values of the computed fields that are done. -/
structure Tracks (s : Session) (done : List String) (p : Pass) : Prop where
  nodup : p.computed.keys.Nodup
  mem : ∀ d, (p.computed.get? d).isSome →
    d ∈ done ∧ (s.graph.expressionAt d).isSome ∧ ∃ row, RowRef.parse? d = .ok row
  value : ∀ d ∈ done, (s.graph.expressionAt d).isSome →
    ∃ w, p.computed.get? d = some w ∧ p.results.get? d = some w

theorem Tracks.step (h : Stepped s raw id p q) (hp : Tracks s done p) : Tracks s (done ++ [id]) q := by
  refine ⟨h.nodup_computed hp.nodup, fun d hd => ?_, fun d hd hx => ?_⟩
  · have hbefore (hd : (p.computed.get? d).isSome) : d ∈ done ++ [id] ∧
        (s.graph.expressionAt d).isSome ∧ ∃ row, RowRef.parse? d = .ok row :=
      (hp.mem d hd).imp_left (List.mem_append_left [id])
    by_cases hne : d = id
    · subst hne
      cases h with
      | unbound => exact hbefore hd
      | plain v =>
        rw [Pass.enter_computed] at hd
        exact hbefore hd
      | computed a row hx hrow => exact ⟨by simp, hx, row, hrow⟩
    · rw [h.computed_eq hne] at hd
      exact hbefore hd
  · by_cases hne : d = id
    · subst hne
      cases h with
      | unbound hnone =>
        rw [hnone] at hx
        cases hx
      | plain _ hnone =>
        rw [hnone] at hx
        cases hx
      | computed a row =>
        refine ⟨a.value, ?_, ?_⟩
        · rw [Pass.enterAnswer_computed, Table.get?_insert_self]
        · rw [Pass.get?_enterAnswer_results, if_pos rfl]
    · have hdone := (List.mem_append.mp hd).resolve_right fun h => hne (List.mem_singleton.mp h)
      have hleaf : standIn? s raw id ≠ some d :=
        standIn?_ne_of_mem (Graph.mem_keys_of_expressionAt hx)
      rw [h.computed_eq hne, h.results_eq hne (.inl hleaf)]
      exact hp.value d hdone hx

/-- A plain field reports what it is bound to at the start, or null. -/
def ReportsSeed (seeded : Context) (x : String) (done : List String) (p : Pass) : Prop :=
  if x ∈ done then p.results.get? x = some ((seeded.get? x).getD .null)
  else p.working.get? x = seeded.get? x ∧ (seeded.get? x = none → p.results.get? x = none)

theorem ReportsSeed.step (hE : s.graph.Consistent E) (ho : s.graph.order = done ++ id :: rest)
    (hx : x ∈ s.graph.nodes.keys) (hplain : s.graph.expressionAt x = none)
    (hrows : ∀ f, ¬WritesRowOf s x f) (hraw : ∀ v, raw.get? x = some v → seeded.get? x = some v)
    (h : Stepped s raw id p q) (hp : ReportsSeed seeded x done p) :
    ReportsSeed seeded x (done ++ [id]) q := by
  by_cases hne : x = id
  · subst hne
    rw [ReportsSeed, if_neg (hE.next_not_done ho)] at hp
    rw [ReportsSeed, if_pos (by simp)]
    cases h with
    | unbound _ hw =>
      rw [hp.1] at hw
      rw [Table.get?_insertNew, if_pos (beq_self_eq_true x), hp.2 hw, hw, Option.getD_none]
    | plain v _ hv =>
      rw [Pass.get?_enter_results, if_pos rfl]
      rcases hv with ⟨hv, -⟩ | ⟨hv, -⟩
      · rw [hraw v hv, Option.getD_some]
      · rw [← hp.1, hv, Option.getD_some]
    | computed _ _ hcomputed =>
      rw [hplain] at hcomputed
      cases hcomputed
  · have hleaf : standIn? s raw id ≠ some x := standIn?_ne_of_mem hx
    have hmem : x ∈ done ++ [id] ↔ x ∈ done := by simp [hne]
    unfold ReportsSeed
    simp only [hmem, h.working_eq hne hleaf (hrows id), h.results_eq hne (.inl hleaf)]
    exact hp

/-- An entered value stays reported under a name that is no field. -/
theorem Stepped.results_of_not_mem (hE : s.graph.Consistent E)
    (ho : s.graph.order = done ++ id :: rest) (hx : x ∉ s.graph.nodes.keys)
    (h : Stepped s raw id p q) (hp : p.results.get? x = some v) : q.results.get? x = some v := by
  have hne : x ≠ id := fun heq => hx (heq ▸ hE.next_mem_keys ho)
  rw [h.results_eq hne (.inr (by rw [hp]; rfl)), hp]

/-- A dotted id that is neither a field nor entered is not reported. -/
theorem Stepped.results_of_dot (hE : s.graph.Consistent E) (ho : s.graph.order = done ++ id :: rest)
    (hx : x ∉ s.graph.nodes.keys) (hdot : '.' ∈ x.toList) (h : Stepped s raw id p q)
    (hp : p.results.get? x = none) : q.results.get? x = none := by
  have hne : x ≠ id := fun heq => hx (heq ▸ hE.next_mem_keys ho)
  rw [h.results_eq hne (.inl fun hleaf => ?_), hp]
  exact dot_not_mem_of_alias? (standIn?_eq_some_iff.mp hleaf).2.1 hdot

end Steps

/-- What a pass over entered values has computed and reports. -/
structure Completed (s : Session) (entered seeded : Context) (p : Pass) : Prop where
  tracks : Tracks s s.graph.order p
  plain : ∀ x ∈ s.graph.order, s.graph.expressionAt x = none → (∀ f, ¬WritesRowOf s x f) →
    p.results.get? x = some ((seeded.get? x).getD .null)
  kept : ∀ x v, x ∉ s.graph.nodes.keys → entered.get? x = some v → p.results.get? x = some v
  dotted : ∀ x, x ∉ s.graph.nodes.keys → entered.get? x = none → '.' ∈ x.toList →
    p.results.get? x = none
  rows : ∀ x v, x ∈ s.graph.order → s.graph.expressionAt x = none → entered.get? x = some v →
    ∃ w, p.results.get? x = some w ∧
      Rewritten x (fun f => f ∈ s.graph.order ∧ WritesRowOf s x f) p.results.get? v w

theorem sweep_completed {s u : Session} (hs : Wired s) {now : Number} {entered : Context}
    (hn : entered.keys.Nodup) {p : Pass}
    (h : (sweep now { raw := .ofContext entered }).run s = (.ok p, u)) :
    Held s u ∧ ∃ seeded, seed s.settings { raw := entered } = .ok seeded ∧
      Completed s entered seeded p := by
  obtain ⟨E, hE⟩ := hs.consistent
  obtain ⟨⟨raw, calculated, metadata⟩, seeded, hlayers, hseed, hheld, hinduct⟩ := sweep_induct hs h
  obtain ⟨hraw, hcalculated, hmetadata⟩ := ofOffer_eq_ok hlayers
  obtain rfl : raw = entered := Except.ok.inj (hraw.symm.trans (named_ofContext entered))
  obtain rfl : calculated = .empty := (Except.ok.inj hcalculated).symm
  obtain rfl : metadata = .empty := (Except.ok.inj hmetadata).symm
  have hbound {x : String} {v : Value} (hx : raw.get? x = some v) : seeded.get? x = some v :=
    get?_seed_of_raw rfl hn hx hseed
  refine ⟨hheld, seeded, hseed, ?_, fun x hx hplain hrows => ?_, fun x v hx hv => ?_,
    fun x hx hnone hdot => ?_, fun x v hx hplain hv => ?_⟩
  · exact hinduct (Tracks s) ⟨List.nodup_nil, fun d hd => (by cases hd), fun d hd => (by cases hd)⟩
      fun done id rest p q _ hstep hp => hp.step hstep
  · have hlast := hinduct (ReportsSeed seeded x) ?_ fun done id rest p q ho hstep hp =>
      hp.step hE ho (hE.mem_order_iff_not_circular.mp hx).1 hplain hrows (fun _ => hbound) hstep
    · rwa [ReportsSeed, if_pos hx] at hlast
    · rw [ReportsSeed, if_neg List.not_mem_nil]
      refine ⟨rfl, fun hnone => Option.eq_none_iff_forall_ne_some.mpr fun v hv => ?_⟩
      cases hnone.symm.trans (hbound hv)
  · exact hinduct (fun _ p => p.results.get? x = some v) hv
      fun done id rest p q ho hstep hp => hstep.results_of_not_mem hE ho hx hp
  · exact hinduct (fun _ p => p.results.get? x = none) hnone
      fun done id rest p q ho hstep hp => hstep.results_of_dot hE ho hx hdot hp
  · refine sweep_reportsInput hs h ?_ List.nodup_nil hx hplain ?_ rfl fun _ _ d hd => by cases hd
    · rw [keys_ofContext]
      exact hn.map fun a b hab => Key.text.inj hab
    · exact (Mapping.get?_ofContext raw x).trans hv

/-! ## Seeding anew -/

theorem ofOffer_ofContext (entered computed : Context) :
    Layers.ofOffer { raw := .ofContext entered, calculated := .ofContext computed } =
      .ok { raw := entered, calculated := computed } := by
  have hmetadata : Layers.named .empty = .ok .empty := rfl
  simp only [Layers.ofOffer, named_ofContext, hmetadata, bind, Except.bind, pure, Except.pure]

theorem aliasCalculated_returns {computed : Context}
    (h : ∀ e ∈ computed.entries, ∃ leaf?, alias? e.1 = .ok leaf?) (working : Context) :
    ∃ w, aliasCalculated computed working = .ok w := by
  obtain ⟨es⟩ := computed
  unfold aliasCalculated
  dsimp only at h ⊢
  induction es generalizing working with
  | nil => exact ⟨working, rfl⟩
  | cons e rest ih =>
    obtain ⟨leaf?, halias⟩ := h e List.mem_cons_self
    have htail (w : Context) := ih w fun d hd => h d (List.mem_cons_of_mem e hd)
    rw [List.foldlM_cons]
    cases leaf? with
    | none => simpa [halias, bind, Except.bind, pure, Except.pure] using htail working
    | some leaf =>
      simpa [halias, bind, Except.bind, pure, Except.pure] using htail (working.insert leaf e.2)

theorem aliasRaw_returns {raw working w : Context} (h : aliasRaw raw working = .ok w)
    (working' : Context) : ∃ w', aliasRaw raw working' = .ok w' := by
  obtain ⟨es⟩ := raw
  unfold aliasRaw at *
  dsimp only at h ⊢
  induction es generalizing working working' with
  | nil => exact ⟨working', rfl⟩
  | cons e rest ih =>
    rw [List.foldlM_cons] at h ⊢
    obtain ⟨w', hw', h⟩ := bind_eq_ok h
    obtain ⟨leaf?, halias, -⟩ := bind_eq_ok hw'
    cases leaf? with
    | none => simpa [halias, bind, Except.bind, pure, Except.pure] using ih _ h
    | some leaf => simpa [halias, bind, Except.bind, pure, Except.pure] using ih _ h

/-- What entered values alone bind a name to. -/
theorem get?_seed_entered {settings : Settings} {entered first : Context} (hn : entered.keys.Nodup)
    (h : seed settings { raw := entered } = .ok first) :
    ∃ cells, flattenRows entered = .ok cells ∧ ∀ x, first.get? x =
      ((entered.get? x).or (cells.get? x)).or (standing settings entered.entries x) := by
  have hraw : ({ raw := entered } : Layers).raw.keys.Nodup := hn
  obtain ⟨cells, hcells, hseed⟩ := get?_seed hraw List.nodup_nil h
  have hnothing (x : String) : standing settings (Table.empty : Context).entries.reverse x = none := by
    unfold standing
    split <;> rfl
  refine ⟨cells, hcells, fun x => ?_⟩
  rw [hseed, hnothing, Table.get?_empty, Option.none_or, Option.none_or, Option.or_none]

/-- A seed with computed values differs from one without them in what the computed values take. -/
theorem seed_again {settings : Settings} {entered computed first : Context}
    (hn : entered.keys.Nodup) (hcomputed : computed.keys.Nodup)
    (h : seed settings { raw := entered } = .ok first)
    (hids : ∀ e ∈ computed.entries, ∃ leaf?, alias? e.1 = .ok leaf?) :
    ∃ seeded, seed settings { raw := entered, calculated := computed } = .ok seeded ∧
      ∀ x, seeded.get? x = (standing settings computed.entries.reverse x).or
        ((computed.get? x).or (first.get? x)) := by
  obtain ⟨seeded, hseeded⟩ : ∃ seeded,
      seed settings { raw := entered, calculated := computed } = .ok seeded := by
    obtain ⟨cells, hcells, h⟩ := bind_eq_ok h
    unfold seed
    dsimp only at h ⊢
    rw [hcells]
    dsimp only [bind, Except.bind]
    split at h
    · rename_i ha
      obtain ⟨w, hw, -⟩ := bind_eq_ok h
      obtain ⟨w', hw'⟩ := aliasRaw_returns hw _
      rw [if_pos ha, hw']
      exact aliasCalculated_returns hids w'
    · rename_i ha
      rw [if_neg ha]
      exact ⟨_, rfl⟩
  refine ⟨seeded, hseeded, fun x => ?_⟩
  obtain ⟨cells, hcells, hsecond⟩ := get?_seed hn hcomputed hseeded
  obtain ⟨cells', hcells', hfirst⟩ := get?_seed_entered hn h
  obtain rfl := Except.ok.inj (hcells.symm.trans hcells')
  rw [hsecond, hfirst, Table.get?_empty, Option.or_none, Option.or_assoc]

/-! ## The report and a new seed -/

/-- What is known of a session after a pass over entered values: how a new seed comes about from its
computed values and what the pass has started with, and what is reported of names that are not
circular. -/
structure Finished (t : Session) (entered first seeded : Context) : Prop where
  nodup : t.computed.keys.Nodup
  starts : ∃ cells, flattenRows entered = .ok cells ∧ ∀ x, first.get? x =
    ((entered.get? x).or (cells.get? x)).or (standing t.settings entered.entries x)
  seeds : ∀ x, seeded.get? x = (standing t.settings t.computed.entries.reverse x).or
    ((t.computed.get? x).or (first.get? x))
  plain : ∀ x ∈ t.graph.nodes.keys, x ∉ t.graph.circular → t.graph.expressionAt x = none →
    (∀ f, ¬WritesRowOf t x f) → t.lastResults.get? x = some ((first.get? x).getD .null)
  computed : ∀ x v, t.computed.get? x = some v →
    (t.graph.expressionAt x).isSome ∧ t.lastResults.get? x = some v
  computes : ∀ x, (t.graph.expressionAt x).isSome → x ∉ t.graph.circular →
    (t.computed.get? x).isSome
  kept : ∀ x v, x ∉ t.graph.nodes.keys → x ∉ t.graph.circular → entered.get? x = some v →
    t.lastResults.get? x = some v
  dotted : ∀ x, x ∉ t.graph.nodes.keys → x ∉ t.graph.circular → entered.get? x = none →
    '.' ∈ x.toList → t.lastResults.get? x = none
  rows : ∀ x v, x ∉ t.graph.circular → t.graph.expressionAt x = none → entered.get? x = some v →
    ∃ w, t.lastResults.get? x = some w ∧
      Rewritten x (WritesRowOf t x) t.lastResults.get? v w

theorem computed_foldl_addCircular (nodes : Graph.Nodes) (p : Pass) (ids : List String) :
    (ids.foldl (Pass.addCircular nodes) p).computed = p.computed := by
  induction ids generalizing p with
  | nil => rfl
  | cons id rest ih => exact ih (Pass.addCircular nodes p id)

theorem Completed.finished {s u : Session} {E : Edges} {entered first seeded : Context} {p : Pass}
    (hE : s.graph.Consistent E) (hheld : Held s u) (hn : entered.keys.Nodup)
    (hfirst : seed s.settings { raw := entered } = .ok first) (hp : Completed s entered first p)
    (hseeded : ∀ x, seeded.get? x = (standing s.settings p.computed.entries.reverse x).or
      ((p.computed.get? x).or (first.get? x))) :
    Finished (publish (u.graph.circular.foldl (Pass.addCircular u.graph.nodes) p) u) entered first
      seeded := by
  have hcomputed := computed_foldl_addCircular u.graph.nodes p u.graph.circular
  have hkeys := Graph.keys_of_stable_eq hheld.kept.stable
  have hexpr := Graph.expressionAt_of_stable_eq hheld.kept.stable
  have hwrites {x f : String} : WritesRowOf u x f ↔ WritesRowOf s x f := by
    unfold WritesRowOf
    rw [hexpr]
  have horder {x : String} : x ∈ s.graph.order ↔ x ∈ u.graph.nodes.keys ∧ x ∉ u.graph.circular := by
    rw [Graph.circular_eq_of_stable_eq hheld.kept.stable, hkeys, hE.mem_order_iff_not_circular]
  -- Only what is reported of circular fields is added after the steps.
  have hresults {x : String} (hx : x ∉ u.graph.circular) :
      (publish (u.graph.circular.foldl (Pass.addCircular u.graph.nodes) p) u).lastResults.get? x =
        p.results.get? x := (foldl_addCircular u.graph.nodes hx).1
  refine ⟨?_, ?_, fun x => ?_, fun x hx hc hplain hrows => ?_,
    fun x v hv => ?_, fun x hx hc => ?_, fun x v hx hc hv => ?_, fun x hx hc hnone hdot => ?_,
    fun x v hc hplain hv => ?_⟩
  · rw [publish, hcomputed]
    exact hp.tracks.nodup
  · rw [publish, hheld.settings]
    exact get?_seed_entered hn hfirst
  · rw [hseeded, ← hheld.settings, publish, hcomputed]
  · rw [hresults hc]
    exact hp.plain x (horder.mpr ⟨hx, hc⟩) ((hexpr x).symm.trans hplain)
      fun f hf => hrows f (hwrites.mpr hf)
  · rw [publish, hcomputed] at hv
    obtain ⟨hx, hsome, -⟩ := hp.tracks.mem x (by rw [hv]; rfl)
    obtain ⟨w, hw, hr⟩ := hp.tracks.value x hx hsome
    obtain rfl := Option.some.inj (hv.symm.trans hw)
    exact ⟨(congrArg Option.isSome (hexpr x)).trans hsome, (hresults (horder.mp hx).2).trans hr⟩
  · have hmem := Graph.mem_keys_of_expressionAt hx
    obtain ⟨w, hw, -⟩ := hp.tracks.value x (horder.mpr ⟨hmem, hc⟩) (hexpr x ▸ hx)
    rw [publish, hcomputed, hw]
    rfl
  · exact (hresults hc).trans (hp.kept x v (hkeys ▸ hx) hv)
  · exact (hresults hc).trans (hp.dotted x (hkeys ▸ hx) hnone hdot)
  · by_cases hx : x ∈ u.graph.nodes.keys
    · obtain ⟨w, hw, hrows⟩ := hp.rows x v (horder.mpr ⟨hx, hc⟩) ((hexpr x).symm.trans hplain) hv
      refine ⟨w, (hresults hc).trans hw, hrows.mono fun f ⟨hf, hrow⟩ => ?_⟩
      exact ⟨hwrites.mpr hrow, hresults (horder.mp hf).2⟩
    · exact ⟨v, (hresults hc).trans (hp.kept x v (hkeys ▸ hx) hv), .inl rfl⟩

theorem evaluateAll_finished {s t : Session} (hs : Wired s) {now : Number} {entered : Context}
    (hn : entered.keys.Nodup) {results : Context}
    (h : (evaluateAll now { raw := .ofContext entered }).run s = (.ok results, t)) :
    ∃ first seeded, t.templateValues (some (.ofContext entered)) none .empty =
      .ok (.ofContext seeded) ∧ Finished t entered first seeded := by
  obtain ⟨E, hE⟩ := hs.consistent
  obtain ⟨p, u, hsweep, -, rfl⟩ := evaluateAll_returns h
  obtain ⟨hheld, first, hfirst, hp⟩ := sweep_completed hs hn hsweep
  have hids : ∀ e ∈ p.computed.entries, ∃ leaf?, alias? e.1 = .ok leaf? := by
    intro e he
    obtain ⟨-, -, row, hrow⟩ := hp.tracks.mem e.1 (by rw [Table.get?_of_mem hp.tracks.nodup he]; rfl)
    unfold alias? isRowId
    rw [hrow]
    cases leafName? e.1 <;> exact ⟨_, rfl⟩
  obtain ⟨seeded, hseeded, hbound⟩ := seed_again hn hp.tracks.nodup hfirst hids
  refine ⟨first, seeded, ?_, hp.finished hE hheld hn hfirst hbound⟩
  rw [← hheld.settings] at hseeded
  simp only [templateValues, publish, Option.getD_none,
    computed_foldl_addCircular u.graph.nodes p u.graph.circular, ofOffer_ofContext, hseeded, bind,
    Except.bind, pure, Except.pure]

end LiveForm.Session
