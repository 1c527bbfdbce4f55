import LiveForm.Proofs.Cells
import LiveForm.Proofs.Session.Binding
import LiveForm.Proofs.Session.RowLinks
import LiveForm.Proofs.Session.Seed

/-! # Arrays with the computed cells of their rows

While a pass goes through the order, the working context holds a list of rows under an entered array:
the entered rows with the computed fields that are done written back into their cells. All of them
come before the array, which reports the list as it then is, and before everything that reads it. -/

namespace LiveForm.Session

open LiveForm.Action

/-- A session that has not answered anything yet, and an array in it that is a plain input, with its
computed rows. -/
structure Recorded (start : Session) (array : String) : Prop where
  wired : Wired start
  unanswered : ∀ key e, ¬start.cache.Holds key e
  plain : start.graph.expressionAt array = none
  linked : ∀ f r, RowRef.parse? f = .ok (some r) → r.array = array →
    (start.graph.expressionAt f).isSome → start.graph.DependsOn array f
  canonical : ∀ f r, RowRef.parse? f = .ok (some r) → r.array = array →
    (start.graph.expressionAt f).isSome → r.qualify r.child = f

/-- The computed fields among those that are done. -/
def ComputedIn (start : Session) (done : List String) (f : String) : Prop :=
  f ∈ done ∧ (start.graph.expressionAt f).isSome

/-- A pass holds the rows of an array with the computed fields that are done in their cells; the array
reports them once it is done itself. -/
def HoldsRows (start : Session) (array : String) (rows : List Value) (done : List String)
    (p : Pass) : Prop :=
  ∃ rows', p.working.get? array = some (.list rows') ∧
    p.results.get? array = some (.list (if array ∈ done then rows' else rows)) ∧
    WrittenBack array (ComputedIn start done) p.results.get? rows rows'

/-- How far a pass has come that started in a session with an array. -/
structure Writing (start : Session) (array : String) (rows : List Value) (done : List String)
    (p : Pass) (s : Session) : Prop where
  kept : Kept start s
  answered : ∀ key e, s.cache.Holds key e → key.field ∈ done
  pending : ∀ x ∉ done, p.errors.get? x = none
  computed : ∀ f, ComputedIn start done f →
    (p.results.get? f).isSome ∧ ((p.errors.get? f).isSome → p.results.get? f = some .null)
  rows : HoldsRows start array rows done p

section Steps

variable {start s t : Session} {E : Edges} {array : String} {rows : List Value}
  {done rest : List String} {p q : Pass} {id : String} {now : Number} {raw : Context}

theorem computedIn_concat {f : String} : ComputedIn start (done ++ [id]) f ↔
    ComputedIn start done f ∨ (f = id ∧ (start.graph.expressionAt f).isSome) := by
  simp [ComputedIn, or_and_right]

/-- What is reported of the computed fields that are done stays. -/
theorem Writing.results_eq (h : Writing start array rows done p s) (ha : p.Apart id q)
    (hid : id ∉ done) {f : String} (hf : ComputedIn start done f) :
    q.results.get? f = p.results.get? f :=
  ha.results f (fun heq => hid (heq ▸ hf.1)) (h.computed f hf).1

/-- A step over a field that is neither the array nor a computed field of its rows. -/
theorem HoldsRows.other (h : Writing start array rows done p s) (ha : p.Apart id q)
    (hid : id ∉ done) (hne : id ≠ array)
    (hrow : ∀ r, RowRef.parse? id = .ok (some r) → r.array = array →
      start.graph.expressionAt id = none)
    (hw : q.working.get? array = p.working.get? array) :
    HoldsRows start array rows (done ++ [id]) q := by
  obtain ⟨rows', hworking, hresults, hwritten⟩ := h.rows
  have hmem : array ∈ done ++ [id] ↔ array ∈ done := by simp [Ne.symm hne]
  refine ⟨rows', hw.trans hworking, ?_, hwritten.congr (fun f r hr harray => ?_)
    fun f _ _ _ hf => h.results_eq ha hid hf⟩
  · rw [ha.results array (Ne.symm hne) (by rw [hresults]; rfl), hresults]
    simp only [hmem]
  · rw [computedIn_concat, or_iff_left]
    rintro ⟨rfl, hx⟩
    rw [hrow r hr harray] at hx
    cases hx

/-- The step over the array itself: it is given the rows as they are, or, if nothing is linked to it,
as they have been entered. -/
theorem HoldsRows.report (hs : Recorded start array) (h : Writing start array rows done p s)
    {v : Value} (ha : Binds raw array v p q) (hid : array ∉ done)
    (hv : v = .list rows ∧ (∀ d, ¬start.graph.DependsOn array d) ∨
      p.working.get? array = some v) :
    HoldsRows start array rows (done ++ [array]) q := by
  obtain ⟨rows', hworking, -, hwritten⟩ := h.rows
  have hsame (f : String) (r : RowRef) (_ : RowRef.parse? f = .ok (some r)) (_ : r.array = array) :
      ComputedIn start (done ++ [array]) f ↔ ComputedIn start done f := by
    rw [computedIn_concat, or_iff_left]
    rintro ⟨rfl, hx⟩
    rw [hs.plain] at hx
    cases hx
  rcases hv with ⟨rfl, hnone⟩ | hv
  · refine ⟨rows, ha.working_self, by rw [ha.results_self, ite_self], .refl fun f r hf hr harray => ?_⟩
    exact hnone f (hs.linked f r hr harray hf.2)
  · obtain rfl : Value.list rows' = v := Option.some.inj (hworking.symm.trans hv)
    refine ⟨rows', ha.working_self, by rw [ha.results_self, if_pos (by simp)], ?_⟩
    exact hwritten.congr hsame fun f _ _ _ hf => h.results_eq ha.apart hid hf

/-- The step over a computed field of a row of the array. -/
theorem HoldsRows.write (hs : Recorded start array) (hE : start.graph.Consistent E)
    (ho : start.graph.order = done ++ id :: rest) (h : Writing start array rows done p s)
    (ha : p.Apart id q) {r : RowRef} (hr : RowRef.parse? id = .ok (some r)) (harray : r.array = array)
    (hx : (start.graph.expressionAt id).isSome) {v : Value} (hv : q.results.get? id = some v)
    {working : Context} (hw : working.get? array = p.working.get? array)
    (hq : q.working = r.writeBack v working) :
    HoldsRows start array rows (done ++ [id]) q := by
  obtain ⟨rows', hworking, hresults, hwritten⟩ := h.rows
  have hid := hE.next_not_done ho
  have hne : array ≠ id := by
    rintro rfl
    rw [hs.plain] at hx
    cases hx
  -- The array waits for its computed rows, so it is still to come.
  have hlater : array ∉ done := fun hdone =>
    hid (hE.mem_of_dependsOn ho (List.mem_append_left _ hdone) (hs.linked id r hr harray hx))
  have hmem : array ∉ done ++ [id] := by simp [hlater, hne]
  refine ⟨r.writeCell v rows', ?_, ?_, hwritten.write hr harray (fun f hf hfr => ?_)
    (fun f r' _ _ => ?_) (fun f hf => h.results_eq ha hid hf) hv⟩
  · rw [hq, ← harray]
    exact RowRef.get?_writeBack_self (harray ▸ hw.trans hworking)
  · rw [ha.results array hne (by rw [hresults]; rfl), hresults, if_neg hlater, if_neg hmem]
  · have hfid : f = id := (hs.canonical f r hfr harray hf.2).symm.trans (hs.canonical id r hr harray hx)
    exact hid (hfid ▸ hf.1)
  · rw [computedIn_concat]
    exact or_congr_right ⟨fun hf => hf.1, fun hf => ⟨hf, hf ▸ hx⟩⟩

/-- What is done stays as it is, so a step has to say something of its own field and of the rows. -/
theorem Writing.extend (h : Writing start array rows done p s) (hkept : Kept s t) (ha : p.Apart id q)
    (hid : id ∉ done)
    (hcache : ∀ key e, t.cache.Holds key e → s.cache.Holds key e ∨ key.field = id)
    (hself : (start.graph.expressionAt id).isSome → (q.results.get? id).isSome ∧
      ((q.errors.get? id).isSome → q.results.get? id = some .null))
    (hrows : HoldsRows start array rows (done ++ [id]) q) :
    Writing start array rows (done ++ [id]) q t := by
  refine ⟨h.kept.trans hkept, fun key e hk => ?_, fun x hx => ?_, fun f hf => ?_, hrows⟩
  · rcases hcache key e hk with hk | hk
    · exact List.mem_append_left _ (h.answered key e hk)
    · exact List.mem_append_right _ (by simp [hk])
  · obtain ⟨hxd, hxi⟩ := not_or.mp (mt List.mem_append.mpr hx)
    rw [ha.errors x (by simpa using hxi)]
    exact h.pending x hxd
  · rcases computedIn_concat.mp hf with hf | ⟨rfl, hx⟩
    · rw [h.results_eq ha hid hf, ha.errors f fun heq => hid (heq ▸ hf.1)]
      exact h.computed f hf
    · exact hself hx

theorem Writing.stepPlain (hs : Recorded start array)
    (hraw : raw.get? array = some (.list rows)) (h : Writing start array rows done p s) {n : Node}
    (hid : n.id ∉ done) (hnone : start.graph.expressionAt n.id = none)
    (hdeps : ∀ d, d ∈ n.dependencies ↔ start.graph.DependsOn n.id d) (hkept : Kept s t)
    (hrun : (Session.stepPlain raw n p).run s = (.ok q, t)) :
    Writing start array rows (done ++ [n.id]) q t ∧ p.Apart n.id q := by
  obtain ⟨rows', hworking, -⟩ := id h.rows
  have hother (ha : p.Apart n.id q) (hne : n.id ≠ array)
      (hw : q.working.get? array = p.working.get? array) :
      HoldsRows start array rows (done ++ [n.id]) q :=
    .other h ha hid hne (fun _ _ _ => hnone) hw
  obtain ⟨hcache, ⟨v, hv, hbinds⟩ | ⟨hv, rfl⟩⟩ := stepPlain_binds hrun
  · refine ⟨h.extend hkept hbinds.apart hid (fun key e hk => .inl (hcache ▸ hk))
      (fun hx => by rw [hnone] at hx; cases hx) ?_, hbinds.apart⟩
    by_cases hne : n.id = array
    · unfold plainValue? at hv
      rw [hne] at hbinds hid hdeps hv ⊢
      refine .report hs h hbinds hid ?_
      split at hv
      · rename_i hempty
        rw [hraw, Option.some_or] at hv
        refine .inl ⟨(Option.some.inj hv).symm, fun d hd => ?_⟩
        rw [← hdeps, List.isEmpty_iff.mp hempty] at hd
        cases hd
      · exact .inr hv
    · have hbound : raw.contains array := by rw [Table.contains, hraw]; rfl
      exact hother hbinds.apart hne (hbinds.working array (Ne.symm hne) hbound)
  · have ha : p.Apart n.id { p with results := p.results.insertNew n.id .null } :=
      ⟨fun x hx _ => by rw [Table.get?_insertNew, if_neg (by simpa using hx)], fun _ _ => rfl⟩
    refine ⟨h.extend hkept ha hid (fun key e hk => .inl (hcache ▸ hk))
      (fun hx => by rw [hnone] at hx; cases hx) (hother ha ?_ rfl), ha⟩
    intro heq
    rw [plainValue?, heq, hworking] at hv
    exact absurd hv (by simp)

theorem Writing.stepComputed (hs : Recorded start array) (hE : start.graph.Consistent E)
    {n : Node} (ho : start.graph.order = done ++ n.id :: rest)
    (hraw : raw.get? array = some (.list rows)) (h : Writing start array rows done p s)
    {expression : String} (hx : start.graph.expressionAt n.id = some expression) (hkept : Kept s t)
    (hrun : (Session.stepComputed now raw n expression p).run s = (.ok q, t)) :
    Writing start array rows (done ++ [n.id]) q t ∧ p.Apart n.id q := by
  have hid := hE.next_not_done ho
  have hsome : (start.graph.expressionAt n.id).isSome := by rw [hx]; rfl
  have hne : n.id ≠ array := fun heq => by
    rw [heq, hs.plain] at hx
    cases hx
  have hbound : raw.contains array := by rw [Table.contains, hraw]; rfl
  obtain ⟨a, u, ha, rfl, hq⟩ := stepComputed_eq_ok hrun
  have hfaithful := h.kept.faithful hs.wired.faithful
  obtain ⟨-, -, hholds, -⟩ := answer_returns hfaithful ha
  obtain ⟨scope, -, hreply⟩ := reply_of_answer hfaithful
    (fun key e hk heq => hid (heq ▸ h.answered key e hk)) ha
  obtain ⟨row, working, hrow, hworking, hqw, hapart, hres, herr⟩ := bindAnswer_binds hq
  have hframe := hworking array (Ne.symm hne) hbound
  refine ⟨h.extend hkept hapart hid hholds (fun _ => ⟨by rw [hres]; rfl, fun hfailed => ?_⟩) ?_,
    hapart⟩
  · rw [herr, h.pending n.id hid, Option.or_none] at hfailed
    rw [hres, Engine.value_eq_null_of_reply hreply hfailed]
  · cases row with
    | none =>
      refine .other h hapart hid hne (fun r hr => ?_) (hqw ▸ hframe)
      cases hrow.symm.trans hr
    | some r =>
      by_cases harray : r.array = array
      · exact .write hs hE ho h hapart hrow harray hsome hres hframe hqw
      · refine .other h hapart hid hne (fun r' hr' harray' => ?_) ?_
        · obtain rfl := Option.some.inj (Except.ok.inj (hrow.symm.trans hr'))
          exact absurd harray' harray
        · rw [hqw]
          exact (RowRef.get?_writeBack_of_ne (Ne.symm harray)).trans hframe

/-- One step, over the next id of the order. -/
theorem Writing.step (hs : Recorded start array) (hE : start.graph.Consistent E)
    (ho : start.graph.order = done ++ id :: rest) (hraw : raw.get? array = some (.list rows))
    (h : Writing start array rows done p s) (hrun : (step now raw p id).run s = (.ok q, t)) :
    Writing start array rows (done ++ [id]) q t ∧ p.Apart id q := by
  have hkept : Kept s t := by
    have hk := keeps_step now raw p id s
    rwa [Keeps, hrun] at hk
  obtain ⟨n, hn, rfl, hexpr, hdeps⟩ := h.kept.next_node hE ho
  have hrun := get_answers hrun
  simp only [hn] at hrun
  cases hc : n.expression with
  | none =>
    simp only [hc] at hrun
    exact h.stepPlain hs hraw (hE.next_not_done ho) (hexpr.symm.trans hc) hdeps hkept hrun
  | some expression =>
    simp only [hc] at hrun
    exact h.stepComputed hs hE ho hraw (hexpr.symm.trans hc) hkept hrun

/-- The steps over a part of the order, by induction on that part. What is reported of what is done
before stays. -/
theorem Writing.steps (hs : Recorded start array) (hE : start.graph.Consistent E)
    (hraw : raw.get? array = some (.list rows)) {part : List String}
    (ho : start.graph.order = done ++ part ++ rest) (h : Writing start array rows done p s)
    (hrun : (part.foldlM (Session.step now raw) p).run s = (.ok q, t)) :
    Writing start array rows (done ++ part) q t ∧
      ∀ x ∈ done, (p.results.get? x).isSome → q.results.get? x = p.results.get? x := by
  induction part generalizing done p s with
  | nil =>
    obtain ⟨rfl, rfl⟩ := pure_answers hrun
    rw [List.append_nil]
    exact ⟨h, fun _ _ _ => rfl⟩
  | cons id part ih =>
    rw [List.foldlM_cons] at hrun
    obtain ⟨r, u, hr, hrun⟩ := bind_answers hrun
    have ho' : start.graph.order = done ++ id :: (part ++ rest) := by
      rw [ho, List.append_assoc, List.cons_append]
    obtain ⟨hstep, hapart⟩ := h.step hs hE ho' hraw hr
    obtain ⟨hsteps, hframe⟩ := ih (by rw [ho']; simp) hstep hrun
    refine ⟨by simpa using hsteps, fun x hx hsome => ?_⟩
    have hne : x ≠ id := fun heq => hE.next_not_done ho' (heq ▸ hx)
    have hfirst := hapart.results x hne hsome
    rw [hframe x (List.mem_append_left _ hx) (by rw [hfirst]; exact hsome), hfirst]

end Steps

/-! ## Sessions of registrations -/

section Recorded

variable {s : Session} {op : Operation} {ops : List Operation} {array : String}

/-- Registrations remember no answers. -/
theorem unanswered_perform (hs : Wired s) (hop : op.isRegistration)
    (h : ∀ key e, ¬s.cache.Holds key e) : ∀ key e, ¬(op.perform s).cache.Holds key e := by
  cases op with
  | register id text declared default =>
    obtain ⟨g, -, hr⟩ := run_register_eq hs.faithful id text declared default
    rw [Operation.perform, hr]
    cases reading s.graph.nodes.keys id text declared with
    | error c => exact h
    | ok r =>
      intro key e hk
      rw [cache_enter] at hk
      exact h key e hk.of_discard.1
  | registerArray array children => exact h
  | _ => cases hop

theorem unanswered_after (settings : Settings) (hops : ∀ op ∈ ops, op.isRegistration) :
    ∀ key e, ¬(after (create settings) ops).cache.Holds key e := by
  induction ops using List.reverseRecOn with
  | nil => exact fun key e => Cache.not_holds_new _
  | append_singleton ops op ih =>
    rw [after_concat]
    exact unanswered_perform (wired_after (wired_create settings) ops) (hops op (by simp))
      (ih fun o ho => hops o (List.mem_append_left _ ho))

theorem not_removedSince_of_isRegistration (hops : ∀ op ∈ ops, op.isRegistration)
    (field id : String) : ¬RemovedSince ops field id := by
  rintro ⟨before, later, rfl, -⟩
  cases hops (.unregister id) (by simp)

/-- What is never registered with an expression has none. -/
theorem expressionAt_eq_none (settings : Settings) (hops : ∀ op ∈ ops, op.isRegistration)
    (hplain : ∀ text declared default, .register array text declared default ∈ ops →
      expressionOf text = none) :
    (after (create settings) ops).graph.expressionAt array = none := by
  by_contra hx
  refine holds_unless_removed (P := fun _ => False) settings ops ?_ (fun _ _ _ _ _ _ _ _ h => h)
    (Option.isSome_iff_ne_none.mpr hx) (not_removedSince_of_isRegistration hops array array)
  intro s t op hop hs hdo hentered hx
  obtain ⟨E, hE⟩ := hs.consistent
  cases hdo with
  | @enters id text declared default row ids g hg hr =>
    have hE' : ({ s with engine := g } : Session).graph.Consistent E := hE
    obtain rfl : id = array := Option.some.inj ((entered?_eq_some hr default).symm.trans hentered)
    rw [expressionAt_enter hE', if_pos rfl, hplain text declared default hop] at hx
    cases hx
  | removes id => cases hentered
  | closes => cases hentered
  | keeps hnone => exact absurd (hnone.symm.trans hentered) (by simp)

theorem recorded_after (settings : Settings) (hops : ∀ op ∈ ops, op.isRegistration)
    (hplain : ∀ text declared default, .register array text declared default ∈ ops →
      expressionOf text = none)
    (hcanonical : ∀ f r, RowRef.parse? f = .ok (some r) → r.array = array →
      ((after (create settings) ops).graph.expressionAt f).isSome → r.qualify r.child = f) :
    Recorded (after (create settings) ops) array := by
  refine ⟨wired_after (wired_create settings) ops, unanswered_after settings hops,
    expressionAt_eq_none settings hops hplain, fun f r hr harray hx => ?_, hcanonical⟩
  subst harray
  exact (linked_after settings hr hx (not_removedSince_of_isRegistration hops f r.array)).edge

end Recorded

/-! ## A whole pass -/

section Pass

variable {start s : Session} {E : Edges} {array : String} {rows : List Value} {now : Number}
  {offer : Offer} {raw : Context} {p : Pass}

/-- A pass starts with the rows that are entered. -/
theorem writing_opening (hs : Recorded start array) (hn : offer.raw.keys.Nodup)
    (hcalculated : offer.calculated = .empty)
    (hrows : offer.raw.get? (.text array) = some (.list rows))
    (h : (opening offer).run start = (.ok (raw, p), s)) :
    Writing start array rows [] p s ∧ s.graph = start.graph ∧
      raw.get? array = some (.list rows) := by
  obtain ⟨E, hE⟩ := hs.wired.consistent
  obtain ⟨layers, working, hlayers, hworking, rfl, rfl, rfl⟩ := opening_eq_ok h
  obtain ⟨hraw, hcalc, -⟩ := ofOffer_eq_ok hlayers
  have hentered := Layers.eq_of_named hraw
  have hempty : layers.calculated = .empty := by
    rw [hcalculated] at hcalc
    exact (Except.ok.inj hcalc).symm
  rw [hentered, Mapping.get?_ofContext] at hrows
  have hkeys : layers.raw.keys.Nodup := nodup_keys_of_ofContext (hentered ▸ hn)
  have hg : start.graph.settle = start.graph := hE.settled.settle_eq
  refine ⟨⟨⟨id, congrArg Graph.stable hg, rfl⟩, fun key e hk => absurd hk (hs.unanswered key e),
    fun _ _ => rfl, fun f hf => ?_, rows, get?_seed_of_raw hempty hkeys hrows hworking, ?_, ?_⟩, hg,
    hrows⟩
  · cases hf.1
  · rw [hempty, ite_self]
    exact hrows
  · exact .refl fun f r hf => by cases hf.1

theorem Recorded.precedes (hs : Recorded start array) (hE : start.graph.Consistent E)
    (hcircular : array ∉ start.graph.circular) {f : String} {r : RowRef}
    (hr : RowRef.parse? f = .ok (some r)) (harray : r.array = array)
    (hx : (start.graph.expressionAt f).isSome) : start.graph.Precedes f array :=
  hE.precedes hcircular (hs.linked f r hr harray hx)

/-- At the end of a pass the array reports the rows with all their computed cells. -/
theorem Writing.rows_reported (hs : Recorded start array) (hE : start.graph.Consistent E)
    (hcircular : array ∉ start.graph.circular)
    (h : Writing start array rows start.graph.order p s) :
    ∃ rows', p.results.get? array = some (.list rows') ∧
      WrittenBack array (fun f => (start.graph.expressionAt f).isSome) p.results.get? rows rows' := by
  obtain ⟨rows', -, hresults, hwritten⟩ := h.rows
  by_cases horder : array ∈ start.graph.order
  · rw [if_pos horder] at hresults
    refine ⟨rows', hresults, hwritten.congr (fun f r hr harray => ⟨fun hx => ⟨?_, hx⟩,
      fun hf => hf.2⟩) fun _ _ _ _ _ => rfl⟩
    exact (hs.precedes hE hcircular hr harray hx).1
  · rw [if_neg horder] at hresults
    refine ⟨rows, hresults, .refl fun f r hx hr harray => horder ?_⟩
    exact (hs.precedes hE hcircular hr harray hx).2.1

/-- What depends on the array reads the rows that the array reports. -/
theorem Writing.rows_read (hs : Recorded start array) (hE : start.graph.Consistent E)
    (hraw : raw.get? array = some (.list rows)) {first : Pass} {u : Session}
    (hopening : (opening offer).run start = (.ok (raw, first), u)) (hg : u.graph = start.graph)
    (hfirst : Writing start array rows [] first u)
    (hsteps : (start.graph.order.foldlM (Session.step now raw) first).run u = (.ok p, s))
    {rows' : List Value} (hresults : p.results.get? array = some (.list rows')) {x : String}
    (hx : x ∈ start.graph.order) (hd : start.graph.DependsOn x array) :
    ∃ q t, (arriving now offer x).run start = (.ok q, t) ∧
      q.working.get? array = some (.list rows') := by
  obtain ⟨done, rest, ho⟩ := List.append_of_mem hx
  have hdone : array ∈ done := hE.mem_of_dependsOn ho (by simp) hd
  rw [ho, List.foldlM_append] at hsteps
  obtain ⟨q, t, hq, hsteps⟩ := bind_answers hsteps
  obtain ⟨hmid, -⟩ := hfirst.steps hs hE hraw ho hq
  rw [List.nil_append] at hmid
  obtain ⟨rows'', hworking, hreported, -⟩ := id hmid.rows
  rw [if_pos hdone] at hreported
  have hend : start.graph.order = done ++ x :: rest ++ [] := by rw [ho, List.append_nil]
  obtain ⟨-, hframe⟩ := hmid.steps hs hE hraw hend hsteps
  have hsame := hframe array hdone (by rw [hreported]; rfl)
  obtain rfl : rows' = rows'' := by
    rw [hresults, hreported] at hsame
    exact Value.list.inj (Option.some.inj hsame)
  have horder : u.graph.order = done ++ x :: rest := hg ▸ ho
  exact ⟨q, t, arriving_eq hopening horder (hE.next_not_done ho) hq, hworking⟩

/-- **An array reports its rows with their computed cells.** In a session of registrations, take an
array that has never had an expression and is not circular, with canonical indexes in the ids of its
computed rows. A pass that is given a list for it reports a list of the same length: in each row that
is a mapping the computed cells hold what the pass reports of their fields, which is null of those
that failed, and everything else is as entered. Every computed field that depends on the array comes
after all of these fields, and what it reads under the array is the list that is reported. -/
theorem evaluateAll_writesBack (settings : Settings) {ops : List Operation}
    (hops : ∀ op ∈ ops, op.isRegistration) {array : String}
    (hplain : ∀ text declared default, .register array text declared default ∈ ops →
      expressionOf text = none)
    (hcircular : array ∉ (after (create settings) ops).graph.circular)
    (hcanonical : ∀ f r, RowRef.parse? f = .ok (some r) → r.array = array →
      ((after (create settings) ops).graph.expressionAt f).isSome → r.qualify r.child = f)
    {now : Number} {offer : Offer} (hn : offer.raw.keys.Nodup)
    (hcalculated : offer.calculated = .empty) {rows : List Value}
    (hrows : offer.raw.get? (.text array) = some (.list rows)) {results : Context} {s : Session}
    (h : (evaluateAll now offer).run (after (create settings) ops) = (.ok results, s)) :
    ∃ rows', results.get? array = some (.list rows') ∧
      WrittenBack array (fun f => ((after (create settings) ops).graph.expressionAt f).isSome)
        results.get? rows rows' ∧
      (∀ f r, RowRef.parse? f = .ok (some r) → r.array = array →
        ((after (create settings) ops).graph.expressionAt f).isSome → (s.errors.get? f).isSome →
        results.get? f = some .null) ∧
      ∀ x, ((after (create settings) ops).graph.expressionAt x).isSome →
        x ∉ (after (create settings) ops).graph.circular →
        (after (create settings) ops).graph.DependsOn x array →
        (∀ f r, RowRef.parse? f = .ok (some r) → r.array = array →
          ((after (create settings) ops).graph.expressionAt f).isSome →
          (after (create settings) ops).graph.Precedes f x) ∧
        ∃ p t, (arriving now offer x).run (after (create settings) ops) = (.ok p, t) ∧
          p.working.get? array = some (.list rows') := by
  have hs := recorded_after settings hops hplain hcanonical
  obtain ⟨E, hE⟩ := hs.wired.consistent
  obtain ⟨p, u, hsweep, rfl, rfl⟩ := evaluateAll_returns h
  obtain ⟨raw, first, t, hopening, hsteps⟩ := sweep_eq_ok hsweep
  obtain ⟨hfirst, hg, hraw⟩ := writing_opening hs hn hcalculated hrows hopening
  rw [hg] at hsteps
  have hend : (after (create settings) ops).graph.order =
      [] ++ (after (create settings) ops).graph.order ++ [] := by simp
  obtain ⟨hlast, -⟩ := hfirst.steps hs hE hraw hend hsteps
  rw [List.nil_append] at hlast
  obtain ⟨rows', hresults, hwritten⟩ := hlast.rows_reported hs hE hcircular
  have hcirc := Graph.circular_eq_of_stable_eq hlast.kept.stable
  -- Circular fields are reported last; no field of a row of the array is one.
  have hreported (x : String) (hx : x ∉ (after (create settings) ops).graph.circular) :=
    foldl_addCircular (p := p) u.graph.nodes (hcirc.symm ▸ hx)
  have hplaced (f : String) (r : RowRef) (hr : RowRef.parse? f = .ok (some r))
      (harray : r.array = array) (hx : ((after (create settings) ops).graph.expressionAt f).isSome) :
      f ∈ (after (create settings) ops).graph.order ∧
        f ∉ (after (create settings) ops).graph.circular := by
    have hmem := (hs.precedes hE hcircular hr harray hx).1
    exact ⟨hmem, fun hc => (hE.mem_circular_iff.mp hc).2 hmem⟩
  refine ⟨rows', (hreported array hcircular).1.trans hresults,
    hwritten.congr (fun _ _ _ _ => Iff.rfl) fun f r hr harray hx =>
      (hreported f (hplaced f r hr harray hx).2).1, fun f r hr harray hx hfailed => ?_,
    fun x hx hxc hd => ⟨fun f r hr harray hf => ?_, ?_⟩⟩
  · obtain ⟨hmem, hfc⟩ := hplaced f r hr harray hx
    obtain ⟨hres, herr⟩ := hreported f hfc
    have hfailed : (p.errors.get? f).isSome := herr ▸ hfailed
    exact hres.trans ((hlast.computed f ⟨hmem, hx⟩).2 hfailed)
  · have hfa := hs.precedes hE hcircular hr harray hf
    have hax := hE.precedes hxc hd
    exact ⟨hfa.1, hax.2.1, hfa.2.2.trans hax.2.2⟩
  · exact Writing.rows_read hs hE hraw hopening hg hfirst hsteps hresults (hE.precedes hxc hd).2.1 hd

end Pass

/-- The line total of the first item, and the sum over the items. -/
def lineTotals : List Operation :=
  [.register "items[0].lineTotal" (some "quantity * unitPrice") none .null,
    .register "sum" (some "sumLineTotal(items)") none .null]

/-- One item with its cells, and one that is null. -/
def twoItems : Offer :=
  { raw := ⟨[(.text "items", .list
    [.mapping [(.text "quantity", .int 3), (.text "unitPrice", .int 5)], .null])]⟩ }

/-- The line total appears in its row, and the null item stays. -/
theorem evaluateAll_lineTotals :
    ∃ results s rows cells,
      (evaluateAll (.int 0) twoItems).run (after (create {}) lineTotals) = (.ok results, s) ∧
      results.get? "items" = some (.list rows) ∧ rows[0]? = some (.mapping cells) ∧
      rows[1]? = some .null ∧ (∃ v, results.get? "items[0].lineTotal" = some v ∧
        cells.lookup (.text "lineTotal") = some v) ∧
      ∃ p t, (arriving (.int 0) twoItems "sum").run (after (create {}) lineTotals) = (.ok p, t) ∧
        p.working.get? "items" = some (.list rows) := by
  let start := after (create {}) lineTotals
  have hok : ((evaluateAll (.int 0) twoItems).run start).1.isOk := by decide +kernel
  have hplain : ∀ text declared default, .register "items" text declared default ∈ lineTotals →
      expressionOf text = none := by
    intro text declared default h
    simp [lineTotals] at h
  have hcanonical : ∀ f r, RowRef.parse? f = .ok (some r) → r.array = "items" →
      (start.graph.expressionAt f).isSome → r.qualify r.child = f := by
    have hall : start.graph.nodes.keys.all fun f =>
        (RowRef.parse? f).toOption.join.all fun r => r.qualify r.child == f := by decide +kernel
    intro f r hr _ hx
    have hf := List.all_eq_true.mp hall f (Graph.mem_keys_of_expressionAt hx)
    rw [hr] at hf
    exact eq_of_beq hf
  have hlineTotal : (start.graph.expressionAt "items[0].lineTotal").isSome := by decide +kernel
  obtain ⟨results, s, hrun⟩ := Action.exists_of_isOk hok
  obtain ⟨rows, hrows, hwritten, -, hread⟩ := evaluateAll_writesBack {} (by decide +kernel) hplain
    (by decide +kernel) hcanonical (by simp [twoItems, Table.keys]) rfl rfl hrun
  obtain ⟨cells, hcells, hfields⟩ := hwritten.mapping 0 _ rfl
  obtain ⟨-, hp⟩ := hread "sum" (by decide +kernel) (by decide +kernel) (by decide +kernel)
  exact ⟨results, s, rows, cells, hrun, hrows, hcells,
    hwritten.other 1 .null rfl (fun _ h => by cases h),
    hfields.field "items[0].lineTotal" "lineTotal" hlineTotal rfl, hp⟩

end LiveForm.Session
