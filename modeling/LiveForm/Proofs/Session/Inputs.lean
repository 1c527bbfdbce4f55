import LiveForm.Proofs.Session.RowLinks
import LiveForm.Proofs.Session.Seed
import LiveForm.Proofs.Session.Steps

/-! # What is reported of entered values

A pass reports of a plain input the value that is entered for it, unless the input is circular. A list
may have taken up the values of computed fields in the cells of its rows before it is reported; nothing
else of it changes. -/

namespace LiveForm.Session

open LiveForm.Action

/-- The value of an entered field on its way through a pass: read until the field is done, and from
then on reported. -/
def Carries (s : Session) (x : String) (v : Value) (done : List String) (p : Pass) : Prop :=
  ∃ w, (if x ∈ done then p.results.get? x else p.working.get? x) = some w ∧
    Rewritten x (fun f => f ∈ done ∧ WritesRowOf s x f) p.results.get? v w

section Steps

variable {s : Session} {E : Edges} {raw : Context} {p q : Pass} {id x : String} {v w : Value}
  {done rest : List String}

/-- What is written into an array by the fields that are done stays written. -/
theorem rewritten_of_step (hE : s.graph.Consistent E) (ho : s.graph.order = done ++ id :: rest)
    (h : Stepped s raw id p q)
    (hw : Rewritten x (fun f => f ∈ done ∧ WritesRowOf s x f) p.results.get? v w) :
    Rewritten x (fun f => f ∈ done ++ [id] ∧ WritesRowOf s x f) q.results.get? v w := by
  refine hw.mono fun f ⟨hf, hrow⟩ => ⟨⟨List.mem_append_left _ hf, hrow⟩, ?_⟩
  have hne : f ≠ id := fun heq => hE.next_not_done ho (heq ▸ hf)
  exact h.results_eq hne (.inl (standIn?_ne_of_mem (Graph.mem_keys_of_expressionAt hrow.1)))

/-- The step over a computed field of a row of the array. -/
theorem Carries.write (hx : x ∈ s.graph.nodes.keys) (hne : x ≠ id) (h : Stepped s raw id p q)
    (hrow : WritesRowOf s x id) {written : String → Prop} (hid : written id)
    (hw : Rewritten x written q.results.get? v w) (hp : p.working.get? x = some w) :
    ∃ w', q.working.get? x = some w' ∧ Rewritten x written q.results.get? v w' := by
  obtain ⟨hcomputed, r, hr, rfl⟩ := hrow
  cases h with
  | unbound hnone =>
    rw [hnone] at hcomputed
    cases hcomputed
  | plain _ hnone =>
    rw [hnone] at hcomputed
    cases hcomputed
  | computed a row _ hparse =>
    obtain rfl : row = some r := Except.ok.inj (hparse.symm.trans hr)
    refine hw.writeBack hr hid (u := a.value) ?_ ?_
    · rw [Pass.get?_enterAnswer_results, if_pos rfl]
    · rw [Pass.get?_enter_working, if_neg (not_or.mpr ⟨standIn?_ne_of_mem hx, hne⟩)]
      exact hp

theorem Carries.step (hE : s.graph.Consistent E) (ho : s.graph.order = done ++ id :: rest)
    (hx : x ∈ s.graph.nodes.keys) (hplain : s.graph.expressionAt x = none)
    (hraw : raw.get? x = some v) (h : Stepped s raw id p q) (hp : Carries s x v done p) :
    Carries s x v (done ++ [id]) q := by
  obtain ⟨w, hw, hwritten⟩ := hp
  have hlater := rewritten_of_step hE ho h hwritten
  by_cases hxid : x = id
  · subst hxid
    rw [if_neg (hE.next_not_done ho)] at hw
    have hdone : x ∈ done ++ [x] := by simp
    unfold Carries
    rw [if_pos hdone]
    cases h with
    | unbound _ hnone => rw [hw] at hnone; cases hnone
    | plain u _ hu =>
      refine ⟨u, by rw [Pass.get?_enter_results, if_pos rfl], ?_⟩
      rcases hu with ⟨hu, -⟩ | ⟨hu, -⟩
      · exact .inl (Option.some.inj (hu.symm.trans hraw))
      · obtain rfl := Option.some.inj (hw.symm.trans hu)
        exact hlater
    | computed _ _ hcomputed =>
      rw [hplain] at hcomputed
      cases hcomputed
  · have hleaf : standIn? s raw id ≠ some x := standIn?_ne_of_mem hx
    unfold Carries
    by_cases hdone : x ∈ done
    · rw [if_pos hdone] at hw
      rw [if_pos (List.mem_append_left _ hdone), h.results_eq hxid (.inl hleaf)]
      exact ⟨w, hw, hlater⟩
    · rw [if_neg hdone] at hw
      rw [if_neg (by simp [hdone, hxid])]
      by_cases hrow : WritesRowOf s x id
      · exact Carries.write hx hxid h hrow ⟨by simp, hrow⟩ hlater hw
      · exact ⟨w, (h.working_eq hxid hleaf hrow).trans hw, hlater⟩

end Steps

/-! ## A whole pass -/

/-- A field without dependencies reports what is entered for it. -/
def Reports (x : String) (v : Value) (done : List String) (p : Pass) : Prop :=
  x ∈ done → p.results.get? x = some v

theorem Reports.step {s : Session} {raw : Context} {p q : Pass} {id x : String} {v : Value}
    {done : List String} (hx : x ∈ s.graph.nodes.keys) (hplain : s.graph.expressionAt x = none)
    (hraw : raw.get? x = some v) (hnone : ∀ d, ¬s.graph.DependsOn x d) (h : Stepped s raw id p q)
    (hp : Reports x v done p) : Reports x v (done ++ [id]) q := by
  intro hdone
  by_cases hxid : x = id
  · subst hxid
    have hbusy : ¬(raw.get? x = none ∨ ∃ d, s.graph.DependsOn x d) := by
      rw [hraw]
      rintro (h | ⟨d, hd⟩)
      · cases h
      · exact hnone d hd
    cases h with
    | unbound _ _ hu => exact absurd hu hbusy
    | plain u _ hu =>
      rw [Pass.get?_enter_results, if_pos rfl]
      rcases hu with ⟨hu, -⟩ | ⟨-, hu⟩
      · exact hu.symm.trans hraw
      · exact absurd hu hbusy
    | computed _ _ hcomputed =>
      rw [hplain] at hcomputed
      cases hcomputed
  · rw [h.results_eq hxid (.inl (standIn?_ne_of_mem hx))]
    exact hp ((List.mem_append.mp hdone).resolve_right fun h => hxid (List.mem_singleton.mp h))

/-- What the steps of a pass report of a field that has an order. -/
theorem sweep_reportsInput {s u : Session} (hs : Wired s) {now : Number} {offer : Offer} {p : Pass}
    (h : (sweep now offer).run s = (.ok p, u)) (hraw : offer.raw.keys.Nodup)
    (hcalculated : offer.calculated.keys.Nodup) {x : String} {v : Value} (hx : x ∈ s.graph.order)
    (hplain : s.graph.expressionAt x = none) (hentered : offer.raw.get? (.text x) = some v)
    (hfree : offer.calculated.get? (.text x) = none)
    (halias : s.settings.aliasLeafNames → (∃ d, s.graph.DependsOn x d) →
      ∀ d, (offer.calculated.get? (.text d)).isSome → alias? d ≠ .ok (some x)) :
    ∃ w, p.results.get? x = some w ∧
      Rewritten x (fun f => f ∈ s.graph.order ∧ WritesRowOf s x f) p.results.get? v w := by
  obtain ⟨E, hE⟩ := hs.consistent
  have hkey := (hE.mem_order_iff_not_circular.mp hx).1
  obtain ⟨layers, working, hlayers, hworking, -, hinduct⟩ := sweep_induct hs h
  obtain ⟨hraw, hcalculated, hlayer, hcomputed⟩ := get?_of_ofOffer hlayers hraw hcalculated
  rw [hlayer] at hentered
  by_cases hd : ∃ d, s.graph.DependsOn x d
  · have hfirst : working.get? x = some v := by
      refine get?_seed_of_offered hraw hcalculated hworking ?_ fun ha d w hw hdx => ?_
      · rw [Table.get?_merge hcalculated, ← hcomputed, hfree, hentered, Option.none_or]
      · exact absurd hdx (halias ha hd d (by rw [hcomputed, hw]; rfl))
    obtain ⟨w, hw, hwritten⟩ := hinduct (fun done => Carries s x v done) ⟨v, hfirst, .inl rfl⟩
      fun done id rest p q ho hstep hp => hp.step hE ho hkey hplain hentered hstep
    rw [if_pos hx] at hw
    exact ⟨w, hw, hwritten⟩
  · have hlast := hinduct (fun done => Reports x v done) (fun h => by cases h)
      fun done id rest p q ho hstep hp =>
        hp.step hkey hplain hentered (fun d hxd => hd ⟨d, hxd⟩) hstep
    exact ⟨v, hlast hx, .inl rfl⟩

/-- **No entered value is lost.** After any history, take a field without an expression that is not
circular, with a value entered and none computed for it; and if the field has dependencies, with no
computed value offered under a dotted id that ends in its name. A pass reports what is entered, or, if
that is a list and fields of its rows are computed, a list of the same length that differs only in
cells which hold what is reported of these fields. -/
theorem evaluateAll_reportsInputs (settings : Settings) (ops : List Operation) {now : Number}
    {offer : Offer} (hraw : offer.raw.keys.Nodup) (hcalculated : offer.calculated.keys.Nodup)
    {results : Context} {t : Session}
    (h : (evaluateAll now offer).run (after (create settings) ops) = (.ok results, t)) {x : String}
    {v : Value} (hx : x ∈ (after (create settings) ops).graph.nodes.keys)
    (hplain : (after (create settings) ops).graph.expressionAt x = none)
    (hcircular : x ∉ t.graph.circular) (hentered : offer.raw.get? (.text x) = some v)
    (hfree : offer.calculated.get? (.text x) = none)
    (halias : (after (create settings) ops).settings.aliasLeafNames →
      (∃ d, (after (create settings) ops).graph.DependsOn x d) →
      ∀ d, (offer.calculated.get? (.text d)).isSome → alias? d ≠ .ok (some x)) :
    ∃ w, results.get? x = some w ∧
      Rewritten x (WritesRowOf (after (create settings) ops) x) results.get? v w := by
  have hs := wired_after (wired_create settings) ops
  obtain ⟨E, hE⟩ := hs.consistent
  obtain ⟨p, u, hsweep, rfl, rfl⟩ := evaluateAll_returns h
  obtain ⟨-, -, -, -, hheld, -⟩ := sweep_induct hs hsweep
  have hcirc := Graph.circular_eq_of_stable_eq hheld.kept.stable
  have hreported {f : String} (hf : f ∉ u.graph.circular) :=
    (foldl_addCircular (p := p) u.graph.nodes hf).1
  have horder := hE.mem_order_iff_not_circular.mpr ⟨hx, hcirc ▸ hcircular⟩
  obtain ⟨w, hw, hwritten⟩ :=
    sweep_reportsInput hs hsweep hraw hcalculated horder hplain hentered hfree halias
  refine ⟨w, (hreported hcircular).trans hw, hwritten.mono fun f ⟨hf, hrow⟩ => ⟨hrow, hreported ?_⟩⟩
  exact hcirc ▸ (hE.mem_order_iff_not_circular.mp hf).2

/-- One item with a price. -/
def pricedItem : Offer := { raw := ⟨[(.text "items", .list [.mapping [(.text "price", .int 5)]])]⟩ }

/-- The item is reported with its price, and its computed total beside it. -/
theorem evaluateAll_reportsInputs_itemsTwice :
    ∃ results t w, (evaluateAll (.int 0) pricedItem).run (after (create {}) itemsTwice) =
        (.ok results, t) ∧
      results.get? "items" = some w ∧
      Rewritten "items" (WritesRowOf (after (create {}) itemsTwice) "items") results.get?
        (.list [.mapping [(.text "price", .int 5)]]) w := by
  have hok : ((evaluateAll (.int 0) pricedItem).run (after (create {}) itemsTwice)).1.isOk := by
    decide +kernel
  have hcircular : "items" ∉
      ((evaluateAll (.int 0) pricedItem).run (after (create {}) itemsTwice)).2.graph.circular := by
    decide +kernel
  obtain ⟨results, t, hrun⟩ := exists_of_isOk hok
  rw [hrun] at hcircular
  have hcalculated : pricedItem.calculated.keys.Nodup := List.nodup_nil
  obtain ⟨w, hw, hwritten⟩ := evaluateAll_reportsInputs {} itemsTwice
    (by simp [pricedItem, Table.keys]) hcalculated hrun (x := "items") (by decide +kernel)
    (by decide +kernel) hcircular rfl rfl fun _ _ d hd => by cases hd
  exact ⟨results, t, w, hrun, hw, hwritten⟩

/-! ## Entered values that are not reported -/

/-- A pass reports of a field without an expression something else than what is entered for it, and no
list. -/
def Lost (ops : List Operation) (offer : Offer) (x : String) : Prop :=
  x ∈ (after (create {}) ops).graph.nodes.keys ∧
    (after (create {}) ops).graph.expressionAt x = none ∧
    ∃ results t v w, (evaluateAll (.int 0) offer).run (after (create {}) ops) = (.ok results, t) ∧
      offer.raw.get? (.text x) = some v ∧ offer.calculated.get? (.text x) = none ∧
      results.get? x = some w ∧ w ≠ v ∧ ∀ rows, w ≠ .list rows

/-- Whether an entered value is lost, by equality of values. -/
def loses (ops : List Operation) (offer : Offer) (x : String) : Bool :=
  match (evaluateAll (.int 0) offer).run (after (create {}) ops) with
  | (.ok results, _) =>
    match offer.raw.get? (.text x), offer.calculated.get? (.text x), results.get? x with
    | some v, none, some w => v.equal v && !w.equal v && !(w matches .list _)
    | _, _, _ => false
  | _ => false

theorem lost_of_loses {ops : List Operation} {offer : Offer} {x : String}
    (hx : x ∈ (after (create {}) ops).graph.nodes.keys)
    (hplain : (after (create {}) ops).graph.expressionAt x = none) (h : loses ops offer x) :
    Lost ops offer x := by
  unfold loses at h
  split at h
  · rename_i results t hrun
    split at h
    · rename_i v w hv hc hw
      simp only [Bool.and_eq_true, Bool.not_eq_true'] at h
      refine ⟨hx, hplain, results, t, v, w, hrun, hv, hc, hw, ?_, ?_⟩
      · rintro rfl
        rw [h.1.1] at h
        cases h.1.2
      · rintro rows rfl
        cases h.2
    · cases h
  · cases h

/-- The share of an item depends on the total over the items. -/
def shareOfTotal : List Operation :=
  [.register "total" (some "sumLineTotal(items)") none .null,
    .register "items[0].share" (some "total / 2") none .null]

/-- Items that wait for themselves are reported as null; and a field with dependencies is given a
computed value that is offered under an id which ends in its name. -/
theorem not_reported :
    Lost shareOfTotal pricedItem "items" ∧
    Lost [.register "rate" none (some ["base"]) .null]
      { raw := ⟨[(.text "rate", .int 1)]⟩, calculated := ⟨[(.text "first.rate", .int 2)]⟩ } "rate" := by
  refine ⟨?_, ?_⟩
  all_goals exact lost_of_loses (by decide +kernel) (by decide +kernel) (by decide +kernel)

end LiveForm.Session
