import LiveForm.Proofs.Session.Solution

/-! # Passes that agree

The equations of a pass have one solution, found along the order. So two passes over the same fields
agree on every set of ids that is closed under dependencies and on which they have started alike,
whatever the order of their steps and whatever they have elsewhere. In particular fields of different
ids may be registered in any order. -/

namespace LiveForm

/-- Two passes hold the same under an id. -/
structure Pass.SameAt (p q : Pass) (x : String) : Prop where
  working : q.working.get? x = p.working.get? x
  results : q.results.get? x = p.results.get? x
  errors : q.errors.get? x = p.errors.get? x

namespace Session

section Solutions

variable {start : Session} {A : String → Prop} {order : List String} {p q : Pass}
  {raw raw' working working' results results' : Context}

/-- What explains a field explains it in every working context that agrees on its dependencies. -/
theorem Explains.unique {text id : String} (h : Explains p id text) (h' : Explains q id text)
    (hrep : Engine.reply text (Context.scope q.working) =
      Engine.reply text (Context.scope p.working)) :
    q.results.get? id = p.results.get? id ∧ q.errors.get? id = p.errors.get? id := by
  obtain ⟨a, ha, hres, herr⟩ := h
  obtain ⟨b, hb, hres', herr'⟩ := h'
  obtain rfl := Except.ok.inj (ha.symm.trans (hrep.symm.trans hb))
  exact ⟨hres'.trans hres.symm, herr'.trans herr.symm⟩

/-- **Solutions agree where they start alike.** Along the order, each equation is over ids whose own
equations have been solved. -/
theorem Solves.agree (hs : Registered start)
    (hp : Solves start.graph.fields start.graph.order raw working results p)
    (hq : Solves start.graph.fields order raw' working' results' q)
    (horder : ∀ x, x ∈ start.graph.order ↔ x ∈ order)
    (hclosed : ∀ x d, A x → start.graph.DependsOn x d → A d)
    (hreserved : ∀ x, Expr.isReserved x → A x)
    (hraw : ∀ x, A x → raw'.get? x = raw.get? x)
    (hworking : ∀ x, A x → working'.get? x = working.get? x)
    (hresults : ∀ x, A x → results'.get? x = results.get? x) :
    ∀ x, A x → p.SameAt q x := by
  obtain ⟨E, hE⟩ := hs.consistent
  have hapart : ∀ x, A x → x ∉ start.graph.order → p.SameAt q x := by
    intro x hA hx
    obtain ⟨hw, hr, he⟩ := hp.apart x hx
    obtain ⟨hw', hr', he'⟩ := hq.apart x (mt (horder x).mpr hx)
    exact ⟨by rw [hw, hw', hworking x hA], by rw [hr, hr', hresults x hA], by rw [he, he']⟩
  suffices hplaced : ∀ n x, start.graph.order.idxOf x = n → x ∈ start.graph.order → A x →
      p.SameAt q x by
    intro x hA
    by_cases hx : x ∈ start.graph.order
    · exact hplaced _ x rfl hx hA
    · exact hapart x hA hx
  intro n
  induction n using Nat.strong_induction_on with
  | h n ih =>
    rintro x rfl hx hA
    obtain ⟨m, hm⟩ := Table.exists_get?_of_mem_keys
      ((hE.mirrors.node_iff x).mpr (hE.node_of_mem_order hx))
    have hf := Graph.fields_eq_some hm
    cases ht : m.field.expression with
    | none =>
      obtain ⟨hw, hr, he⟩ := hp.plain x hx m.field hf ht
      obtain ⟨hw', hr', he'⟩ := hq.plain x ((horder x).mp hx) m.field hf ht
      rw [hraw x hA, hworking x hA] at hw' hr'
      rw [hresults x hA] at hr'
      exact ⟨hw'.trans hw.symm, hr'.trans hr.symm, he'.trans he.symm⟩
    | some text =>
      obtain ⟨hexplains, hw⟩ := hp.computed x hx m.field text hf ht
      obtain ⟨hexplains', hw'⟩ := hq.computed x ((horder x).mp hx) m.field text hf ht
      have hdependencies : ∀ d ∈ m.dependencies,
          Context.scope q.working d = Context.scope p.working d := by
        intro d hd
        have hdepends : start.graph.DependsOn x d := ⟨m, hm, hd⟩
        obtain ⟨hdo, hlt⟩ := hE.before hx hdepends
        exact (ih _ hlt d rfl hdo (hclosed x d hA hdepends)).working
      have hrest : ∀ r, Expr.isReserved r →
          Context.scope q.working r = Context.scope p.working r := by
        intro r hr
        refine (hapart r (hreserved r hr) fun hro => ?_).working
        exact (hs.named r ((hE.mirrors.node_iff r).mpr (hE.node_of_mem_order hro))).2 hr
      have hrep := (hs.covered x m hm).reply_eq ht hdependencies hrest
      obtain ⟨hr, he⟩ := hexplains.unique hexplains' hrep
      exact ⟨hw'.trans (hr.trans hw.symm), hr, he⟩

end Solutions

/-! ## Reports -/

section Reports

variable {start start' s s' : Session} {A R : String → Prop} {now now' : Number}
  {offer offer' : Offer} {results results' : Context}

/-- Two passes have started alike on the ids of `A`, and their reports on the ids of `R`. -/
def StartAlike (A R : String → Prop) (start start' : Session) (offer offer' : Offer) : Prop :=
  ∀ layers layers' working working',
    Layers.ofOffer offer = .ok layers → Layers.ofOffer offer' = .ok layers' →
    seed start.settings layers = .ok working → seed start'.settings layers' = .ok working' →
    (∀ x, A x → layers'.raw.get? x = layers.raw.get? x ∧ working'.get? x = working.get? x) ∧
      ∀ x, R x → (layers'.raw.merge layers'.calculated).get? x =
        (layers.raw.merge layers.calculated).get? x

/-- Reports agree where passes have started alike, on fields of a closed set and on ids that are no
fields. -/
theorem evaluateAll_agree (hs : Registered start) (hs' : Registered start')
    (hfresh : ∀ x f, start.graph.fields x = some f → f.Fresh)
    (hfields : start'.graph.fields = start.graph.fields)
    (hclosed : ∀ x d, A x → start.graph.DependsOn x d → A d)
    (hreserved : ∀ x, Expr.isReserved x → A x) (hAR : ∀ x, A x → R x)
    (halike : StartAlike A R start start' offer offer')
    (h : (evaluateAll now offer).run start = (.ok results, s))
    (h' : (evaluateAll now' offer').run start' = (.ok results', s')) {x : String} (hx : R x)
    (hnode : x ∈ start.graph.nodes.keys → A x) :
    results'.get? x = results.get? x ∧ s'.errors.get? x = s.errors.get? x := by
  obtain ⟨E, hE⟩ := hs.consistent
  obtain ⟨E', hE'⟩ := hs'.consistent
  have horder := Graph.mem_order_iff_of_fields_eq hE hE' hfields.symm
  have hcircular := Graph.mem_circular_iff_of_fields_eq hE hE' hfields.symm
  obtain ⟨layers, working, p, hl, hw, hp, hc, hnc⟩ := evaluateAll_solves hs hfresh h
  obtain ⟨layers', working', q, hl', hw', hq, hc', hnc'⟩ :=
    evaluateAll_solves hs' (hfields ▸ hfresh) h'
  obtain ⟨hA, hR⟩ := halike layers layers' working working' hl hl' hw hw'
  rw [hfields] at hq
  by_cases hcirc : x ∈ start.graph.circular
  · have hkey := (hE.mirrors.node_iff x).mpr (hE.mem_circular_iff.mp hcirc).1
    obtain ⟨f, hf⟩ := Option.isSome_iff_exists.mp (Graph.mem_keys_iff_fields.mp hkey)
    obtain ⟨hr, he⟩ := hc x hcirc f hf
    obtain ⟨hr', he'⟩ := hc' x ((hcircular x).mp hcirc) f (hfields ▸ hf)
    exact ⟨hr'.trans hr.symm, he'.trans he.symm⟩
  · obtain ⟨hr, he⟩ := hnc x hcirc
    obtain ⟨hr', he'⟩ := hnc' x (mt (hcircular x).mpr hcirc)
    rw [hr, hr', he, he']
    by_cases hplace : x ∈ start.graph.order
    · have hsame := hp.agree hs hq horder hclosed hreserved (fun y hy => (hA y hy).1)
        (fun y hy => (hA y hy).2) (fun y hy => hR y (hAR y hy)) x
        (hnode ((hE.mirrors.node_iff x).mpr (hE.node_of_mem_order hplace)))
      exact ⟨hsame.results, hsame.errors⟩
    · obtain ⟨-, hpr, hpe⟩ := hp.apart x hplace
      obtain ⟨-, hqr, hqe⟩ := hq.apart x (mt (horder x).mpr hplace)
      exact ⟨hqr.trans ((hR x hx).trans hpr.symm), hqe.trans hpe.symm⟩

end Reports

/-! ## The order of registrations -/

/-- **The order of registration does not show.** Simple fields of different ids may be registered in
any order: the edges are the same, and so are the circular ids; and when passes over the same offer
answer, they report the same values and errors. -/
theorem evaluateAll_perm (settings : Settings) {ops ops' : List Operation}
    (hops : ∀ op ∈ ops, op.isSimple) (hperm : ops.Perm ops')
    (hids : (ops.filterMap Operation.registers?).Nodup) :
    (∀ x d, (after (create settings) ops').graph.DependsOn x d ↔
      (after (create settings) ops).graph.DependsOn x d) ∧
    (∀ x, x ∈ (after (create settings) ops').graph.circular ↔
      x ∈ (after (create settings) ops).graph.circular) ∧
    ∀ now now' offer results results' s s',
      (evaluateAll now offer).run (after (create settings) ops) = (.ok results, s) →
      (evaluateAll now' offer).run (after (create settings) ops') = (.ok results', s') →
      ∀ x, results'.get? x = results.get? x ∧ s'.errors.get? x = s.errors.get? x := by
  have hops' : ∀ op ∈ ops', op.isSimple := fun op h => hops op (hperm.mem_iff.mpr h)
  have hs := registered_after settings hops
  have hs' := registered_after settings hops'
  obtain ⟨E, hE⟩ := hs.consistent
  obtain ⟨E', hE'⟩ := hs'.consistent
  have hfields : (after (create settings) ops').graph.fields =
      (after (create settings) ops).graph.fields := by
    rw [fields_after settings hops, fields_after settings hops']
    exact (fieldsOf_perm (hperm.filterMap _) (nodup_ids_of_registers hids)).symm
  have hcirc := Graph.mem_circular_iff_of_fields_eq hE' hE hfields
  refine ⟨fun x d => by rw [Graph.dependsOn_eq_of_fields_eq hfields], hcirc, ?_⟩
  intro now now' offer results results' s s' h h' x
  have hsame : StartAlike (fun _ => True) (fun _ => True) (after (create settings) ops)
      (after (create settings) ops') offer offer := by
    intro layers layers' working working' hl hl' hw hw'
    obtain rfl := Except.ok.inj (hl.symm.trans hl')
    rw [settings_after settings hops'] at hw'
    rw [settings_after settings hops] at hw
    obtain rfl := Except.ok.inj (hw.symm.trans hw')
    exact ⟨fun _ _ => ⟨rfl, rfl⟩, fun _ _ => rfl⟩
  exact evaluateAll_agree hs hs' (fresh_after settings hops) hfields (fun _ _ _ _ => trivial)
    (fun _ _ => trivial) (fun _ _ => trivial) hsame h h' trivial fun _ => trivial

/-- The sum that is registered before or after what it is made of. -/
theorem evaluateAll_totalBeforeDue :
    ∃ offer results results' s s',
      (evaluateAll (.int 0) offer).run (after (create {}) dueBeforeTotal) = (.ok results, s) ∧
      (evaluateAll (.int 0) offer).run (after (create {}) dueBeforeTotal.reverse) =
        (.ok results', s') ∧
      ∀ x, results'.get? x = results.get? x ∧ s'.errors.get? x = s.errors.get? x := by
  have hops : ∀ op ∈ dueBeforeTotal, op.isSimple := by decide +kernel
  have hids : (dueBeforeTotal.filterMap Operation.registers?).Nodup := by decide +kernel
  let offer : Offer :=
    { raw := ⟨[(.text "price", .int 5), (.text "quantity", .int 3), (.text "fee", .int 2)]⟩ }
  let run (ops : List Operation) := (evaluateAll (.int 0) offer).run (after (create {}) ops)
  have hok : (run dueBeforeTotal).1.isOk := by decide +kernel
  have hok' : (run dueBeforeTotal.reverse).1.isOk := by decide +kernel
  have hall := (evaluateAll_perm {} hops (List.reverse_perm dueBeforeTotal).symm hids).2.2
  obtain ⟨results, s, hrun⟩ := Action.exists_of_isOk hok
  obtain ⟨results', s', hrun'⟩ := Action.exists_of_isOk hok'
  exact ⟨offer, results, results', s, s', hrun, hrun',
    hall (.int 0) (.int 0) offer results results' s s' hrun hrun'⟩

end Session

end LiveForm
