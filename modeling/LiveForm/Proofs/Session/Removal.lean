import LiveForm.Proofs.Session.Wiring

/-! # What a removal undoes for good

A field whose dependencies are extracted depends on every name that its expression mentions, and so it
comes after all of them, whatever else is registered, registered anew or removed. There is one
exception: the removal of a name takes the edge out, and only a registration of the field itself puts
it back, not one of the name. -/

namespace LiveForm.Session

section Mentions

variable {s t : Session} {op : Operation} {f g : String}

/-- What the expression of a field mentions is what it depends on. -/
def DependsOnMentioned (f g : String) (s : Session) : Prop :=
  ∀ text e, s.graph.expressionAt f = some text → Expr.parse text = .ok e → g ∈ e.mentions →
    s.graph.DependsOn f g

/-- A registration without declared dependencies has the names that its expression mentions as
dependencies. -/
theorem dependsOnMentioned_of_enters (hs : Wired s) (hdo : Does s t op) (hop : op.entered? = some f)
    (hf : isLocalName f) (hextracted : ∀ text declared default,
      op = .register f text declared default → declared = none) : DependsOnMentioned f g t := by
  intro text e hx he hm
  obtain ⟨E, hE⟩ := hs.consistent
  cases hdo with
  | @enters id text' declared default row ids h hh hr =>
    have hE' : ({ s with engine := h } : Session).graph.Consistent E := hE
    obtain rfl : id = f := Option.some.inj ((entered?_eq_some hr default).symm.trans hop)
    obtain rfl := hextracted text' declared default rfl
    obtain ⟨references, extracted, href, hext, hrow, rfl⟩ := reading_eq_ok hr
    obtain rfl : none = row := Except.ok.inj ((RowRef.parse?_of_isLocalName hf).symm.trans hrow)
    rw [expressionAt_enter hE', if_pos rfl] at hx
    have hmentioned : g ∈ references := (mem_mentionedBy_iff href).mpr ⟨text, e, hx, he, hm⟩
    refine (dependsOn_enter hE').mpr (.inl ⟨rfl, List.mem_append_left _ ?_⟩)
    exact mem_withHeads hext hmentioned
  | removes id => cases hop
  | closes => cases hop
  | keeps hnone => exact absurd (hnone.symm.trans hop) (by simp)

/-- A field whose dependencies are extracted depends on the names that it mentions and that are not
removed. -/
theorem dependsOnMentioned_after (settings : Settings) {ops : List Operation} {text : String} {e : Expr}
    (hf : isLocalName f) (hextracted : ∀ text declared default,
      .register f text declared default ∈ ops → declared = none)
    (hx : (after (create settings) ops).graph.expressionAt f = some text)
    (he : Expr.parse text = .ok e) (hm : g ∈ e.mentions) (hr : ¬RemovedSince ops f g) :
    (after (create settings) ops).graph.DependsOn f g := by
  refine holds_unless_removed (P := DependsOnMentioned f g) settings ops ?_ ?_
    (by rw [hx]; rfl) hr text e hx he hm
  · intro s t op hop hs hdo hentered _
    refine dependsOnMentioned_of_enters hs hdo hentered hf ?_
    rintro text declared default rfl
    exact hextracted text declared default hop
  · intro s t op hs hdo hop hne hsome hP text e hx he hm
    rw [hdo.expressionAt_eq hs hop hsome] at hx
    exact hdo.dependsOn hs hop hsome hne (hP text e hx he hm)

/-- Only a registration of its own makes a field depend on a name. -/
theorem Does.dependsOn_of_isLocalName (h : Wired s) (hdo : Does s t op) (hop : op.entered? ≠ some f)
    (hg : isLocalName g) (hd : t.graph.DependsOn f g) :
    s.graph.DependsOn f g ∧ op ≠ .unregister g := by
  obtain ⟨E, hE⟩ := h.consistent
  cases hdo with
  | @enters id text' declared default row ids k hk hr =>
    have hE' : ({ s with engine := k } : Session).graph.Consistent E := hE
    rw [entered?_eq_some hr] at hop
    refine ⟨?_, fun heq => by cases heq⟩
    rcases (dependsOn_enter hE').mp hd with ⟨hid, -⟩ | ⟨-, hd⟩ | ⟨-, rfl, r, rfl, -⟩
    · exact absurd (congrArg some hid.symm) hop
    · exact hd
    · obtain ⟨-, -, -, -, hrow, -⟩ := reading_eq_ok hr
      cases (RowRef.parse?_of_isLocalName hg).symm.trans hrow
  | removes id =>
    rw [graph_without, (hE.mirrors.unregister id).dependsOn_iff] at hd
    refine ⟨(hE.mirrors.dependsOn_iff f g).mpr hd.1, fun heq => ?_⟩
    exact hd.2.2 (Operation.unregister.inj heq).symm
  | closes =>
    obtain ⟨n, hn, -⟩ := hd
    cases hn
  | keeps _ hne hk => exact ⟨(Graph.dependsOn_iff_of_stable_eq hk.stable f g).mp hd, hne g⟩

/-- **A field comes after the names in its expression, until one is removed.** After any history in
which a simple field has been registered without declared dependencies only, it depends on a simple
name that its expression mentions exactly if that name has not been removed since the field was last
registered; and then, unless the field is circular, the name comes before it in the order. -/
theorem references_scheduled (settings : Settings) {ops : List Operation} {f g text : String}
    {e : Expr} (hf : isLocalName f) (hg : isLocalName g)
    (hextracted : ∀ text declared default, .register f text declared default ∈ ops →
      declared = none)
    (hx : (after (create settings) ops).graph.expressionAt f = some text)
    (he : Expr.parse text = .ok e) (hm : g ∈ e.mentions) :
    ((after (create settings) ops).graph.DependsOn f g ↔ ¬RemovedSince ops f g) ∧
      (¬RemovedSince ops f g → f ∉ (after (create settings) ops).graph.circular →
        (after (create settings) ops).graph.Precedes g f) := by
  have hdepends := dependsOnMentioned_after settings hf hextracted hx he hm
  obtain ⟨E, hE⟩ := (wired_after (wired_create settings) ops).consistent
  refine ⟨⟨fun hd => ?_, hdepends⟩, fun hr hc => hE.precedes hc (hdepends hr)⟩
  refine not_removedSince (P := fun s => s.graph.DependsOn f g) ?_ ?_ hd
  · rintro ⟨n, hn, -⟩
    cases hn
  · exact fun _ _ _ hs hdo hop hd => hdo.dependsOn_of_isLocalName hs hop hg hd

end Mentions

/-- A sum that is due, and the total in it, which is removed and registered again. -/
def totalAgain : List Operation :=
  [.register "due" (some "total + 1") none .null,
    .register "total" (some "price * 2") none .null, .unregister "total",
    .register "total" (some "price * 2") none .null]

/-- The same, and then the sum is registered again. -/
def bothAgain : List Operation :=
  totalAgain ++ [.register "due" (some "total + 1") none .null]

/-- A sum that is registered again after the total in it comes after the total. -/
theorem references_scheduled_bothAgain :
    ¬RemovedSince bothAgain "due" "total" ∧
      (after (create {}) bothAgain).graph.DependsOn "due" "total" ∧
      (after (create {}) bothAgain).graph.Precedes "total" "due" := by
  obtain ⟨e, he, hm⟩ := Engine.exists_mentioning "total + 1" "total" (by decide +kernel)
  have hextracted : ∀ text declared default,
      .register "due" text declared default ∈ bothAgain → declared = none := by
    intro text declared default h
    simp only [bothAgain, totalAgain, List.cons_append, List.nil_append, List.mem_cons,
      List.not_mem_nil, Operation.register.injEq, reduceCtorEq, or_false, false_or] at h
    rcases h with h | h | h | h <;> exact h.2.2.1
  have hnot : ¬RemovedSince bothAgain "due" "total" := by
    rw [bothAgain, removedSince_concat]
    rintro (heq | ⟨hne, -⟩)
    · cases heq
    · exact hne (by decide +kernel)
  obtain ⟨hdepends, hprecedes⟩ := references_scheduled {} (by decide +kernel) (by decide +kernel)
    hextracted (by decide +kernel) he hm
  exact ⟨hnot, hdepends.mpr hnot, hprecedes hnot (by decide +kernel)⟩

/-- A sum that is not registered again comes before the total that its expression mentions, which is a
field and not circular. -/
theorem not_rescheduled :
    (∃ e, Expr.parse "total + 1" = .ok e ∧ "total" ∈ e.mentions) ∧
      (after (create {}) totalAgain).graph.expressionAt "due" = some "total + 1" ∧
      (after (create {}) totalAgain).graph.expressionAt "total" = some "price * 2" ∧
      "due" ∉ (after (create {}) totalAgain).graph.circular ∧
      ¬(after (create {}) totalAgain).graph.Precedes "total" "due" := by
  refine ⟨Engine.exists_mentioning _ _ (by decide +kernel), ?_⟩
  decide +kernel

end LiveForm.Session
