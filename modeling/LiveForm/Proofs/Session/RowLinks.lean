import LiveForm.Proofs.Session.Wiring

/-! # The links between arrays and their computed rows

Whatever reads an array has to wait for the computed fields of its rows. So the session links each of
them to the array, and the edges of the array are made of its links whenever it is registered. The
links of an array last for as long as the array is not removed; removing it forgets them, and then
neither the array nor a placeholder for it gets them back before the rows are registered again. -/

namespace LiveForm.Session

section Linked

variable {s t : Session} {op : Operation} {f : String} {r : RowRef}

/-- A field of a row is linked to its array, which depends on it. -/
structure Linked (f array : String) (s : Session) : Prop where
  link : f ∈ linksOf s array
  edge : s.graph.DependsOn array f

/-- Registering a computed field of a row links it. -/
theorem linked_of_enters (hs : Wired s) (hdo : Does s t op) (hop : op.entered? = some f)
    (hf : RowRef.parse? f = .ok (some r)) (hx : (t.graph.expressionAt f).isSome) :
    Linked f r.array t := by
  obtain ⟨E, hE⟩ := hs.consistent
  cases hdo with
  | @enters id text declared default row ids g hg hr =>
    have hE' : ({ s with engine := g } : Session).graph.Consistent E := hE
    obtain rfl : id = f := Option.some.inj ((entered?_eq_some hr default).symm.trans hop)
    obtain ⟨-, -, -, -, hrow, -⟩ := reading_eq_ok hr
    obtain rfl : some r = row := Except.ok.inj (hf.symm.trans hrow)
    rw [expressionAt_enter hE', if_pos rfl] at hx
    obtain ⟨e, he⟩ := Option.isSome_iff_exists.mp hx
    rw [he]
    exact ⟨mem_linksOf_enter, (dependsOn_enter hE').mpr (.inr (.inr ⟨rfl, rfl, r, rfl, rfl⟩))⟩
  | removes id => cases hop
  | closes => cases hop
  | keeps hnone => exact absurd (hnone.symm.trans hop) (by simp)

/-- Only the removal of the array, or a registration of the field itself, undoes a link. -/
theorem Linked.does {array : String} (h : Linked f array s) (hs : Wired s) (hdo : Does s t op)
    (hop : op.entered? ≠ some f) (hne : op ≠ .unregister array)
    (hx : (t.graph.expressionAt f).isSome) : Linked f array t := by
  obtain ⟨E, hE⟩ := hs.consistent
  cases hdo with
  | @enters id text declared default row ids g hg hr =>
    have hE' : ({ s with engine := g } : Session).graph.Consistent E := hE
    have hlink : f ∈ linksOf ({ s with engine := g } : Session) array := h.link
    refine ⟨linksOf_subset_enter hlink, (dependsOn_enter hE').mpr ?_⟩
    -- The edges of the array are written anew when it is the field that is registered.
    by_cases hid : array = id
    · subst hid
      exact .inl ⟨rfl, linksOf_subset_edges array row ids hlink⟩
    · exact .inr (.inl ⟨hid, h.edge⟩)
  | removes id =>
    have harray : array ≠ id := fun heq => hne (congrArg _ heq.symm)
    have hfid : f ≠ id := by
      rintro rfl
      rw [graph_without, Graph.expressionAt_unregister, if_pos rfl] at hx
      cases hx
    refine ⟨mem_linksOf_without harray hfid h.link, ?_⟩
    rw [graph_without, (hE.mirrors.unregister id).dependsOn_iff]
    exact ⟨(hE.mirrors.dependsOn_iff array f).mp h.edge, harray, hfid⟩
  | closes => cases hx
  | keeps _ _ hk =>
    refine ⟨?_, (Graph.dependsOn_iff_of_stable_eq hk.stable array f).mpr h.edge⟩
    rw [linksOf, hk.rowLinks]
    exact h.link

/-- A computed field of a row is linked to its array, unless the array has been removed since. -/
theorem linked_after (settings : Settings) {ops : List Operation}
    (hf : RowRef.parse? f = .ok (some r))
    (hx : ((after (create settings) ops).graph.expressionAt f).isSome)
    (hr : ¬RemovedSince ops f r.array) : Linked f r.array (after (create settings) ops) :=
  holds_unless_removed (P := Linked f r.array) settings ops
    (fun _ _ _ _ hs hdo hop hx => linked_of_enters hs hdo hop hf hx)
    (fun _ _ _ hs hdo hop hne hx h => h.does hs hdo hop hne hx) hx hr

/-! ## Links that are gone -/

theorem linksOf_without_self (array : String) : linksOf (s.without array) array = [] := by
  have hdrop : (drop array s).rowLinks.get? array = none := by simp [drop, Table.get?_erase]
  unfold without
  split
  · simp [linksOf, unlinkRow, Table.get?_modify, hdrop]
  · rw [linksOf, hdrop]
    rfl

theorem linksOf_without_subset (id array : String) :
    linksOf (s.without id) array ⊆ linksOf s array := by
  have hdrop : linksOf (drop id s) array ⊆ linksOf s array := by
    simp only [linksOf, drop, Table.get?_erase]
    split
    · exact List.nil_subset _
    · exact fun _ h => h
  unfold without
  split
  · refine List.Subset.trans ?_ hdrop
    simp only [linksOf, unlinkRow, Table.get?_modify]
    split
    · cases (drop id s).rowLinks.get? array with
      | none => exact fun _ h => h
      | some ids => exact List.erase_subset
    · exact fun _ h => h
  · exact hdrop

/-- Nothing but a registration of the field itself links it. -/
theorem mem_linksOf_of_does {array : String} (hdo : Does s t op) (hop : op.entered? ≠ some f)
    (hlink : f ∈ linksOf t array) : f ∈ linksOf s array ∧ op ≠ .unregister array := by
  cases hdo with
  | @enters id text declared default row ids g hg hr =>
    rw [entered?_eq_some hr] at hop
    have hne : f ≠ id := fun heq => hop (congrArg some heq.symm)
    refine ⟨?_, fun heq => by cases heq⟩
    rw [linksOf_enter] at hlink
    split at hlink
    · split at hlink
      · split at hlink
        · exact hlink
        · exact (List.mem_append.mp hlink).resolve_right fun h => hne (List.mem_singleton.mp h)
      · exact hlink
    · exact hlink
  | removes id =>
    refine ⟨linksOf_without_subset id array hlink, fun heq => ?_⟩
    obtain rfl := Operation.unregister.inj heq
    rw [linksOf_without_self] at hlink
    cases hlink
  | closes => cases hlink
  | keeps _ hne hk =>
    rw [linksOf, hk.rowLinks] at hlink
    exact ⟨hlink, hne array⟩

/-- **Readers of an array wait for its computed rows, until the array is removed.** After any history,
a computed field of a row is linked to its array exactly if the array has not been removed since the
field was last registered; and then the array depends on it, and comes after it unless the array is
circular. -/
theorem rows_linked (settings : Settings) (ops : List Operation) {f : String} {r : RowRef}
    (hf : RowRef.parse? f = .ok (some r))
    (hx : ((after (create settings) ops).graph.expressionAt f).isSome) :
    (f ∈ linksOf (after (create settings) ops) r.array ↔ ¬RemovedSince ops f r.array) ∧
      (¬RemovedSince ops f r.array →
        (after (create settings) ops).graph.DependsOn r.array f ∧
          (r.array ∉ (after (create settings) ops).graph.circular →
            (after (create settings) ops).graph.Precedes f r.array)) := by
  have hlinked := linked_after settings hf hx
  obtain ⟨E, hE⟩ := (wired_after (wired_create settings) ops).consistent
  refine ⟨⟨fun hlink => ?_, fun hr => (hlinked hr).link⟩,
    fun hr => ⟨(hlinked hr).edge, fun hc => hE.precedes hc (hlinked hr).edge⟩⟩
  refine not_removedSince (P := fun s => f ∈ linksOf s r.array) (fun h => by cases h) ?_ hlink
  exact fun _ _ _ _ hdo hop h => mem_linksOf_of_does hdo hop h

end Linked

/-- The line total of an item, and the array of items, which is registered twice. -/
def itemsTwice : List Operation :=
  [.register "items[0].lineTotal" (some "price * 2") none .null, .register "items" none none .null,
    .register "items" none none .null]

theorem rows_linked_itemsTwice :
    ¬RemovedSince itemsTwice "items[0].lineTotal" "items" ∧
      (after (create {}) itemsTwice).graph.DependsOn "items" "items[0].lineTotal" ∧
      (after (create {}) itemsTwice).graph.Precedes "items[0].lineTotal" "items" := by
  have hnot : ¬RemovedSince itemsTwice "items[0].lineTotal" "items" := by
    rintro ⟨before, later, heq, -⟩
    have hmem : Operation.unregister "items" ∈ itemsTwice := by
      rw [heq]
      simp
    simp [itemsTwice] at hmem
  obtain ⟨-, hlinked⟩ := rows_linked (f := "items[0].lineTotal") (r := ⟨"items", 0, "lineTotal"⟩) {}
    itemsTwice (by rfl) (by decide +kernel)
  obtain ⟨hdepends, hprecedes⟩ := hlinked hnot
  exact ⟨hnot, hdepends, hprecedes (by decide +kernel)⟩

/-- The line total of an item, and the array of items, which is removed and registered again. -/
def itemsAgain : List Operation :=
  [.register "items[0].lineTotal" (some "price * 2") none .null, .register "items" none none .null,
    .unregister "items", .register "items" none none .null]

/-- An array that is registered again after its removal does not depend on its computed row. -/
theorem not_relinked :
    RowRef.parse? "items[0].lineTotal" = .ok (some ⟨"items", 0, "lineTotal"⟩) ∧
      (after (create {}) itemsAgain).graph.expressionAt "items[0].lineTotal" = some "price * 2" ∧
      "items" ∈ (after (create {}) itemsAgain).graph.nodes.keys ∧
      ¬(after (create {}) itemsAgain).graph.DependsOn "items" "items[0].lineTotal" := by
  refine ⟨by rfl, ?_⟩
  decide +kernel

end LiveForm.Session
