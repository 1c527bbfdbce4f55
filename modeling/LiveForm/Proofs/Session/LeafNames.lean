import LiveForm.Proofs.Row.Update
import LiveForm.Proofs.Session.Accounting
import LiveForm.Proofs.Session.OneValue
import LiveForm.Proofs.Session.Removal

/-! # The last part of a dotted id

A computed field with a dotted id lends its value to the last part of the id, in the working context
and in the report, if the graph has no field of that name. A name becomes a field of the graph not only
when it is registered: an expression that mentions it, in a field whose dependencies are extracted,
leaves an empty field under it. Then the name stands for nothing, and null is reported. -/

namespace LiveForm

theorem RowRef.get?_writeBack_eq_none {r : RowRef} {v : Value} {c : Context} {x : String}
    (h : c.get? x = none) : (r.writeBack v c).get? x = none := by
  by_cases hx : x = r.array
  · subst hx
    rwa [writeBack_of_not_list fun rows hrows => by cases h.symm.trans hrows]
  · rwa [get?_writeBack_of_ne hx]

namespace Session

open LiveForm.Action

/-! ## Every arrival of a pass -/

section Arrivals

variable {start t : Session} {now : Number} {offer : Offer} {last : Pass}

/-- What a pass starts with and every step preserves holds when the pass comes to a field, and in the
end. -/
theorem sweep_arrivals (hs : Wired start) (h : (sweep now offer).run start = (.ok last, t)) :
    ∃ layers working, Layers.ofOffer offer = .ok layers ∧
      seed start.settings layers = .ok working ∧
      ∀ P : List String → Pass → Prop,
        P [] { working := working, results := layers.raw.merge layers.calculated } →
        (∀ done id rest p q, start.graph.order = done ++ id :: rest →
          Stepped start layers.raw id p q → P done p → P (done ++ [id]) q) →
        P start.graph.order last ∧ ∀ done id rest, start.graph.order = done ++ id :: rest →
          ∃ p u, (arriving now offer id).run start = (.ok p, u) ∧ P done p := by
  obtain ⟨E, hE⟩ := hs.consistent
  obtain ⟨layers, working, hlayers, hopening, hsteps⟩ := sweep_steps hs h
  obtain ⟨layers', working', hlayers', hseed, -, -, hfirst⟩ := opening_eq_ok hopening
  obtain rfl := Except.ok.inj (hlayers.symm.trans hlayers')
  obtain rfl : working = working' := congrArg Pass.working hfirst
  refine ⟨layers, working, hlayers, hseed, fun P hP hstep => ⟨?_, fun done id rest ho => ?_⟩⟩
  · have hall : start.graph.order = [] ++ start.graph.order ++ [] := (List.append_nil _).symm
    exact ((Held.self start).steps hs hE hstep hall hP hsteps).2
  · rw [ho, List.foldlM_append] at hsteps
    obtain ⟨p, u, hp, -⟩ := bind_answers hsteps
    have hfront : start.graph.order = [] ++ done ++ id :: rest := ho
    exact ⟨p, u, arriving_eq hopening ho (hE.next_not_done ho) hp,
      ((Held.self start).steps hs hE hstep hfront hP hp).2⟩

end Arrivals

/-! ## A name that one field lends its value to -/

/-- A computed field that is not circular, and the last part of its id, which is not offered itself and
is the last part of nothing else that is offered or a field. -/
structure Lends (s : Session) (offer : Offer) (d leaf : String) : Prop where
  computed : (s.graph.expressionAt d).isSome
  ordered : d ∉ s.graph.circular
  named : alias? d = .ok (some leaf)
  entered : .text leaf ∉ offer.raw.keys
  calculated : .text leaf ∉ offer.calculated.keys
  only : ∀ x, alias? x = .ok (some leaf) →
    x ∈ s.graph.nodes.keys ∨ .text x ∈ offer.raw.keys ∨ .text x ∈ offer.calculated.keys → x = d

/-- Nothing that is offered binds the last part of the id or the id. -/
structure Clear (offer : Offer) (d leaf : String) : Prop where
  raw : offer.raw.keys.Nodup
  calculated : offer.calculated.keys.Nodup
  metadata : .text leaf ∉ offer.metadata.keys
  entered : .text d ∉ offer.raw.keys
  computed : .text d ∉ offer.calculated.keys

/-- The name is reported with the field, and read with its value unless a row is written into it. -/
def Lent (s : Session) (d leaf : String) (done : List String) (p : Pass) : Prop :=
  if d ∈ done then
    ∃ v, p.results.get? d = some v ∧ p.results.get? leaf = some v ∧
      (p.working.get? leaf = some v ∨ ∃ g ∈ done, WritesRowOf s leaf g)
  else p.results.get? leaf = none

/-- Nothing is bound under a name that is a field without a value, and null is reported when the field
has had its turn. -/
def Unlent (leaf : String) (done : List String) (p : Pass) : Prop :=
  p.working.get? leaf = none ∧ p.results.get? leaf = if leaf ∈ done then some .null else none

section Steps

variable {s : Session} {E : Edges} {offer : Offer} {layers : Layers} {raw : Context} {p q : Pass}
  {d leaf id : String} {done rest : List String}

theorem text_mem_keys_iff {m : Mapping} {c : Context} (h : Layers.named m = .ok c) {x : String} :
    .text x ∈ m.keys ↔ x ∈ c.keys := by
  rw [Layers.eq_of_named h, keys_ofContext, List.mem_map]
  exact ⟨fun ⟨y, hy, heq⟩ => Key.text.inj heq ▸ hy, fun hx => ⟨x, hx, rfl⟩⟩

theorem Lends.not_offered (h : Lends s offer d leaf) (hlayers : Layers.ofOffer offer = .ok layers) :
    layers.raw.get? leaf = none ∧ layers.calculated.get? leaf = none := by
  obtain ⟨hraw, hcalculated, -⟩ := ofOffer_eq_ok hlayers
  rw [Table.get?_eq_none_iff, Table.get?_eq_none_iff, ← text_mem_keys_iff hraw,
    ← text_mem_keys_iff hcalculated]
  exact ⟨h.entered, h.calculated⟩

theorem Lends.ne (h : Lends s offer d leaf) : leaf ≠ d := by
  rintro rfl
  have hdot := (alias?_eq_some h.named).1
  unfold leafName? at hdot
  split at hdot
  · rename_i hhas
    exact dot_not_mem_of_alias? h.named (by simpa [Text.hasChar] using hhas)
  · cases hdot

theorem Lends.parse? (h : Lends s offer d leaf) : RowRef.parse? d = .ok none := by
  have hrow := (alias?_eq_some h.named).2
  unfold isRowId at hrow
  cases hp : RowRef.parse? d with
  | error c =>
    rw [hp] at hrow
    cases hrow
  | ok row =>
    rw [hp] at hrow
    cases row with
    | none => rfl
    | some r => cases hrow

theorem Lends.standIn?_ne (h : Lends s offer d leaf) (hid : id ∈ s.graph.nodes.keys) (hne : id ≠ d) :
    standIn? s raw id ≠ some leaf := fun heq =>
  hne (h.only id (standIn?_eq_some_iff.mp heq).2.1 (.inl hid))

/-- The turn of the field itself. -/
theorem Lends.lent_self (h : Lends s offer d leaf) (hin : standIn? s raw d = some leaf)
    (hstep : Stepped s raw d p q) (hp : p.results.get? leaf = none) :
    ∃ v, q.results.get? d = some v ∧ q.results.get? leaf = some v ∧ q.working.get? leaf = some v := by
  have hplain : s.graph.expressionAt d ≠ none := Option.isSome_iff_ne_none.mp h.computed
  cases hstep with
  | unbound hx => exact absurd hx hplain
  | plain v hx => exact absurd hx hplain
  | computed a row hx hrow =>
    obtain rfl : none = row := Except.ok.inj (h.parse?.symm.trans hrow)
    refine ⟨a.value, ?_, ?_, ?_⟩
    · rw [Pass.get?_enterAnswer_results, if_pos rfl]
    · rw [Pass.get?_enterAnswer_results, if_neg h.ne, if_pos hin, hp, Option.getD_none]
    · rw [Pass.get?_enterAnswer_working fun r hr => (by cases hr), if_pos (.inl hin)]

theorem Lent.step (hE : s.graph.Consistent E) (h : Lends s offer d leaf)
    (hfree : leaf ∉ s.graph.nodes.keys) (hin : standIn? s raw d = some leaf)
    (ho : s.graph.order = done ++ id :: rest) (hstep : Stepped s raw id p q)
    (hp : Lent s d leaf done p) : Lent s d leaf (done ++ [id]) q := by
  have hid := hE.next_mem_keys ho
  have hleafid : leaf ≠ id := fun heq => hfree (heq ▸ hid)
  by_cases hne : id = d
  · subst hne
    rw [Lent, if_neg (hE.next_not_done ho)] at hp
    rw [Lent, if_pos (by simp)]
    obtain ⟨v, hv, hname, hread⟩ := h.lent_self hin hstep hp
    exact ⟨v, hv, hname, .inl hread⟩
  · have hstand : standIn? s raw id ≠ some leaf := h.standIn?_ne hid hne
    have hname := hstep.results_eq hleafid (.inl hstand)
    by_cases hdone : d ∈ done
    · rw [Lent, if_pos hdone] at hp
      rw [Lent, if_pos (List.mem_append_left [id] hdone), hname]
      obtain ⟨v, hv, hnamed, hread⟩ := hp
      have hd : d ∈ s.graph.nodes.keys :=
        (hE.mem_order_iff_not_circular.mp (ho ▸ List.mem_append_left _ hdone)).1
      refine ⟨v, (hstep.results_eq (Ne.symm hne) (.inl (standIn?_ne_of_mem hd))).trans hv, hnamed, ?_⟩
      by_cases hrow : WritesRowOf s leaf id
      · exact .inr ⟨id, by simp, hrow⟩
      · rw [hstep.working_eq hleafid hstand hrow]
        exact hread.imp_right fun ⟨g, hg, hw⟩ => ⟨g, List.mem_append_left [id] hg, hw⟩
    · rw [Lent, if_neg hdone] at hp
      rw [Lent, if_neg (by simp [hdone, Ne.symm hne]), hname]
      exact hp

/-- A name that is bound nowhere stays so in the turn of any field, if it is a plain field that is not
entered and stands for no other. -/
theorem Stepped.stays_unbound {x : String} (h : Stepped s raw id p q)
    (hplain : s.graph.expressionAt x = none) (hraw : raw.get? x = none)
    (hstand : standIn? s raw id ≠ some x) (hx : p.working.get? x = none) :
    q.working.get? x = none := by
  cases h with
  | unbound => exact hx
  | plain v hid hv =>
    have hne : x ≠ id := by
      rintro rfl
      rw [hraw, hx] at hv
      simp at hv
    rw [Pass.get?_enter_working, if_neg (not_or.mpr ⟨hstand, hne⟩), hx]
  | computed a row hid =>
    have hne : x ≠ id := by
      rintro rfl
      rw [hplain] at hid
      cases hid
    have henter (p : Pass) (hx : p.working.get? x = none) :
        (p.enter (standIn? s raw id) id a.value).working.get? x = none := by
      rw [Pass.get?_enter_working, if_neg (not_or.mpr ⟨hstand, hne⟩), hx]
    cases row with
    | none => exact henter _ hx
    | some r => exact RowRef.get?_writeBack_eq_none (henter _ hx)

theorem Unlent.step (hE : s.graph.Consistent E) (hfield : leaf ∈ s.graph.nodes.keys)
    (hplain : s.graph.expressionAt leaf = none) (hraw : raw.get? leaf = none)
    (ho : s.graph.order = done ++ id :: rest) (hstep : Stepped s raw id p q)
    (hp : Unlent leaf done p) : Unlent leaf (done ++ [id]) q := by
  have hstand : standIn? s raw id ≠ some leaf := standIn?_ne_of_mem hfield
  refine ⟨hstep.stays_unbound hplain hraw hstand hp.1, ?_⟩
  by_cases hne : leaf = id
  · subst hne
    rw [if_pos (by simp)]
    cases hstep with
    | unbound =>
      rw [Table.get?_insertNew, if_pos (beq_self_eq_true leaf), hp.2, if_neg (hE.next_not_done ho)]
      rfl
    | plain v hx hv =>
      rw [hraw, hp.1] at hv
      simp at hv
    | computed a row hx =>
      rw [hplain] at hx
      cases hx
  · rw [hstep.results_eq hne (.inl hstand), hp.2]
    simp [hne]

/-- Nothing is bound under a last part at the start of a pass, unless it is offered itself or the last
part of something that is offered. -/
theorem get?_seed_eq_none {settings : Settings} {working : Context} (hraw : layers.raw.keys.Nodup)
    (hcalculated : layers.calculated.keys.Nodup) (h : seed settings layers = .ok working)
    (hdot : '.' ∉ leaf.toList) (hnone : layers.raw.get? leaf = none ∧
      layers.calculated.get? leaf = none ∧ layers.metadata.get? leaf = none)
    (hleaf : ∀ x, alias? x = .ok (some leaf) →
      x ∉ layers.raw.keys ∧ x ∉ layers.calculated.keys) : working.get? leaf = none := by
  obtain ⟨cells, hcells, hseed⟩ := get?_seed hraw hcalculated h
  have hcell : cells.get? leaf = none := by
    refine Table.get?_eq_none_iff.mpr fun hmem => ?_
    obtain ⟨v, hv⟩ := Table.exists_get?_of_mem_keys hmem
    obtain ⟨array, rows, i, row, key, -, -, -, hid⟩ := cellOf_of_mem hcells (Table.mem_of_get? hv)
    exact hdot (dot_mem_of_cellId hid)
  have hstanding {es : List (String × Value)}
      (hes : ∀ e ∈ es, e.1 ∈ layers.raw.keys ∨ e.1 ∈ layers.calculated.keys) :
      standing settings es leaf = none := by
    refine Option.eq_none_iff_forall_ne_some.mpr fun v hv => ?_
    obtain ⟨-, x, hx, hname⟩ := standing_eq_some hv
    obtain ⟨hxraw, hxcalculated⟩ := hleaf x hname
    exact (hes _ hx).elim hxraw hxcalculated
  have hentered : standing settings layers.raw.entries leaf = none :=
    hstanding fun e he => .inl (List.mem_map_of_mem he)
  have hcomputed : standing settings layers.calculated.entries.reverse leaf = none :=
    hstanding fun e he => .inr (List.mem_map_of_mem (List.mem_reverse.mp he))
  rw [hseed, hcomputed, hentered, hnone.1, hnone.2.1, hnone.2.2, hcell]
  rfl

end Steps

/-! ## Which names are fields -/

section History

variable {settings : Settings} {ops : List Operation} {f g x : String}

/-- Only what has been registered has an expression. -/
theorem exists_entered (hx : ((after (create settings) ops).graph.expressionAt x).isSome) :
    ∃ op ∈ ops, op.entered? = some x := by
  induction ops using List.reverseRecOn with
  | nil => cases hx
  | append_singleton ops op ih =>
    have hs := wired_after (wired_create settings) ops
    rw [after_concat] at hx
    by_cases hop : op.entered? = some x
    · exact ⟨op, by simp, hop⟩
    · rw [(hs.does op).expressionAt_eq hs hop hx] at hx
      obtain ⟨o, ho, hentered⟩ := ih hx
      exact ⟨o, List.mem_append_left _ ho, hentered⟩

/-- An array whose computed row fields are linked is a field of the graph. -/
theorem removedSince_of_writesRowOf (hx : x ∉ (after (create settings) ops).graph.nodes.keys)
    (hg : WritesRowOf (after (create settings) ops) x g) : RemovedSince ops g x := by
  obtain ⟨hcomputed, r, hr, rfl⟩ := hg
  obtain ⟨E, hE⟩ := (wired_after (wired_create settings) ops).consistent
  by_contra hremoved
  have hlinked := linked_after settings hr hcomputed hremoved
  exact hx ((hE.mirrors.node_iff _).mpr (hE.node_of_dependsOn hlinked.edge).1)

end History

section Pass

variable {settings : Settings} {ops : List Operation} {now : Number} {offer : Offer}
  {results : Context} {t : Session} {d leaf : String}

/-- What a name that is no field is reported as and read as. -/
theorem Lends.lent (hon : (after (create settings) ops).settings.aliasLeafNames)
    (hleaf : Lends (after (create settings) ops) offer d leaf)
    (hfree : leaf ∉ (after (create settings) ops).graph.nodes.keys)
    (h : (evaluateAll now offer).run (after (create settings) ops) = (.ok results, t)) :
    ∃ v, results.get? d = some v ∧ results.get? leaf = some v ∧
      ∀ done f rest, (after (create settings) ops).graph.order = done ++ f :: rest → d ∈ done →
        ∃ p u, (arriving now offer f).run (after (create settings) ops) = (.ok p, u) ∧
          (p.working.get? leaf = some v ∨ ∃ g ∈ done,
            WritesRowOf (after (create settings) ops) leaf g ∧ RemovedSince ops g leaf) := by
  have hs := wired_after (wired_create settings) ops
  have hremoved (g : String) (hg : WritesRowOf (after (create settings) ops) leaf g) :
      RemovedSince ops g leaf := removedSince_of_writesRowOf hfree hg
  generalize after (create settings) ops = s at *
  obtain ⟨E, hE⟩ := hs.consistent
  obtain ⟨last, hlast⟩ := exists_concluded hs h
  obtain ⟨u, hsweep⟩ := hlast.sweep
  obtain ⟨layers, working, hlayers, -, harrivals⟩ := sweep_arrivals hs hsweep
  obtain ⟨hraw, hcalculated⟩ := hleaf.not_offered hlayers
  have hin : standIn? s layers.raw d = some leaf :=
    standIn?_eq_some_iff.mpr ⟨hon, hleaf.named, hfree, hraw⟩
  have hfirst : Lent s d leaf [] { working, results := layers.raw.merge layers.calculated } := by
    rw [Lent, if_neg List.not_mem_nil, Table.get?_eq_none_iff, Table.mem_keys_merge,
      ← Table.get?_isSome_iff, ← Table.get?_isSome_iff, hraw, hcalculated]
    simp
  have hmem : d ∈ s.graph.order := hE.mem_order_iff_not_circular.mpr
    ⟨Graph.mem_keys_of_expressionAt hleaf.computed, hleaf.ordered⟩
  have hcircular : leaf ∉ s.graph.circular := fun hx =>
    hfree ((hE.mirrors.node_iff leaf).mpr (hE.mem_circular_iff.mp hx).1)
  obtain ⟨hend, harrive⟩ := harrivals (Lent s d leaf) hfirst
    fun done id rest p q ho hstep hp => hp.step hE hleaf hfree hin ho hstep
  rw [Lent, if_pos hmem] at hend
  obtain ⟨v, hv, hname, -⟩ := hend
  refine ⟨v, (hlast.turns d hleaf.ordered).1.trans hv, (hlast.turns leaf hcircular).1.trans hname,
    fun done f rest ho hd => ?_⟩
  obtain ⟨p, w, hp, hlent⟩ := harrive done f rest ho
  rw [Lent, if_pos hd] at hlent
  obtain ⟨v', hv', -, hread⟩ := hlent
  -- the value that the field has here is the one that it has in the end
  obtain ⟨q, w', hq, hfinal⟩ := hlast.final hs ho
  obtain ⟨hpq, -⟩ := Prod.mk.inj (hp.symm.trans hq)
  obtain rfl := Except.ok.inj hpq
  have hvalue : some v = some v' :=
    ((hlast.turns d hleaf.ordered).1.trans hv).symm.trans ((hfinal d hd).1.trans hv')
  obtain rfl := Option.some.inj hvalue
  exact ⟨p, w, hp, hread.imp_right fun ⟨g, hg, hw⟩ => ⟨g, hg, hw, hremoved g hw⟩⟩

/-- What a name that is a field without a value is reported as and read as. -/
theorem Lends.unlent (hnever : ∀ op ∈ ops, op.entered? ≠ some leaf)
    (hleaf : Lends (after (create settings) ops) offer d leaf) (hclear : Clear offer d leaf)
    (hfield : leaf ∈ (after (create settings) ops).graph.nodes.keys)
    (hordered : leaf ∉ (after (create settings) ops).graph.circular)
    (h : (evaluateAll now offer).run (after (create settings) ops) = (.ok results, t)) :
    results.get? leaf = some .null ∧
      ∀ done f rest, (after (create settings) ops).graph.order = done ++ f :: rest →
        ∃ p u, (arriving now offer f).run (after (create settings) ops) = (.ok p, u) ∧
          p.working.get? leaf = none := by
  have hs := wired_after (wired_create settings) ops
  have hplain : (after (create settings) ops).graph.expressionAt leaf = none := by
    by_contra hx
    obtain ⟨op, hop, hentered⟩ := exists_entered (Option.isSome_iff_ne_none.mpr hx)
    exact hnever op hop hentered
  generalize after (create settings) ops = s at *
  obtain ⟨E, hE⟩ := hs.consistent
  obtain ⟨last, hlast⟩ := exists_concluded hs h
  obtain ⟨u, hsweep⟩ := hlast.sweep
  obtain ⟨layers, working, hlayers, hseed, harrivals⟩ := sweep_arrivals hs hsweep
  obtain ⟨hraw, hcalculated⟩ := hleaf.not_offered hlayers
  have hnamed := ofOffer_eq_ok hlayers
  obtain ⟨hrawKeys, hcalculatedKeys, -, -⟩ := get?_of_ofOffer hlayers hclear.raw hclear.calculated
  have hmetadata : layers.metadata.get? leaf = none :=
    Table.get?_eq_none_iff.mpr fun hmem => hclear.metadata ((text_mem_keys_iff hnamed.2.2).mpr hmem)
  have hunbound : working.get? leaf = none := by
    refine get?_seed_eq_none hrawKeys hcalculatedKeys hseed (dot_not_mem_of_alias? hleaf.named)
      ⟨hraw, hcalculated, hmetadata⟩ fun x hx => ⟨fun hmem => ?_, fun hmem => ?_⟩
    · have hmem := (text_mem_keys_iff hnamed.1).mpr hmem
      exact hclear.entered (hleaf.only x hx (.inr (.inl hmem)) ▸ hmem)
    · have hmem := (text_mem_keys_iff hnamed.2.1).mpr hmem
      exact hclear.computed (hleaf.only x hx (.inr (.inr hmem)) ▸ hmem)
  have hfirst : Unlent leaf [] { working, results := layers.raw.merge layers.calculated } := by
    refine ⟨hunbound, ?_⟩
    rw [if_neg List.not_mem_nil, Table.get?_eq_none_iff, Table.mem_keys_merge,
      ← Table.get?_isSome_iff, ← Table.get?_isSome_iff, hraw, hcalculated]
    simp
  obtain ⟨hend, harrive⟩ := harrivals (Unlent leaf) hfirst
    fun done id rest p q ho hstep hp => hp.step hE hfield hplain hraw ho hstep
  have hmem : leaf ∈ s.graph.order := hE.mem_order_iff_not_circular.mpr ⟨hfield, hordered⟩
  refine ⟨(hlast.turns leaf hordered).1.trans (hend.2.trans (if_pos hmem)), fun done f rest ho => ?_⟩
  obtain ⟨p, w, hp, hunlent⟩ := harrive done f rest ho
  exact ⟨p, w, hp, hunlent.1⟩

/-- **The last part of an id reaches the output, if it is no field.** Take, after any history, a pass
that answers, with such names on, and a computed field with a dotted id whose last part has never been
registered. If the graph has no field under the last part, then it is reported with the value of the
field, and every later field that is in no row reads that value under it; except when a computed field
has written into a row of that name, which was unregistered after the row field was registered. If the
graph has a field there and nothing that is offered binds the name, then null is reported, and it is
read nowhere. And the graph has one, until it is removed, as soon as a field without declared
dependencies mentions the name. -/
theorem leaf_reaches_output (settings : Settings) (ops : List Operation)
    (h : (evaluateAll now offer).run (after (create settings) ops) = (.ok results, t))
    (hon : (after (create settings) ops).settings.aliasLeafNames)
    (hleaf : Lends (after (create settings) ops) offer d leaf)
    (hnever : ∀ op ∈ ops, op.entered? ≠ some leaf) :
    let s := after (create settings) ops
    (leaf ∉ s.graph.nodes.keys →
      ∃ v, results.get? d = some v ∧ results.get? leaf = some v ∧
        ∀ done f rest, s.graph.order = done ++ f :: rest → d ∈ done → RowRef.parse? f = .ok none →
          ∃ p u σ, (arriving now offer f).run s = (.ok p, u) ∧ scopeOf f p.working = .ok σ ∧
            (σ leaf = some v ∨ ∃ g ∈ done, WritesRowOf s leaf g ∧ RemovedSince ops g leaf)) ∧
    (leaf ∈ s.graph.nodes.keys → leaf ∉ s.graph.circular → Clear offer d leaf →
      results.get? leaf = some .null ∧
        ∀ done f rest, s.graph.order = done ++ f :: rest → RowRef.parse? f = .ok none →
          ∃ p u σ, (arriving now offer f).run s = (.ok p, u) ∧ scopeOf f p.working = .ok σ ∧
            σ leaf = none) ∧
    ∀ f text e, isLocalName f →
      (∀ text declared default, .register f text declared default ∈ ops → declared = none) →
        s.graph.expressionAt f = some text → Expr.parse text = .ok e → leaf ∈ e.mentions →
          ¬RemovedSince ops f leaf → leaf ∈ s.graph.nodes.keys := by
  intro s
  have hscope {f : String} (working : Context) (hf : RowRef.parse? f = .ok none) :
      scopeOf f working = .ok working.scope := by
    rw [scopeOf, hf]
    rfl
  refine ⟨fun hfree => ?_, fun hfield hordered hclear => ?_,
    fun f text e hf hextracted hx he hm hr => ?_⟩
  · obtain ⟨v, hv, hname, hreads⟩ := hleaf.lent hon hfree h
    refine ⟨v, hv, hname, fun done f rest ho hd hf => ?_⟩
    obtain ⟨p, u, hp, hread⟩ := hreads done f rest ho hd
    exact ⟨p, u, _, hp, hscope p.working hf, hread⟩
  · obtain ⟨hnull, hreads⟩ := hleaf.unlent hnever hclear hfield hordered h
    refine ⟨hnull, fun done f rest ho hf => ?_⟩
    obtain ⟨p, u, hp, hread⟩ := hreads done f rest ho
    exact ⟨p, u, _, hp, hscope p.working hf, hread⟩
  · obtain ⟨E, hE⟩ := (wired_after (wired_create settings) ops).consistent
    have hdepends := dependsOnMentioned_after settings hf hextracted hx he hm hr
    exact (hE.mirrors.node_iff leaf).mpr (hE.node_of_dependsOn hdepends).2

end Pass

/-! ## Declared and extracted dependencies -/

/-- A field with a dotted id, and one that mentions its last part, with or without declared
dependencies. -/
def mortgage (declared : Option (List String)) : List Operation :=
  [.register "result.limit" (some "income * 4") none .null,
    .register "monthly" (some "limit / 12") declared .null]

theorem eq_null_of_isNull {v? : Option Value} (h : v?.any Value.isNull) : v? = some .null := by
  match v? with
  | some .null => rfl
  | some (.bool _) | some (.int _) | some (.float _) | some (.undefined _) | some (.text _)
  | some (.list _) | some (.mapping _) | none => cases h

/-- Whether the last part of the field is that of no other field. -/
def limitOnce (declared : Option (List String)) : Bool :=
  let g := (after (create {}) (mortgage declared)).graph
  (g.expressionAt "result.limit").isSome && !g.circular.contains "result.limit" &&
    aliases "limit" "result.limit" &&
      g.nodes.keys.all fun f => !aliases "limit" f || f == "result.limit"

theorem lends_limit {declared : Option (List String)} (h : limitOnce declared) :
    Lends (after (create {}) (mortgage declared)) incomeOnly "result.limit" "limit" := by
  simp only [limitOnce, Bool.and_eq_true, Bool.not_eq_true', List.contains_eq_mem,
    decide_eq_false_iff_not] at h
  obtain ⟨⟨⟨hcomputed, hordered⟩, hnamed⟩, honly⟩ := h
  refine ⟨hcomputed, hordered, aliases_iff.mp hnamed, by simp [incomeOnly, Table.keys],
    List.not_mem_nil, fun x hx hmem => ?_⟩
  rcases hmem with hmem | hmem | hmem
  · have hx' := List.all_eq_true.mp honly x hmem
    rw [aliases_iff.mpr hx] at hx'
    exact eq_of_beq hx'
  · obtain rfl : x = "income" := Key.text.inj (List.mem_singleton.mp hmem)
    have hno : aliases "limit" "income" = false := by decide +kernel
    rw [aliases_iff.mpr hx] at hno
    cases hno
  · cases hmem

/-- A reader that declares the field as its dependency reads the name. -/
theorem leaf_reaches_output_declared :
    ∃ results t, (evaluateAll (.int 0) incomeOnly).run
        (after (create {}) (mortgage (some ["result.limit"]))) = (.ok results, t) ∧
      results.get? "result.limit" = some (.int 120) ∧ results.get? "limit" = some (.int 120) := by
  let s := after (create {}) (mortgage (some ["result.limit"]))
  have hok : ((evaluateAll (.int 0) incomeOnly).run s).1.isOk := by decide +kernel
  have hvalue : ((evaluateAll (.int 0) incomeOnly).run s).1.toOption.all fun results =>
      isInt 120 (results.get? "result.limit") := by decide +kernel
  obtain ⟨results, t, hrun⟩ := exists_of_isOk hok
  simp only [hrun, Except.toOption, Option.all_some] at hvalue
  have hlimit := eq_int_of_isInt hvalue
  obtain ⟨hfree, -⟩ := leaf_reaches_output {} (mortgage (some ["result.limit"])) hrun
    (by decide +kernel) (lends_limit (by decide +kernel)) (by decide +kernel)
  obtain ⟨v, hv, hname, -⟩ := hfree (by decide +kernel)
  obtain rfl := Option.some.inj (hv.symm.trans hlimit)
  exact ⟨results, t, hrun, hlimit, hname⟩

/-- The same fields, with the dependencies of the reader extracted: the name is reported as null, and
the reader fails. -/
theorem not_lent :
    (∀ op ∈ mortgage none, op.entered? ≠ some "limit") ∧
    Lends (after (create {}) (mortgage none)) incomeOnly "result.limit" "limit" ∧
    ∃ results t, (evaluateAll (.int 0) incomeOnly).run (after (create {}) (mortgage none)) =
        (.ok results, t) ∧
      results.get? "result.limit" = some (.int 120) ∧ results.get? "limit" = some .null ∧
      t.errors.get? "monthly" = some "Expression evaluation failed: undefined: limit" := by
  let run := (evaluateAll (.int 0) incomeOnly).run (after (create {}) (mortgage none))
  have hok : run.1.isOk := by decide +kernel
  have hvalues : run.1.toOption.all fun results =>
      isInt 120 (results.get? "result.limit") && (results.get? "limit").any Value.isNull := by
    decide +kernel
  have herror : run.2.errors.get? "monthly" =
      some "Expression evaluation failed: undefined: limit" := by decide +kernel
  obtain ⟨results, t, hrun⟩ := exists_of_isOk hok
  simp only [hrun, Except.toOption, Option.all_some, Bool.and_eq_true] at hvalues herror
  refine ⟨by decide +kernel, lends_limit (by decide +kernel), results, t, hrun,
    eq_int_of_isInt hvalues.1, eq_null_of_isNull hvalues.2, herror⟩

end Session

end LiveForm
