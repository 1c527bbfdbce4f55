import LiveForm.Proofs.Session.Reseed
import LiveForm.Proofs.Template

/-! # Templates after a pass

A template sees either the report of the last pass, or a seed made of entered values and of what the
last pass has computed. Many names have the same value in both: those that are entered, those of
computed fields and of plain fields that have a value. The two differ in what only one of them holds,
such as circular fields, computed cells in the rows of an array, and cells and names that stand for
entered values. A text that does not depend on these is rendered to the same from both. -/

namespace LiveForm.Session

open LiveForm.Action

/-! ## Paths that lead to the same -/

section Views

variable (t : Session) (entered seeded : Context)

/-- A name that both the report and a new seed have, and have the same value for: it is not circular,
fields write into no cells of what is entered under it, and values with a dotted id that ends in it
are what is reported under it. -/
structure Steady (k : String) : Prop where
  reported : (t.lastResults.get? k).isSome
  bound : (seeded.get? k).isSome
  acyclic : k ∉ t.graph.circular
  whole : t.graph.expressionAt k = none → ∀ f, ¬WritesRowOf t k f
  computed : t.settings.aliasLeafNames → ∀ d v, t.computed.get? d = some v → alias? d = .ok (some k) →
    t.lastResults.get? k = some v
  dotted : t.settings.aliasLeafNames → k ∉ t.graph.nodes.keys → entered.get? k = none →
    ∀ d v, entered.get? d = some v → alias? d = .ok (some k) → t.lastResults.get? k = some v

/-- An entered list that a new seed has as it is entered, and the report with what fields have written
into cells of its rows. -/
structure Listed (k : String) (rows : List Value) : Prop where
  entered : entered.get? k = some (.list rows)
  acyclic : k ∉ t.graph.circular
  plain : t.graph.expressionAt k = none
  computed : t.settings.aliasLeafNames → ∀ d, (t.computed.get? d).isSome → alias? d ≠ .ok (some k)

/-- A plain input that nothing is bound for: null in the report, and missing in a new seed. -/
structure Vacant (k : String) : Prop where
  field : k ∈ t.graph.nodes.keys
  acyclic : k ∉ t.graph.circular
  plain : t.graph.expressionAt k = none
  whole : ∀ f, ¬WritesRowOf t k f
  unbound : seeded.get? k = none

/-- Whether fields write into a cell of an array. -/
def WritesCell (array : String) (index : Nat) (child : String) : Prop :=
  ∃ f, WritesRowOf t array f ∧ RowRef.parse? f = .ok (some ⟨array, index, child⟩)

/-- A path that starts with a name and is a key of neither the report nor a new seed. -/
structure Starts (path name : String) (way : List String) : Prop where
  report : t.lastResults.get? path = none
  seed : seeded.get? path = none
  split : Template.splitPath path = name :: way

/-- A path that leads to the same in the report and in a new seed. -/
inductive Traceable (path : String) : Prop
  | name (h : Steady t entered seeded path)
  | within {name key : String} {way : List String} (hpath : Starts t seeded path name way)
      (hreport : Template.lookupKey? (.ofContext t.lastResults) name = some key)
      (hseed : Template.lookupKey? (.ofContext seeded) name = some key)
      (h : Steady t entered seeded key)
  | rows {name key : String} {way : List String} {rows : List Value}
      (hpath : Starts t seeded path name way)
      (hreport : Template.lookupKey? (.ofContext t.lastResults) name = some key)
      (hseed : Template.lookupKey? (.ofContext seeded) name = some key)
      (h : Listed t entered key rows) (hway : Template.Past (WritesCell t key) rows way)
  | cell {array index child : String} {i : Nat} {rows : List Value} {cells : List (Key × Value)}
      {v : Value} (hreport : t.lastResults.get? path = none) (hraw : entered.get? path = none)
      (hsplit : Template.splitPath path = [array, index, child])
      (hindex : Template.index? index = .ok (some i)) (h : Listed t entered array rows)
      (hrow : rows[i]? = some (.mapping cells)) (hcell : cells.lookup (.text child) = some v)
      (hfree : ¬WritesCell t array i child) (hid : cellId array i (.text child) = .ok path)
      (halone : ∀ w, CellOf entered path w → w = v)
  | missing {name : String} {way : List String} (hpath : Starts t seeded path name way)
      (hreport : ∀ key, Template.lookupKey? (.ofContext t.lastResults) name = some key →
        Vacant t seeded key)
      (hseed : Template.lookupKey? (.ofContext seeded) name = none) (hlength : name ≠ "length")
  | vacant {name : String} {way : List String} (h : Vacant t seeded path)
      (hsplit : Template.splitPath path = name :: way)
      (hseed : Template.lookupKey? (.ofContext seeded) name = none) (hlength : name ≠ "length")

variable {t entered seeded} {first : Context} {k : String} {v : Value} {rows : List Value}

/-- Of a name that is not computed, what the entered values have bound is reported. -/
theorem Finished.reported_of_first (h : Finished t entered first seeded) (hn : entered.keys.Nodup)
    (hk : Steady t entered seeded k) (hc : t.computed.get? k = none) (hv : first.get? k = some v) :
    t.lastResults.get? k = some v := by
  by_cases hkey : k ∈ t.graph.nodes.keys
  · have hplain : t.graph.expressionAt k = none := by
      refine Option.not_isSome_iff_eq_none.mp fun hx => ?_
      have hsome := h.computes k hx hk.acyclic
      rw [hc] at hsome
      cases hsome
    rw [h.plain k hkey hk.acyclic hplain (hk.whole hplain), hv, Option.getD_some]
  · obtain ⟨cells, hcells, hstart⟩ := h.starts
    rw [hstart] at hv
    cases hr : entered.get? k with
    | some w =>
      rw [hr, Option.some_or, Option.some_or] at hv
      exact h.kept k v hkey hk.acyclic (hr.trans hv)
    | none =>
      have hreported := hk.reported
      have hcell : cells.get? k = none := by
        refine Option.eq_none_iff_forall_ne_some.mpr fun w hw => ?_
        obtain ⟨_, _, _, _, _, _, _, _, hid⟩ := cellOf_of_mem hcells (Table.mem_of_get? hw)
        rw [h.dotted k hkey hk.acyclic hr (dot_mem_of_cellId hid)] at hreported
        cases hreported
      rw [hr, hcell, Option.none_or, Option.none_or] at hv
      obtain ⟨ha, d, hd, hdk⟩ := standing_eq_some hv
      exact hk.dotted ha hkey hr d v (Table.get?_of_mem hn hd) hdk

theorem Finished.get?_of_steady (h : Finished t entered first seeded) (hn : entered.keys.Nodup)
    (hk : Steady t entered seeded k) :
    ∃ v, t.lastResults.get? k = some v ∧ seeded.get? k = some v := by
  obtain ⟨v, hv⟩ := Option.isSome_iff_exists.mp hk.bound
  refine ⟨v, ?_, hv⟩
  rw [h.seeds] at hv
  cases hs : standing t.settings t.computed.entries.reverse k with
  | some w =>
    rw [hs, Option.some_or] at hv
    obtain rfl := Option.some.inj hv
    obtain ⟨ha, d, hd, hdk⟩ := standing_eq_some hs
    exact hk.computed ha d w (Table.get?_of_mem h.nodup (List.mem_reverse.mp hd)) hdk
  | none =>
    rw [hs, Option.none_or] at hv
    cases hc : t.computed.get? k with
    | some w =>
      rw [hc, Option.some_or] at hv
      obtain rfl := Option.some.inj hv
      exact (h.computed k w hc).2
    | none =>
      rw [hc, Option.none_or] at hv
      exact h.reported_of_first hn hk hc hv

/-- A name of no computed field is not bound to a computed value, if none of them takes it. -/
theorem Finished.seeded_eq_first (h : Finished t entered first seeded)
    (hplain : t.graph.expressionAt k = none)
    (hcomputed : t.settings.aliasLeafNames →
      ∀ d, (t.computed.get? d).isSome → alias? d ≠ .ok (some k)) :
    seeded.get? k = first.get? k := by
  have hc : t.computed.get? k = none := by
    refine Option.eq_none_iff_forall_ne_some.mpr fun w hw => ?_
    have hsome := (h.computed k w hw).1
    rw [hplain] at hsome
    cases hsome
  have hs : standing t.settings t.computed.entries.reverse k = none := by
    refine Option.eq_none_iff_forall_ne_some.mpr fun w hw => ?_
    obtain ⟨ha, d, hd, hdk⟩ := standing_eq_some hw
    have hget := Table.get?_of_mem h.nodup (List.mem_reverse.mp hd)
    exact hcomputed ha d (by rw [hget]; rfl) hdk
  rw [h.seeds, hs, hc, Option.none_or, Option.none_or]

theorem Finished.get?_of_listed (h : Finished t entered first seeded)
    (hk : Listed t entered k rows) : seeded.get? k = some (.list rows) ∧
      ∃ rows', t.lastResults.get? k = some (.list rows') ∧
        RowsRewritten k (WritesRowOf t k) t.lastResults.get? rows rows' := by
  refine ⟨?_, ?_⟩
  · obtain ⟨cells, -, hstart⟩ := h.starts
    rw [h.seeded_eq_first hk.plain hk.computed, hstart, hk.entered]
    rfl
  · obtain ⟨w, hw, hrewritten⟩ := h.rows k _ hk.acyclic hk.plain hk.entered
    obtain rfl | ⟨_, rows', hlist, rfl, -, hrows⟩ := hrewritten
    · exact ⟨rows, hw, .refl⟩
    · obtain rfl := Value.list.inj hlist
      exact ⟨rows', hw, hrows⟩

theorem Finished.get?_of_vacant (h : Finished t entered first seeded) (hk : Vacant t seeded k) :
    t.lastResults.get? k = some .null := by
  have hnone : first.get? k = none := by
    have hseeds := h.seeds k
    rw [hk.unbound] at hseeds
    exact (Option.or_eq_none_iff.mp (Option.or_eq_none_iff.mp hseeds.symm).2).2
  rw [h.plain k hk.field hk.acyclic hk.plain hk.whole, hnone, Option.getD_none]

/-- No name stands for anything under an id with a dot. -/
theorem standing_eq_none_of_dot {settings : Settings} {es : List (String × Value)}
    (hdot : '.' ∈ k.toList) : standing settings es k = none := by
  refine Option.eq_none_iff_forall_ne_some.mpr fun w hw => ?_
  obtain ⟨-, d, -, hdk⟩ := standing_eq_some hw
  exact dot_not_mem_of_alias? hdk hdot

/-- A new seed has the cells of entered rows under their ids, where nothing else is. -/
theorem Finished.get?_of_cell (h : Finished t entered first seeded)
    (hreport : t.lastResults.get? k = none) (hraw : entered.get? k = none) (hdot : '.' ∈ k.toList)
    (hcell : CellOf entered k v) (halone : ∀ w, CellOf entered k w → w = v) :
    seeded.get? k = some v := by
  have hc : t.computed.get? k = none := by
    refine Option.eq_none_iff_forall_ne_some.mpr fun w hw => ?_
    rw [(h.computed k w hw).2] at hreport
    cases hreport
  obtain ⟨cells, hcells, hstart⟩ := h.starts
  obtain ⟨w, hw⟩ := Option.isSome_iff_exists.mp (get?_isSome_of_cellOf hcells hcell)
  obtain rfl := halone w (cellOf_of_mem hcells (Table.mem_of_get? hw))
  rw [h.seeds, standing_eq_none_of_dot hdot, hc, hstart, hraw, hw]
  rfl

/-- Such a path stands for the same value in both. -/
theorem Finished.valueAt_eq (h : Finished t entered first seeded) (hn : entered.keys.Nodup)
    {path : String} (hpath : Traceable t entered seeded path) :
    Template.valueAt (.ofContext seeded) path = Template.valueAt (.ofContext t.lastResults) path := by
  have hof (c : Context) (x : String) := Mapping.get?_ofContext c x
  cases hpath with
  | name hk =>
    obtain ⟨v, hv, hv'⟩ := h.get?_of_steady hn hk
    rw [Template.valueAt_of_get? ((hof _ _).trans hv), Template.valueAt_of_get? ((hof _ _).trans hv')]
  | within hpath hreport hseed hk =>
    obtain ⟨v, hv, hv'⟩ := h.get?_of_steady hn hk
    rw [Template.valueAt_of_lookupKey? ((hof _ _).trans hpath.report) hpath.split hreport
        ((hof _ _).trans hv),
      Template.valueAt_of_lookupKey? ((hof _ _).trans hpath.seed) hpath.split hseed
        ((hof _ _).trans hv')]
  | rows hpath hreport hseed hk hway =>
    obtain ⟨hv', rows', hv, hrows⟩ := h.get?_of_listed hk
    rw [Template.valueAt_of_lookupKey? ((hof _ _).trans hpath.report) hpath.split hreport
        ((hof _ _).trans hv),
      Template.valueAt_of_lookupKey? ((hof _ _).trans hpath.seed) hpath.split hseed
        ((hof _ _).trans hv'), hway.walk_eq hrows]
  | @cell array index child i rows cells v hreport hraw hsplit hindex hk hrow hcell hfree hid halone =>
    obtain ⟨-, rows', hv, hrows⟩ := h.get?_of_listed hk
    have hway : Template.Past (WritesCell t array) rows [index, child] :=
      .cell [] hindex hrow hcell hfree
    have hcellOf : CellOf entered path v :=
      ⟨array, rows, i, cells, .text child, Table.mem_of_get? hk.entered, hrow,
        mem_of_lookup_text hcell, hid⟩
    have hseeded := h.get?_of_cell hreport hraw (dot_mem_of_cellId hid) hcellOf halone
    rw [Template.valueAt_of_head ((hof _ _).trans hreport) hsplit ((hof _ _).trans hv),
      hway.walk_eq hrows, Template.walk_cell hindex hrow hcell,
      Template.valueAt_of_get? ((hof _ _).trans hseeded)]
    rfl
  | missing hpath hreport hseed hlength =>
    rw [Template.valueAt_of_missing ((hof _ _).trans hpath.seed) hpath.split hseed hlength]
    cases hkey : Template.lookupKey? (.ofContext t.lastResults) _ with
    | none =>
      rw [Template.valueAt_of_missing ((hof _ _).trans hpath.report) hpath.split hkey hlength]
    | some key =>
      have hv := h.get?_of_vacant (hreport key hkey)
      rw [Template.valueAt_of_lookupKey? ((hof _ _).trans hpath.report) hpath.split hkey
        ((hof _ _).trans hv), Template.walk_null]
  | vacant hk hsplit hseed hlength =>
    rw [Template.valueAt_of_get? ((hof _ _).trans (h.get?_of_vacant hk)),
      Template.valueAt_of_missing ((hof _ _).trans hk.unbound) hsplit hseed hlength]

/-- An entered list that starts with a mapping has the same shape in both. -/
theorem Finished.agrees_of_listed (h : Finished t entered first seeded) {path : String}
    {cells : List (Key × Value)} (hk : Listed t entered path (.mapping cells :: rows)) :
    Related Template.SameShape (Template.valueAt (.ofContext seeded) path)
      (Template.valueAt (.ofContext t.lastResults) path) := by
  obtain ⟨hv', rows', hv, hrows⟩ := h.get?_of_listed hk
  rw [Template.valueAt_of_get? ((Mapping.get?_ofContext _ _).trans hv),
    Template.valueAt_of_get? ((Mapping.get?_ofContext _ _).trans hv')]
  exact Template.sameShape_of_rowsRewritten hrows

end Views

/-- One item with a computed total, and a total over all items. -/
def totalledItems : List Operation :=
  [.register "items[0].lineTotal" (some "price * 2") none .null,
    .register "total" (some "sumLineTotal(items)") none .null]

def teaItem : List (Key × Value) := [(.text "name", .text "Tea"), (.text "price", .int 5)]

def teaOrder : Context := ⟨[("items", .list [.mapping teaItem])]⟩

def teaPass : Except Abort Context × Session :=
  (evaluateAll (.int 0) { raw := .ofContext teaOrder }).run (after (create {}) totalledItems)

def teaSeed (t : Session) : Mapping :=
  match t.templateValues (some (.ofContext teaOrder)) none .empty with
  | .ok m => m
  | .error _ => .empty

theorem eq_tea_of_cellOf {w : Value} (h : CellOf teaOrder "items[0].name" w) : w = .text "Tea" := by
  obtain ⟨array, rows, i, cells, key, harray, hrow, hkey, hw⟩ := h
  obtain ⟨rfl, hrows⟩ := Prod.mk.inj (List.mem_singleton.mp harray)
  obtain rfl := Value.list.inj hrows
  obtain ⟨hi, hcells⟩ := List.getElem?_eq_some_iff.mp hrow
  obtain rfl : i = 0 := by simpa using hi
  obtain rfl := Value.mapping.inj hcells
  simp only [teaItem, List.mem_cons, Prod.mk.injEq, List.not_mem_nil, or_false] at hkey
  obtain ⟨-, rfl⟩ | ⟨rfl, -⟩ := hkey
  · rfl
  · have hne : (cellId "items" 0 (.text "price")).toOption ≠ some "items[0].name" := by
      decide +kernel
    exact absurd (by rw [hw]; rfl) hne

/-- The list itself, and the paths to its length, to an entered cell of it, and to a computed total
under another spelling. -/
theorem traceable_tea {results seeded : Context} {t : Session} (hrun : teaPass = (.ok results, t))
    (hseeded : t.templateValues (some (.ofContext teaOrder)) none .empty = .ok (.ofContext seeded)) :
    Listed t teaOrder "items" [.mapping teaItem] ∧
      ∀ path ∈ ["items.length", "items[0].name", "Total"], Traceable t teaOrder seeded path := by
  have hseed : teaSeed t = .ofContext seeded := by rw [teaSeed, hseeded]
  have hgraph : teaPass.2.graph.circular = [] ∧ teaPass.2.graph.expressionAt "items" = none ∧
      (teaPass.2.graph.expressionAt "total").isSome ∧
      (∀ f ∈ teaPass.2.graph.nodes.keys,
        (RowRef.parse? f).toOption ≠ some (some ⟨"items", 0, "name"⟩)) ∧
      ∀ d ∈ teaPass.2.computed.keys, aliases "items" d = false ∧ aliases "total" d = false := by
    decide +kernel
  have hreport : (∀ path ∈ ["items.length", "items[0].name", "Total"],
        teaPass.2.lastResults.contains path = false) ∧
      teaPass.2.lastResults.contains "total" ∧
      Template.lookupKey? (.ofContext teaPass.2.lastResults) "items" = some "items" ∧
      Template.lookupKey? (.ofContext teaPass.2.lastResults) "Total" = some "total" := by
    decide +kernel
  have hanew : (∀ path ∈ ["items.length", "Total"],
        (teaSeed teaPass.2).contains (.text path) = false) ∧
      (teaSeed teaPass.2).contains (.text "total") ∧
      Template.lookupKey? (teaSeed teaPass.2) "items" = some "items" ∧
      Template.lookupKey? (teaSeed teaPass.2) "Total" = some "total" := by
    decide +kernel
  rw [hrun] at hgraph hreport hanew
  dsimp only at hgraph hreport hanew
  rw [hseed] at hanew
  obtain ⟨hcircular, hitems, htotal, hname, hids⟩ := hgraph
  obtain ⟨hunreported, hreported, hreport⟩ := hreport
  obtain ⟨hunbound, hbound, hanew⟩ := hanew
  have hmissing {κ : Type} [BEq κ] {m : Table κ Value} {k : κ} (h : m.contains k = false) :
      m.get? k = none := Option.not_isSome_iff_eq_none.mp ((Bool.not_eq_true _).mpr h)
  have hof (x : String) := Mapping.get?_ofContext seeded x
  have hacyclic (x : String) : x ∉ t.graph.circular := by
    rw [hcircular]
    exact List.not_mem_nil
  have hstarts {path name : String} {way : List String} (h : path ∈ ["items.length", "Total"])
      (hsplit : Template.splitPath path = name :: way) : Starts t seeded path name way :=
    ⟨hmissing (hunreported path (List.Sublist.mem h (by simp))),
      (hof path).symm.trans (hmissing (hunbound path h)), hsplit⟩
  have halias {d : String} (hd : (t.computed.get? d).isSome) :
      alias? d ≠ .ok (some "items") ∧ alias? d ≠ .ok (some "total") := by
    simp only [ne_eq, ← aliases_iff, Bool.not_eq_true]
    exact hids d (Table.get?_isSome_iff.mp hd)
  have hlisted : Listed t teaOrder "items" [.mapping teaItem] :=
    ⟨rfl, hacyclic _, hitems, fun _ d hd => (halias hd).1⟩
  refine ⟨hlisted, fun path hpath => ?_⟩
  simp only [List.mem_cons, List.not_mem_nil, or_false] at hpath
  obtain rfl | rfl | rfl := hpath
  · have hsplit : Template.splitPath "items.length" = ["items", "length"] := by decide +kernel
    exact .rows (hstarts (by simp) hsplit) hreport.1 hanew.1 hlisted (.length [])
  · have hraw : teaOrder.contains "items[0].name" = false := by decide +kernel
    have hsplit : Template.splitPath "items[0].name" = ["items", "0", "name"] := by decide +kernel
    have hindex : Template.index? "0" = .ok (some 0) := by rfl
    have hid : cellId "items" 0 (.text "name") = .ok "items[0].name" :=
      congrArg Except.ok (by decide +kernel)
    refine .cell (hmissing (hunreported _ (by simp))) (hmissing hraw) hsplit hindex hlisted rfl rfl ?_
      hid fun w hw => eq_tea_of_cellOf hw
    rintro ⟨f, ⟨hx, -⟩, hf⟩
    exact hname f (Graph.mem_keys_of_expressionAt hx) (by rw [hf]; rfl)
  · have hsplit : Template.splitPath "Total" = ["Total"] := by decide +kernel
    have hsteady : Steady t teaOrder seeded "total" := by
      refine ⟨hreported, (congrArg Option.isSome (hof "total")).symm.trans hbound, hacyclic _,
        fun hplain => ?_, fun _ d v hd hk => ?_, fun _ hno => ?_⟩
      · rw [hplain] at htotal
        cases htotal
      · exact absurd hk (halias (by rw [hd]; rfl)).2
      · exact absurd (Graph.mem_keys_of_expressionAt htotal) hno
    exact .within (hstarts (by simp) hsplit) hreport.2 hanew.2 hsteady

/-- The list by itself and its length, an entered cell of it, and a computed total under another
spelling. -/
def itemSummary : String :=
  "\x7b\x7bitems\x7d\x7d of \x7b\x7bitems.length\x7d\x7d: " ++
    "\x7b\x7bitems[0].name\x7d\x7d, \x7b\x7bTotal\x7d\x7d"

/-- After a pass over entered values, a text is rendered from them to something else than from the
report. -/
def Contradicts (ops : List Operation) (entered : Context) (text : String) : Prop :=
  ∃ results t a b, (evaluateAll (.int 0) { raw := .ofContext entered }).run (after (create {}) ops) =
      (.ok results, t) ∧
    t.processTemplate text (some (.ofContext entered)) none .empty = .ok a ∧
    t.processTemplate text none none .empty = .ok b ∧ a ≠ b

/-- What the text is rendered to, from the entered values and from the report. -/
def renderings (ops : List Operation) (entered : Context) (text : String) :
    Option (String × String) :=
  match (evaluateAll (.int 0) { raw := .ofContext entered }).run (after (create {}) ops) with
  | (.ok _, t) =>
    match t.processTemplate text (some (.ofContext entered)) none .empty,
      t.processTemplate text none none .empty with
    | .ok a, .ok b => some (a, b)
    | _, _ => none
  | _ => none

theorem contradicts_of_renderings {ops : List Operation} {entered : Context} {text a b : String}
    (h : renderings ops entered text = some (a, b)) (hne : a ≠ b) : Contradicts ops entered text := by
  unfold renderings at h
  split at h
  · rename_i results t hrun
    split at h
    · rename_i c d hc hd
      obtain ⟨rfl, rfl⟩ := Prod.mk.inj (Option.some.inj h)
      exact ⟨results, t, c, d, hrun, hc, hd, hne⟩
    · cases h
  · cases h

end LiveForm.Session
