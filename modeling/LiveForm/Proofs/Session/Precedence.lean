import LiveForm.Proofs.Row.Ids
import LiveForm.Proofs.Session.Seed

/-! # Which source a name takes its value from

A name can be bound at the start of a pass by a computed value, an entered value, the cell of an entered
row and metadata, in this order as documented, and the last part of a dotted id is bound to its value
when nothing else is. A pass starts with just that wherever the sources do not contest a name in two ways:
metadata that is named like a cell stands before the cell, and a computed value with a dotted id takes the
last part of it from whatever else is bound there. -/

namespace LiveForm.Session

variable {settings : Settings} {layers : Layers} {cells working : Context} {id x : String} {v : Value}

/-! ## When there is a start -/

/-- Everything that a pass has to read before it starts can be read: the keys of cells, which become
parts of ids, and the dotted ids that names may stand for. -/
structure Legible (settings : Settings) (layers : Layers) : Prop where
  cells : ∀ array rows, (array, .list rows) ∈ layers.raw.entries →
    ∀ cells, .mapping cells ∈ rows → ∀ e ∈ cells, e.1.isWritable
  ids : settings.aliasLeafNames → ∀ e, e ∈ layers.raw.entries ∨ e ∈ layers.calculated.entries →
    Text.hasChar '.' e.1 → ∃ row?, RowRef.parse? e.1 = .ok row?

theorem exists_alias?_iff : (∃ leaf?, alias? id = .ok leaf?) ↔
    (Text.hasChar '.' id → ∃ row?, RowRef.parse? id = .ok row?) := by
  unfold alias? leafName? isRowId
  cases Text.hasChar '.' id with
  | false => exact ⟨fun _ h => (by cases h), fun _ => ⟨none, rfl⟩⟩
  | true =>
    rw [if_pos rfl]
    dsimp only
    cases RowRef.parse? id with
    | error cause => exact ⟨fun ⟨_, h⟩ => (by cases h), fun h => (by obtain ⟨_, h⟩ := h rfl; cases h)⟩
    | ok row? => exact ⟨fun _ _ => ⟨row?, rfl⟩, fun _ => ⟨_, rfl⟩⟩

/-- Values can be bound under the last parts of their ids if the ids can be read, in whichever way they
are bound. -/
theorem exists_aliases_iff {bind : Context → String → Value → Context} {es : List (String × Value)} :
    (∃ w, es.foldlM (fun w (id, v) => do
      match ← alias? id with
      | some leaf => return bind w leaf v
      | none => return w) working = .ok w) ↔
    ∀ e ∈ es, Text.hasChar '.' e.1 → ∃ row?, RowRef.parse? e.1 = .ok row? := by
  refine exists_foldlM_iff fun w (id, v) => ?_
  rw [← exists_alias?_iff]
  dsimp only
  cases alias? id with
  | error cause => exact ⟨fun ⟨_, h⟩ => (by cases h), fun ⟨_, h⟩ => (by cases h)⟩
  | ok leaf? => cases leaf? <;> exact ⟨fun _ => ⟨_, rfl⟩, fun _ => ⟨_, rfl⟩⟩

theorem exists_seed_iff : (∃ working, seed settings layers = .ok working) ↔
    Legible settings layers := by
  constructor
  · rintro ⟨working, h⟩
    obtain ⟨cells, hcells, h⟩ := bind_eq_ok h
    refine ⟨exists_flattenRows_iff.mp ⟨cells, hcells⟩, fun ha e he => ?_⟩
    dsimp only at h
    rw [if_pos ha] at h
    obtain ⟨named, hnamed, h⟩ := bind_eq_ok h
    exact he.elim (exists_aliases_iff.mp ⟨named, hnamed⟩ e) (exists_aliases_iff.mp ⟨working, h⟩ e)
  · intro h
    obtain ⟨cells, hcells⟩ := exists_flattenRows_iff.mpr h.cells
    unfold seed
    rw [hcells]
    by_cases ha : settings.aliasLeafNames
    · obtain ⟨named, hnamed⟩ : ∃ w, aliasRaw layers.raw _ = .ok w :=
        exists_aliases_iff.mpr fun e he => h.ids ha e (.inl he)
      obtain ⟨working, hworking⟩ : ∃ w, aliasCalculated layers.calculated named = .ok w :=
        exists_aliases_iff.mpr fun e he => h.ids ha e (.inr he)
      refine ⟨working, ?_⟩
      dsimp only [bind, Except.bind]
      rw [if_pos ha, hnamed]
      exact hworking
    · dsimp only [bind, Except.bind]
      rw [if_neg ha]
      exact ⟨_, rfl⟩

/-! ## What a name is bound to -/

/-- A dotted id, not of a row, with this last part. -/
def EndsIn (id x : String) : Prop := leafName? id = some x ∧ RowRef.parse? id = .ok none

theorem alias?_iff : alias? id = .ok (some x) ↔ EndsIn id x := by
  refine ⟨fun h => ?_, fun ⟨hleaf, hrow⟩ => ?_⟩
  · obtain ⟨hleaf, hrow⟩ := alias?_eq_some h
    refine ⟨hleaf, ?_⟩
    unfold isRowId at hrow
    cases hparse : RowRef.parse? id with
    | error cause =>
      rw [hparse] at hrow
      cases hrow
    | ok row? =>
      rw [hparse] at hrow
      cases row? with
      | none => rfl
      | some r => cases hrow
  · unfold alias? isRowId
    rw [hleaf, hrow]
    rfl

/-- What is documented to be bound to a name of its own, from the strongest source to the weakest. -/
def direct (layers : Layers) (cells : Context) (x : String) : Option Value :=
  (layers.calculated.get? x).or
    ((layers.raw.get? x).or ((cells.get? x).or (layers.metadata.get? x)))

/-- A value with a dotted id that ends in the name. -/
def CanStand (layers : Layers) (x : String) (v : Value) : Prop :=
  ∃ id, ((id, v) ∈ layers.raw.entries ∨ (id, v) ∈ layers.calculated.entries) ∧ EndsIn id x

/-- What is documented to be bound to a name: its own value, or without one a value with a dotted id
that ends in it. -/
structure Documented (settings : Settings) (layers : Layers) (cells : Context) (x : String)
    (bound : Option Value) : Prop where
  own : ∀ v, direct layers cells x = some v → bound = some v
  leaf : direct layers cells x = none → settings.aliasLeafNames → (∃ v, CanStand layers x v) →
    ∃ v, CanStand layers x v ∧ bound = some v
  unbound : direct layers cells x = none →
    (settings.aliasLeafNames → ¬∃ v, CanStand layers x v) → bound = none

/-- No weaker source takes the name: computed values with dotted ids that end in it, and metadata that
is named like a cell. -/
structure Uncontested (settings : Settings) (layers : Layers) (cells : Context) (x : String) :
    Prop where
  leaf : ∀ a v, standing settings layers.calculated.entries.reverse x = some a →
    direct layers cells x = some v → a = v
  cell : standing settings layers.calculated.entries.reverse x = none →
    layers.calculated.get? x = none → layers.raw.get? x = none →
      ∀ m v, layers.metadata.get? x = some m → cells.get? x = some v → m = v

theorem direct_eq_none : direct layers cells x = none ↔
    layers.calculated.get? x = none ∧ layers.raw.get? x = none ∧ cells.get? x = none ∧
      layers.metadata.get? x = none := by
  simp only [direct, Option.or_eq_none_iff]

theorem canStand_of_standing (h : standing settings layers.calculated.entries.reverse x = some v ∨
    standing settings layers.raw.entries x = some v) :
    settings.aliasLeafNames ∧ CanStand layers x v := by
  rcases h with h | h
  · obtain ⟨ha, id, hid, halias⟩ := standing_eq_some h
    exact ⟨ha, id, .inr (List.mem_reverse.mp hid), alias?_iff.mp halias⟩
  · obtain ⟨ha, id, hid, halias⟩ := standing_eq_some h
    exact ⟨ha, id, .inl hid, alias?_iff.mp halias⟩

theorem not_canStand (hcalculated : standing settings layers.calculated.entries.reverse x = none)
    (hraw : standing settings layers.raw.entries x = none) (ha : settings.aliasLeafNames) :
    ¬CanStand layers x v := by
  rintro ⟨id, hid, hends⟩
  have halias := aliases_iff.mpr (alias?_iff.mpr hends)
  simp only [standing, ha, if_true, Option.map_eq_none_iff, List.find?_eq_none] at hcalculated hraw
  exact hid.elim (fun hid => hraw _ hid halias)
    fun hid => hcalculated _ (List.mem_reverse.mpr hid) halias

/-- What a name is bound to, from the strongest source to the weakest. -/
def seeded (settings : Settings) (layers : Layers) (cells : Context) (x : String) : Option Value :=
  (standing settings layers.calculated.entries.reverse x).or
    (((layers.calculated.get? x).or
      (((layers.raw.get? x).or (layers.metadata.get? x)).or (cells.get? x))).or
        (standing settings layers.raw.entries x))

theorem own_of_uncontested (h : Uncontested settings layers cells x)
    (hv : direct layers cells x = some v) : seeded settings layers cells x = some v := by
  unfold seeded
  cases hleaf : standing settings layers.calculated.entries.reverse x with
  | some a => rw [Option.some_or, h.leaf a v hleaf hv]
  | none =>
    have hcell := h.cell hleaf
    unfold direct at hv
    cases hc : layers.calculated.get? x with
    | some w => simpa [hc] using hv
    | none =>
      cases hr : layers.raw.get? x with
      | some w => simpa [hc, hr] using hv
      | none =>
        cases hm : layers.metadata.get? x with
        | none =>
          rw [hc, hr, hm, Option.none_or, Option.none_or, Option.or_none] at hv
          rw [hv]
          rfl
        | some m =>
          cases hx : cells.get? x with
          | none => simpa [hc, hr, hm, hx] using hv
          | some w =>
            obtain rfl := hcell hc hr m w hm hx
            simpa [hc, hr, hm, hx] using hv

theorem seeded_of_direct_eq_none (h : direct layers cells x = none) : seeded settings layers cells x =
    (standing settings layers.calculated.entries.reverse x).or
      (standing settings layers.raw.entries x) := by
  obtain ⟨hc, hr, hx, hm⟩ := direct_eq_none.mp h
  simp only [seeded, hc, hr, hx, hm, Option.none_or]

/-- A pass starts with what is documented under a name exactly if no weaker source takes it. -/
theorem documented_iff : Documented settings layers cells x (seeded settings layers cells x) ↔
    Uncontested settings layers cells x := by
  constructor
  · intro h
    refine ⟨fun a v ha hv => ?_, fun hleaf hc hr m v hm hv => ?_⟩
    · have hbound := h.own v hv
      rw [seeded, ha, Option.some_or] at hbound
      exact Option.some.inj hbound
    · have hbound := h.own v (by simp [direct, hc, hr, hv])
      simpa [seeded, hleaf, hc, hr, hm] using hbound
  · intro h
    refine ⟨fun v => own_of_uncontested h, fun hnone ha ⟨v, hv⟩ => ?_, fun hnone hno => ?_⟩
    · rw [seeded_of_direct_eq_none hnone]
      cases hcalculated : standing settings layers.calculated.entries.reverse x with
      | some w => exact ⟨w, (canStand_of_standing (.inl hcalculated)).2, rfl⟩
      | none =>
        cases hraw : standing settings layers.raw.entries x with
        | some w => exact ⟨w, (canStand_of_standing (.inr hraw)).2, rfl⟩
        | none => exact absurd hv (not_canStand hcalculated hraw ha)
    · rw [seeded_of_direct_eq_none hnone, Option.or_eq_none_iff]
      refine ⟨Option.eq_none_iff_forall_ne_some.mpr fun w hw => ?_,
        Option.eq_none_iff_forall_ne_some.mpr fun w hw => ?_⟩
      · obtain ⟨ha, hw⟩ := canStand_of_standing (.inl hw)
        exact hno ha ⟨w, hw⟩
      · obtain ⟨ha, hw⟩ := canStand_of_standing (.inr hw)
        exact hno ha ⟨w, hw⟩

/-- **The sources of names.** A pass has a start if what it has to read can be read. Every name is then
bound by the strongest source that has it, and that is the documented one exactly where neither metadata
named like a cell nor a computed value with a dotted id takes the name. -/
theorem seed_precedence (settings : Settings) (layers : Layers) (hraw : layers.raw.keys.Nodup)
    (hcalculated : layers.calculated.keys.Nodup) :
    ((∃ working, seed settings layers = .ok working) ↔ Legible settings layers) ∧
    ∀ working, seed settings layers = .ok working →
      ∃ cells, flattenRows layers.raw = .ok cells ∧ ∀ x,
        working.get? x = seeded settings layers cells x ∧
        (Documented settings layers cells x (working.get? x) ↔
          Uncontested settings layers cells x) := by
  refine ⟨exists_seed_iff, fun working h => ?_⟩
  obtain ⟨cells, hcells, hseed⟩ := get?_seed hraw hcalculated h
  refine ⟨cells, hcells, fun x => ⟨hseed x, ?_⟩⟩
  rw [hseed x]
  exact documented_iff

/-- An amount and a dotted rate, a list of one item, and metadata named like the amount. -/
def pricedOrder : Layers where
  raw := ⟨[("net", .int 100), ("order.rate", .int 7),
    ("items", .list [.mapping [(.text "price", .int 2)]])]⟩
  calculated := ⟨[("total", .int 5)]⟩
  metadata := ⟨[("net", .int 1)]⟩

theorem legible_pricedOrder : Legible {} pricedOrder := by
  refine ⟨fun array rows h => ?_, fun _ e he hdot => ?_⟩
  · obtain ⟨-, rfl⟩ : array = "items" ∧ rows = [.mapping [(.text "price", .int 2)]] := by
      simpa [pricedOrder] using h
    intro cells hcells e he
    obtain rfl := Value.mapping.inj (List.mem_singleton.mp hcells)
    obtain rfl := List.mem_singleton.mp he
    rfl
  · have hid : e.1 = "order.rate" := by
      simp only [pricedOrder, List.mem_cons, List.not_mem_nil, or_false] at he
      rcases he with (rfl | rfl | rfl) | rfl
      · exact absurd hdot (by decide)
      · rfl
      · exact absurd hdot (by decide)
      · exact absurd hdot (by decide)
    exact ⟨none, by rw [hid]; rfl⟩

theorem seed_precedence_rate :
    pricedOrder.raw.keys.Nodup ∧ pricedOrder.calculated.keys.Nodup ∧
      ∃ working cells, seed {} pricedOrder = .ok working ∧ flattenRows pricedOrder.raw = .ok cells ∧
        Documented {} pricedOrder cells "net" (working.get? "net") ∧
        working.get? "items[0].price" = some (.int 2) ∧ working.get? "rate" = some (.int 7) := by
  have hraw : pricedOrder.raw.keys.Nodup := by decide
  have hcalculated : pricedOrder.calculated.keys.Nodup := by decide
  obtain ⟨hexists, hsources⟩ := seed_precedence {} pricedOrder hraw hcalculated
  obtain ⟨working, hworking⟩ := hexists.mpr legible_pricedOrder
  obtain ⟨cells, hcells, hnames⟩ := hsources working hworking
  obtain rfl : (⟨[("items[0].price", .int 2)]⟩ : Context) = cells := Except.ok.inj hcells
  refine ⟨hraw, hcalculated, working, _, hworking, hcells, (hnames "net").2.mpr ?_,
    (hnames "items[0].price").1.trans rfl, (hnames "rate").1.trans rfl⟩
  exact ⟨fun a v ha => (by cases ha), fun _ _ hnet => (by cases hnet)⟩

/-- Metadata named like a cell stands before the cell, and a computed value with a dotted id before the
entered value of the name. -/
theorem not_documented :
    let stored : Layers := {
      raw := ⟨[("products", .list [.mapping [(.text "quantity", .int 1)]])]⟩
      metadata := ⟨[("products[0].quantity", .int 2)]⟩ }
    let limit : Layers := {
      raw := ⟨[("maxMortgage", .int 3)]⟩
      calculated := ⟨[("resultColumn.maxMortgage", .int 1)]⟩ }
    (∃ cells working, flattenRows stored.raw = .ok cells ∧ seed {} stored = .ok working ∧
      ¬Documented {} stored cells "products[0].quantity" (working.get? "products[0].quantity")) ∧
    ∃ cells working, flattenRows limit.raw = .ok cells ∧ seed {} limit = .ok working ∧
      ¬Documented {} limit cells "maxMortgage" (working.get? "maxMortgage") := by
  refine ⟨⟨_, _, rfl, rfl, fun h => ?_⟩, ⟨_, _, rfl, rfl, fun h => ?_⟩⟩
  · have hbound := h.own (.int 1) rfl
    cases hbound
  · have hbound := h.own (.int 3) rfl
    cases hbound

end LiveForm.Session
