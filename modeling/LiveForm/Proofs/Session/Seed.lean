import LiveForm.Proofs.Mapping
import LiveForm.Proofs.Row
import LiveForm.Session
import Mathlib.Data.List.TakeWhile

/-! # What a pass starts with under a local name

Cells of rows have brackets in their ids, so they never meet a local name. What a local name is bound
to at the start depends on what the layers hold under it and on the aliases: an entered value with a
dotted id is bound under the last part of the id, where nothing else is, and of several such values
the first. -/

namespace LiveForm

theorem Layers.eq_of_named {m : Mapping} {c : Context} (h : named m = .ok c) :
    m = Mapping.ofContext c := by
  unfold named at h
  split at h
  · rename_i d hd
    obtain rfl := Except.ok.inj h
    exact Mapping.eq_ofContext hd
  · cases h

/-! ## Cells -/

section Cells

variable {array id : String} {index : Nat} {v : Value}

theorem bracket_mem_of_cellId {child : Key} (h : cellId array index child = .ok id) :
    '[' ∈ id.toList := by
  unfold cellId at h
  split at h
  · obtain rfl := Except.ok.inj h
    simp
  · cases h

/-- The id of a cell has a dot in it as well. -/
theorem dot_mem_of_cellId {child : Key} (h : cellId array index child = .ok id) : '.' ∈ id.toList := by
  unfold cellId at h
  split at h
  · obtain rfl := Except.ok.inj h
    simp
  · cases h

theorem mem_rowCells {es : List (String × Value)} (h : rowCells array index v = .ok es)
    {e : String × Value} : e ∈ es ↔
      ∃ cells key, v = .mapping cells ∧ (key, e.2) ∈ cells ∧ cellId array index key = .ok e.1 := by
  unfold rowCells at h
  split at h
  · rename_i entries
    constructor
    · intro he
      obtain ⟨⟨key, w⟩, hmem, hcell⟩ := exists_of_mem_mapM h he
      obtain ⟨id, hid, hcell⟩ := bind_eq_ok hcell
      obtain rfl := Except.ok.inj hcell
      exact ⟨entries, key, rfl, hmem, hid⟩
    · rintro ⟨cells, key, hv, hmem, hid⟩
      obtain rfl := Value.mapping.inj hv
      obtain ⟨b, hb, hcell⟩ := mem_mapM_of_mem h hmem
      dsimp only at hcell
      rw [hid] at hcell
      obtain rfl := Except.ok.inj hcell
      exact hb
  · rename_i hne
    obtain rfl := Except.ok.inj h
    refine ⟨fun he => (by cases he), ?_⟩
    rintro ⟨cells, key, rfl, -⟩
    exact absurd rfl (hne cells)

theorem mem_listCells {es : List (String × Value)} (h : listCells array v = .ok es)
    {e : String × Value} : e ∈ es ↔
      ∃ rows i cells key, v = .list rows ∧ rows[i]? = some (.mapping cells) ∧ (key, e.2) ∈ cells ∧
        cellId array i key = .ok e.1 := by
  unfold listCells at h
  split at h
  · rename_i rows
    obtain ⟨ess, hess, h⟩ := bind_eq_ok h
    obtain rfl := Except.ok.inj h
    constructor
    · intro he
      obtain ⟨es, hes, he⟩ := List.mem_flatten.mp he
      obtain ⟨⟨row, i⟩, hmem, hcells⟩ := exists_of_mem_mapM hess hes
      obtain ⟨cells, key, rfl, hkey⟩ := (mem_rowCells hcells).mp he
      exact ⟨rows, i, cells, key, rfl, List.mem_zipIdx_iff_getElem?.mp hmem, hkey⟩
    · rintro ⟨rows', i, cells, key, hv, hrow, hkey⟩
      obtain rfl := Value.list.inj hv
      obtain ⟨es, hes, hcells⟩ :=
        mem_mapM_of_mem hess (a := (.mapping cells, i)) (List.mem_zipIdx_iff_getElem?.mpr hrow)
      exact List.mem_flatten.mpr ⟨es, hes, (mem_rowCells hcells).mpr ⟨cells, key, rfl, hkey⟩⟩
  · rename_i hne
    obtain rfl := Except.ok.inj h
    refine ⟨fun he => (by cases he), ?_⟩
    rintro ⟨rows, -, -, -, rfl, -⟩
    exact absurd rfl (hne rows)

/-- A cell of a row of a list in a context, under its id. -/
def CellOf (c : Context) (id : String) (v : Value) : Prop :=
  ∃ array rows i cells key, (array, .list rows) ∈ c.entries ∧ rows[i]? = some (.mapping cells) ∧
    (key, v) ∈ cells ∧ cellId array i key = .ok id

theorem cellOf_of_mem {c cells : Context} (h : flattenRows c = .ok cells) {e : String × Value}
    (he : e ∈ cells.entries) : CellOf c e.1 e.2 := by
  obtain ⟨lists, hlists, h⟩ := bind_eq_ok h
  obtain rfl := Except.ok.inj h
  rcases Table.mem_merge he with he | he
  · cases he
  · obtain ⟨es, hes, he⟩ := List.mem_flatten.mp he
    obtain ⟨⟨array, v⟩, hmem, hcells⟩ := exists_of_mem_mapM hlists hes
    obtain ⟨rows, i, entries, key, rfl, hcell⟩ := (mem_listCells hcells).mp he
    exact ⟨array, rows, i, entries, key, hmem, hcell⟩

theorem get?_isSome_of_cellOf {c cells : Context} (h : flattenRows c = .ok cells)
    (hv : CellOf c id v) : (cells.get? id).isSome := by
  obtain ⟨lists, hlists, h⟩ := bind_eq_ok h
  obtain rfl := Except.ok.inj h
  obtain ⟨array, rows, i, entries, key, hmem, hcell⟩ := hv
  obtain ⟨es, hes, hcells⟩ := mem_mapM_of_mem hlists hmem
  refine Table.get?_merge_isSome (u := ⟨lists.flatten⟩) (.inl ?_)
  refine List.mem_map.mpr ⟨(id, v), List.mem_flatten.mpr ⟨es, hes, ?_⟩, rfl⟩
  exact (mem_listCells hcells).mpr ⟨rows, i, entries, key, rfl, hcell⟩

theorem bracket_mem_of_flattenRows {c cells : Context} (h : flattenRows c = .ok cells) :
    ∀ e ∈ cells.entries, '[' ∈ e.1.toList := by
  intro e he
  obtain ⟨_, _, _, _, _, _, _, _, hid⟩ := cellOf_of_mem h he
  exact bracket_mem_of_cellId hid

/-- Cells do not touch what is bound under a local name. -/
theorem get?_foldl_insertNew {es : List (String × Value)} (h : ∀ e ∈ es, '[' ∈ e.1.toList)
    {x : String} (hx : isLocalName x) (c : Context) :
    (es.foldl (fun w (id, v) => w.insertNew id v) c).get? x = c.get? x := by
  induction es generalizing c with
  | nil => rfl
  | cons e rest ih =>
    have hne : x ≠ e.1 := by
      rintro rfl
      exact (isLocalName_iff.mp hx).2 (h e List.mem_cons_self)
    rw [List.foldl_cons, ih fun d hd => h d (List.mem_cons_of_mem e hd), Table.get?_insertNew,
      if_neg (by simpa using hne)]

end Cells

namespace Session

/-! ## Layers -/

theorem keys_ofContext (c : Context) : (Mapping.ofContext c).keys = c.keys.map .text := by
  simp [Mapping.ofContext, Table.mapKeys, Table.keys, Function.comp_def]

theorem nodup_keys_of_ofContext {c : Context} (h : (Mapping.ofContext c).keys.Nodup) :
    c.keys.Nodup := List.Nodup.of_map _ (keys_ofContext c ▸ h)

theorem ofOffer_eq_ok {offer : Offer} {layers : Layers} (h : Layers.ofOffer offer = .ok layers) :
    Layers.named offer.raw = .ok layers.raw ∧
      Layers.named offer.calculated = .ok layers.calculated ∧
      Layers.named offer.metadata = .ok layers.metadata := by
  obtain ⟨raw, hraw, h⟩ := bind_eq_ok h
  obtain ⟨calculated, hcalculated, h⟩ := bind_eq_ok h
  obtain ⟨metadata, hmetadata, h⟩ := bind_eq_ok h
  obtain rfl := Except.ok.inj h
  exact ⟨hraw, hcalculated, hmetadata⟩

/-- What is offered under names is what the layers hold. -/
theorem get?_of_ofOffer {offer : Offer} {layers : Layers} (h : Layers.ofOffer offer = .ok layers)
    (hraw : offer.raw.keys.Nodup) (hcalculated : offer.calculated.keys.Nodup) :
    layers.raw.keys.Nodup ∧ layers.calculated.keys.Nodup ∧
      (∀ x, offer.raw.get? (.text x) = layers.raw.get? x) ∧
      ∀ x, offer.calculated.get? (.text x) = layers.calculated.get? x := by
  obtain ⟨hr, hc, -⟩ := ofOffer_eq_ok h
  have hr := Layers.eq_of_named hr
  have hc := Layers.eq_of_named hc
  rw [hr] at hraw ⊢
  rw [hc] at hcalculated ⊢
  exact ⟨nodup_keys_of_ofContext hraw, nodup_keys_of_ofContext hcalculated,
    Mapping.get?_ofContext layers.raw, Mapping.get?_ofContext layers.calculated⟩

/-! ## Aliases -/

theorem alias?_eq_some {id x : String} (h : alias? id = .ok (some x)) :
    leafName? id = some x ∧ isRowId id = .ok false := by
  unfold alias? at h
  cases hleaf : leafName? id with
  | none =>
    rw [hleaf] at h
    cases h
  | some leaf =>
    rw [hleaf] at h
    obtain ⟨b, hb, h⟩ := bind_eq_ok h
    cases b with
    | true => cases h
    | false => exact ⟨Except.ok.inj h, hb⟩

/-- The last part of a dotted id has no dot. -/
theorem dot_not_mem_of_alias? {id x : String} (h : alias? id = .ok (some x)) : '.' ∉ x.toList := by
  have hleaf := (alias?_eq_some h).1
  unfold leafName? at hleaf
  split at hleaf
  · obtain rfl := Option.some.inj hleaf
    simp only [Text.afterLastDot, String.toList_ofList, List.mem_reverse]
    intro hmem
    simpa using List.mem_takeWhile_imp hmem
  · cases hleaf

/-- Whether a name stands for values under an id. -/
def aliases (leaf id : String) : Bool :=
  match alias? id with
  | .ok (some l) => l == leaf
  | _ => false

theorem aliases_of_isLocalName {id : String} (h : isLocalName id) (leaf : String) :
    aliases leaf id = false := by
  rw [aliases, alias?, leafName?_of_isLocalName h]

/-- A name that nothing is bound under stands for the first of the values that it can stand for. -/
theorem get?_aliasRaw {raw working w : Context} (h : aliasRaw raw working = .ok w) (x : String) :
    w.get? x = (working.get? x).or ((raw.entries.find? fun e => aliases x e.1).map (·.2)) := by
  obtain ⟨es⟩ := raw
  unfold aliasRaw at h
  dsimp only at h ⊢
  induction es generalizing working with
  | nil =>
    obtain rfl := Except.ok.inj h
    simp
  | cons e rest ih =>
    obtain ⟨id, v⟩ := e
    rw [List.foldlM_cons] at h
    obtain ⟨w', hw', h⟩ := bind_eq_ok h
    obtain ⟨leaf?, halias, hw'⟩ := bind_eq_ok hw'
    rw [ih h, List.find?_cons, aliases, halias]
    cases leaf? with
    | none =>
      obtain rfl := Except.ok.inj hw'
      rfl
    | some leaf =>
      obtain rfl := Except.ok.inj hw'
      rw [Table.get?_insertNew]
      by_cases hx : x = leaf
      · subst hx
        cases working.get? x <;> simp
      · have hx' : leaf ≠ x := fun heq => hx heq.symm
        simp [hx, beq_false_of_ne hx']

theorem get?_aliasCalculated_congr {calculated working working' w w' : Context}
    (h : aliasCalculated calculated working = .ok w)
    (h' : aliasCalculated calculated working' = .ok w') {x : String}
    (hx : working'.get? x = working.get? x) : w'.get? x = w.get? x := by
  obtain ⟨es⟩ := calculated
  unfold aliasCalculated at h h'
  dsimp only at h h'
  induction es generalizing working working' with
  | nil =>
    obtain rfl := Except.ok.inj h
    obtain rfl := Except.ok.inj h'
    exact hx
  | cons e rest ih =>
    obtain ⟨id, v⟩ := e
    rw [List.foldlM_cons] at h h'
    obtain ⟨u, hu, h⟩ := bind_eq_ok h
    obtain ⟨u', hu', h'⟩ := bind_eq_ok h'
    obtain ⟨leaf?, halias, hu⟩ := bind_eq_ok hu
    obtain ⟨leaf?', halias', hu'⟩ := bind_eq_ok hu'
    obtain rfl := Except.ok.inj (halias.symm.trans halias')
    refine ih ?_ h h'
    cases leaf? with
    | none =>
      obtain rfl := Except.ok.inj hu
      obtain rfl := Except.ok.inj hu'
      exact hx
    | some leaf =>
      obtain rfl := Except.ok.inj hu
      obtain rfl := Except.ok.inj hu'
      rw [Table.get?_insert, Table.get?_insert, hx]

/-! ## The start of a pass -/

/-- Entered values that differ under one local name, and list the values that a name may stand for
with the same one first, bind every other local name to the same. -/
theorem seed_agree {settings : Settings} {layers layers' : Layers} {working working' : Context}
    (hcalculated : layers'.calculated = layers.calculated)
    (hmetadata : layers'.metadata = layers.metadata)
    (hn : layers.raw.keys.Nodup) (hn' : layers'.raw.keys.Nodup) {x : String} (hx : isLocalName x)
    (hraw : ∀ y, y ≠ x → layers'.raw.get? y = layers.raw.get? y)
    (hfirst : settings.aliasLeafNames → ∀ leaf,
      layers'.raw.keys.find? (aliases leaf) = layers.raw.keys.find? (aliases leaf))
    (h : seed settings layers = .ok working) (h' : seed settings layers' = .ok working')
    {y : String} (hy : isLocalName y) (hne : y ≠ x) : working'.get? y = working.get? y := by
  obtain ⟨cells, hcells, h⟩ := bind_eq_ok h
  obtain ⟨cells', hcells', h'⟩ := bind_eq_ok h'
  have hbound : ((cells'.entries.foldl (fun w (id, v) => w.insertNew id v)
        (layers'.metadata.merge layers'.raw)).merge layers'.calculated).get? y =
      ((cells.entries.foldl (fun w (id, v) => w.insertNew id v)
        (layers.metadata.merge layers.raw)).merge layers.calculated).get? y := by
    rw [hcalculated]
    refine Table.get?_merge_congr ?_ _
    rw [get?_foldl_insertNew (bracket_mem_of_flattenRows hcells) hy,
      get?_foldl_insertNew (bracket_mem_of_flattenRows hcells') hy, Table.get?_merge hn,
      Table.get?_merge hn', hraw y hne, hmetadata]
  dsimp only at h h'
  split at h
  · rename_i halias
    rw [if_pos halias] at h'
    obtain ⟨named, hnamed, h⟩ := bind_eq_ok h
    obtain ⟨named', hnamed', h'⟩ := bind_eq_ok h'
    refine get?_aliasCalculated_congr h (hcalculated ▸ h') ?_
    rw [get?_aliasRaw hnamed, get?_aliasRaw hnamed', hbound, Table.find?_entries hn,
      Table.find?_entries hn', hfirst halias y]
    cases hk : layers.raw.keys.find? (aliases y) with
    | none => rfl
    | some k =>
      have hkx : k ≠ x := by
        rintro rfl
        have halias := List.find?_some hk
        rw [aliases_of_isLocalName hx] at halias
        cases halias
      rw [Option.bind_some, Option.bind_some, hraw k hkx]
  · rename_i halias
    rw [if_neg halias] at h'
    obtain rfl := Except.ok.inj h
    obtain rfl := Except.ok.inj h'
    exact hbound

/-- Cells do not replace what is bound already. -/
theorem get?_foldl_insertNew_entries (es : List (String × Value)) (c : Context) (x : String) :
    (es.foldl (fun w (id, v) => w.insertNew id v) c).get? x = (c.get? x).or (es.lookup x) := by
  induction es generalizing c with
  | nil => exact Option.or_none.symm
  | cons e rest ih =>
    rw [List.foldl_cons, ih, Table.get?_insertNew, List.lookup_cons]
    cases hx : x == e.1 with
    | false => rfl
    | true =>
      rw [eq_of_beq hx]
      cases c.get? e.1 <;> rfl

theorem aliases_iff {leaf id : String} : aliases leaf id ↔ alias? id = .ok (some leaf) := by
  unfold aliases
  cases alias? id with
  | error c => simp
  | ok leaf? => cases leaf? <;> simp

/-- The value that a name stands for: the first with a dotted id that ends in it. -/
def standing (settings : Settings) (es : List (String × Value)) (x : String) : Option Value :=
  if settings.aliasLeafNames then (es.find? fun e => aliases x e.1).map (·.2) else none

theorem standing_eq_some {settings : Settings} {es : List (String × Value)} {x : String} {v : Value}
    (h : standing settings es x = some v) :
    settings.aliasLeafNames ∧ ∃ d, (d, v) ∈ es ∧ alias? d = .ok (some x) := by
  unfold standing at h
  split at h
  · rename_i ha
    obtain ⟨e, he, rfl⟩ := Option.map_eq_some_iff.mp h
    have halias := List.find?_some he
    exact ⟨ha, e.1, List.mem_of_find?_eq_some he, aliases_iff.mp halias⟩
  · cases h

/-- Of several computed values that a name can stand for, it stands for the last. -/
theorem get?_aliasCalculated {calculated working w : Context}
    (h : aliasCalculated calculated working = .ok w) (x : String) :
    w.get? x = ((calculated.entries.reverse.find? fun e => aliases x e.1).map (·.2)).or
      (working.get? x) := by
  obtain ⟨es⟩ := calculated
  unfold aliasCalculated at h
  dsimp only at h ⊢
  induction es generalizing working with
  | nil =>
    obtain rfl := Except.ok.inj h
    rfl
  | cons e rest ih =>
    obtain ⟨id, v⟩ := e
    rw [List.foldlM_cons] at h
    obtain ⟨w', hw', h⟩ := bind_eq_ok h
    obtain ⟨leaf?, halias, hw'⟩ := bind_eq_ok hw'
    rw [ih h, List.reverse_cons, List.find?_append, Option.map_or, Option.or_assoc]
    refine congrArg _ ?_
    rw [List.find?_singleton, aliases, halias]
    cases leaf? with
    | none =>
      obtain rfl := Except.ok.inj hw'
      rfl
    | some leaf =>
      obtain rfl := Except.ok.inj hw'
      rw [Table.get?_insert]
      by_cases hx : x = leaf
      · simp [hx]
      · have hx' : leaf ≠ x := fun heq => hx heq.symm
        simp [hx, beq_false_of_ne hx']

/-- What a name is bound to at the start of a pass, from the strongest source to the weakest. -/
theorem get?_seed {settings : Settings} {layers : Layers} {working : Context}
    (hraw : layers.raw.keys.Nodup) (hcalculated : layers.calculated.keys.Nodup)
    (h : seed settings layers = .ok working) :
    ∃ cells, flattenRows layers.raw = .ok cells ∧ ∀ x, working.get? x =
      (standing settings layers.calculated.entries.reverse x).or
        (((layers.calculated.get? x).or
          (((layers.raw.get? x).or (layers.metadata.get? x)).or (cells.get? x))).or
            (standing settings layers.raw.entries x)) := by
  obtain ⟨cells, hcells, h⟩ := bind_eq_ok h
  refine ⟨cells, hcells, fun x => ?_⟩
  have hbound : ((cells.entries.foldl (fun w (id, v) => w.insertNew id v)
      (layers.metadata.merge layers.raw)).merge layers.calculated).get? x =
      (layers.calculated.get? x).or
        (((layers.raw.get? x).or (layers.metadata.get? x)).or (cells.get? x)) := by
    rw [Table.get?_merge hcalculated, get?_foldl_insertNew_entries, Table.get?_merge hraw]
    rfl
  unfold standing
  dsimp only at h
  split at h
  · rename_i ha
    obtain ⟨named, hnamed, h⟩ := bind_eq_ok h
    rw [if_pos ha, if_pos ha, get?_aliasCalculated h, get?_aliasRaw hnamed, hbound]
  · rename_i ha
    obtain rfl := Except.ok.inj h
    rw [if_neg ha, if_neg ha, hbound, Option.none_or, Option.or_none]

/-- What is offered is bound at the start of a pass. -/
theorem get?_seed_isSome {settings : Settings} {layers : Layers} {working : Context} {k : String}
    {v : Value} (hraw : layers.raw.keys.Nodup) (hcalculated : layers.calculated.keys.Nodup)
    (h : seed settings layers = .ok working)
    (hv : (layers.raw.merge layers.calculated).get? k = some v) : (working.get? k).isSome := by
  obtain ⟨cells, -, hseed⟩ := get?_seed hraw hcalculated h
  rw [Table.get?_merge hcalculated] at hv
  have hbound : ((layers.calculated.get? k).or (layers.raw.get? k)).isSome := by rw [hv]; rfl
  rw [hseed]
  simp only [Option.isSome_or, Bool.or_eq_true] at hbound ⊢
  tauto

/-- A value that is offered is what its name is bound to, unless computed values under dotted ids take
the name. -/
theorem get?_seed_of_offered {settings : Settings} {layers : Layers} {working : Context}
    {k : String} {v : Value} (hraw : layers.raw.keys.Nodup)
    (hcalculated : layers.calculated.keys.Nodup) (h : seed settings layers = .ok working)
    (hv : (layers.raw.merge layers.calculated).get? k = some v)
    (halias : settings.aliasLeafNames →
      ∀ d w, layers.calculated.get? d = some w → alias? d = .ok (some k) → w = v) :
    working.get? k = some v := by
  obtain ⟨cells, -, hseed⟩ := get?_seed hraw hcalculated h
  rw [hseed]
  cases hs : standing settings layers.calculated.entries.reverse k with
  | some w =>
    obtain ⟨ha, d, hd, hk⟩ := standing_eq_some hs
    rw [Option.some_or, halias ha d w (Table.get?_of_mem hcalculated (List.mem_reverse.mp hd)) hk]
  | none =>
    rw [Table.get?_merge hcalculated] at hv
    cases hc : layers.calculated.get? k with
    | some w =>
      rw [hc, Option.some_or] at hv
      simpa using hv
    | none =>
      rw [hc, Option.none_or] at hv
      simp [hv]

/-- Without computed values, an entered value is what its own name is bound to. -/
theorem get?_seed_of_raw {settings : Settings} {layers : Layers} {working : Context}
    (hcalculated : layers.calculated = .empty) (hn : layers.raw.keys.Nodup) {x : String} {v : Value}
    (hx : layers.raw.get? x = some v) (h : seed settings layers = .ok working) :
    working.get? x = some v := by
  refine get?_seed_of_offered hn ?_ h ?_ fun _ d w hd => ?_
  · rw [hcalculated]
    exact List.nodup_nil
  · rw [hcalculated]
    exact hx
  · rw [hcalculated] at hd
    cases hd

end Session

end LiveForm
