import LiveForm.Proofs.Mapping
import LiveForm.Row

/-! # Values written back into cells

A value is written back into one cell of one row. What has become of the rows of an array after some
of its fields have been written back is said cell by cell: the cells of these fields hold the values,
and every other cell, and every row that is no mapping, is as it was. -/

namespace LiveForm

namespace RowRef

/-- The rows with a value in the cell, if there is one. -/
def writeCell (r : RowRef) (v : Value) (rows : List Value) : List Value :=
  match rows[r.index]? with
  | some (.mapping cells) => rows.set r.index (.mapping (Table.put (.text r.child) v cells))
  | _ => rows

variable {r : RowRef} {v : Value} {c : Context} {rows : List Value}

theorem get?_writeBack_self (h : c.get? r.array = some (.list rows)) :
    (r.writeBack v c).get? r.array = some (.list (r.writeCell v rows)) := by
  unfold writeBack row? writeCell
  rw [h]
  dsimp only
  cases hrow : rows[r.index]? with
  | none => exact h
  | some row =>
    cases row with
    | mapping cells => exact Table.get?_insert_self _ _ _
    | _ => exact h

theorem get?_writeBack_of_ne {x : String} (h : x ≠ r.array) :
    (r.writeBack v c).get? x = c.get? x := by
  unfold writeBack
  split
  · exact Table.get?_insert_of_ne _ h _
  · rfl

theorem get?_writeBack_isSome {x : String} (h : (c.get? x).isSome) :
    ((r.writeBack v c).get? x).isSome := by
  unfold writeBack
  split
  · rw [Table.get?_insert]
    split
    · rfl
    · exact h
  · exact h

theorem length_writeCell : (r.writeCell v rows).length = rows.length := by
  unfold writeCell
  split
  · exact List.length_set
  · rfl

theorem getElem?_writeCell_of_ne {i : Nat} (h : i ≠ r.index) :
    (r.writeCell v rows)[i]? = rows[i]? := by
  unfold writeCell
  split
  · exact List.getElem?_set_ne (Ne.symm h)
  · rfl

theorem getElem?_writeCell_self {cells : List (Key × Value)}
    (h : rows[r.index]? = some (.mapping cells)) :
    (r.writeCell v rows)[r.index]? = some (.mapping (Table.put (.text r.child) v cells)) := by
  have hlt : r.index < rows.length := (List.getElem?_eq_some_iff.mp h).1
  unfold writeCell
  rw [h]
  exact List.getElem?_set_self hlt

/-- A row that is no mapping has no cell to write into. -/
theorem getElem?_writeCell_of_not_mapping {i : Nat} {row : Value} (h : rows[i]? = some row)
    (hrow : ∀ cells, row ≠ .mapping cells) : (r.writeCell v rows)[i]? = some row := by
  by_cases hi : i = r.index
  · subst hi
    unfold writeCell
    rw [h]
    cases row with
    | mapping cells => exact absurd rfl (hrow cells)
    | _ => exact h
  · rw [getElem?_writeCell_of_ne hi, h]

end RowRef

/-! ## Rows after several fields -/

/-- What has become of the cells of row `i` of an array once some fields have their values written
back. -/
structure CellsWritten (array : String) (written : String → Prop) (value : String → Option Value)
    (i : Nat) (cells cells' : List (Key × Value)) : Prop where
  field : ∀ f c, written f → RowRef.parse? f = .ok (some ⟨array, i, c⟩) →
    ∃ v, value f = some v ∧ cells'.lookup (.text c) = some v
  other : ∀ k, (∀ f c, written f → RowRef.parse? f = .ok (some ⟨array, i, c⟩) → k ≠ .text c) →
    cells'.lookup k = cells.lookup k

/-- What has become of the rows of an array once some fields have their values written back. -/
structure WrittenBack (array : String) (written : String → Prop) (value : String → Option Value)
    (rows rows' : List Value) : Prop where
  length_eq : rows'.length = rows.length
  other : ∀ (i : Nat) (row : Value), rows[i]? = some row → (∀ cells, row ≠ .mapping cells) →
    rows'[i]? = some row
  mapping : ∀ (i : Nat) (cells : List (Key × Value)), rows[i]? = some (.mapping cells) →
    ∃ cells', rows'[i]? = some (.mapping cells') ∧ CellsWritten array written value i cells cells'

namespace WrittenBack

variable {array id : String} {written written' : String → Prop} {value value' : String → Option Value}
  {rows rows' : List Value}

/-- Rows without fields that are written back stay as they are. -/
theorem refl (h : ∀ f r, written f → RowRef.parse? f = .ok (some r) → r.array ≠ array) :
    WrittenBack array written value rows rows := by
  refine ⟨rfl, fun i row hi _ => hi, fun i cells hi => ⟨cells, hi, fun f c hf hr => ?_,
    fun k _ => rfl⟩⟩
  exact absurd rfl (h f ⟨array, i, c⟩ hf hr)

theorem congr (h : WrittenBack array written value rows rows')
    (hw : ∀ f r, RowRef.parse? f = .ok (some r) → r.array = array → (written' f ↔ written f))
    (hv : ∀ f r, RowRef.parse? f = .ok (some r) → r.array = array → written f →
      value' f = value f) : WrittenBack array written' value' rows rows' := by
  refine ⟨h.length_eq, h.other, fun i cells hi => ?_⟩
  obtain ⟨cells', hi', hcells⟩ := h.mapping i cells hi
  refine ⟨cells', hi', fun f c hf hr => ?_, fun k hk => hcells.other k fun f c hf hr => ?_⟩
  · have hwritten := (hw f _ hr rfl).mp hf
    rw [hv f _ hr rfl hwritten]
    exact hcells.field f c hwritten hr
  · exact hk f c ((hw f _ hr rfl).mpr hf) hr

/-- One more field is written back; it shares its cell with none of the others. -/
theorem write (h : WrittenBack array written value rows rows') {r : RowRef} {v : Value}
    (hid : RowRef.parse? id = .ok (some r)) (harray : r.array = array)
    (halone : ∀ f, written f → RowRef.parse? f ≠ .ok (some r))
    (hw : ∀ f s, RowRef.parse? f = .ok (some s) → s.array = array →
      (written' f ↔ written f ∨ f = id))
    (hv : ∀ f, written f → value' f = value f) (hvid : value' id = some v) :
    WrittenBack array written' value' rows (r.writeCell v rows') := by
  obtain ⟨_, index, child⟩ := r
  obtain rfl : _ = array := harray
  refine ⟨RowRef.length_writeCell.trans h.length_eq, fun i row hi hrow => ?_, fun i cells hi => ?_⟩
  · exact RowRef.getElem?_writeCell_of_not_mapping (h.other i row hi hrow) hrow
  obtain ⟨cells', hi', hcells⟩ := h.mapping i cells hi
  by_cases hindex : i = index
  · subst hindex
    refine ⟨_, RowRef.getElem?_writeCell_self hi', fun f c hf hr => ?_, fun k hk => ?_⟩
    · rcases (hw f _ hr rfl).mp hf with hf | rfl
      · have hne : Key.text c ≠ .text child := by
          intro heq
          obtain rfl := Key.text.inj heq
          exact halone f hf hr
        rw [lookup_put_text_of_ne _ _ _ hne, hv f hf]
        exact hcells.field f c hf hr
      · obtain rfl : child = c :=
          congrArg RowRef.child (Option.some.inj (Except.ok.inj (hid.symm.trans hr)))
        exact ⟨v, hvid, lookup_put_text_self _ _ _⟩
    · rw [lookup_put_text_of_ne _ _ _ (hk id child ((hw id _ hid rfl).mpr (.inr rfl)) hid)]
      exact hcells.other k fun f c hf hr => hk f c ((hw f _ hr rfl).mpr (.inl hf)) hr
  · refine ⟨cells', (RowRef.getElem?_writeCell_of_ne hindex).trans hi', fun f c hf hr => ?_,
      fun k hk => ?_⟩
    · rcases (hw f _ hr rfl).mp hf with hf | rfl
      · rw [hv f hf]
        exact hcells.field f c hf hr
      · have heq := congrArg RowRef.index (Option.some.inj (Except.ok.inj (hid.symm.trans hr)))
        exact absurd heq.symm hindex
    · exact hcells.other k fun f c hf hr => hk f c ((hw f _ hr rfl).mpr (.inl hf)) hr

end WrittenBack

/-! ## Rows in which any cells have been written -/

/-- Rows that differ from others at most in cells which hold the values of some fields. Two fields may
share a cell, and a field need not have one. -/
structure RowsRewritten (array : String) (written : String → Prop) (value : String → Option Value)
    (rows rows' : List Value) : Prop where
  length_eq : rows'.length = rows.length
  other : ∀ (i : Nat) (row : Value), rows[i]? = some row → (∀ cells, row ≠ .mapping cells) →
    rows'[i]? = some row
  mapping : ∀ (i : Nat) (cells : List (Key × Value)), rows[i]? = some (.mapping cells) →
    ∃ cells', rows'[i]? = some (.mapping cells') ∧
      ∀ k, cells'.lookup k = cells.lookup k ∨
        ∃ f c v, written f ∧ RowRef.parse? f = .ok (some ⟨array, i, c⟩) ∧ k = .text c ∧
          value f = some v ∧ cells'.lookup k = some v

/-- A value as it was, or a list with rewritten rows, if any field writes into them. -/
def Rewritten (array : String) (written : String → Prop) (value : String → Option Value)
    (v w : Value) : Prop :=
  w = v ∨ ∃ rows rows', v = .list rows ∧ w = .list rows' ∧ (∃ f, written f) ∧
    RowsRewritten array written value rows rows'

section Rewritten

variable {array id : String} {written written' : String → Prop} {value value' : String → Option Value}
  {rows rows' : List Value} {v w : Value} {r : RowRef} {c : Context}

theorem RowsRewritten.refl : RowsRewritten array written value rows rows :=
  ⟨rfl, fun _ _ hi _ => hi, fun _ cells hi => ⟨cells, hi, fun _ => .inl rfl⟩⟩

theorem RowsRewritten.mono (h : RowsRewritten array written value rows rows')
    (hw : ∀ f, written f → written' f ∧ value' f = value f) :
    RowsRewritten array written' value' rows rows' := by
  refine ⟨h.length_eq, h.other, fun i cells hi => ?_⟩
  obtain ⟨cells', hi', hcells⟩ := h.mapping i cells hi
  refine ⟨cells', hi', fun k => (hcells k).imp_right ?_⟩
  rintro ⟨f, c, v, hf, hr, hk, hv, hl⟩
  exact ⟨f, c, v, (hw f hf).1, hr, hk, (hw f hf).2.trans hv, hl⟩

theorem RowsRewritten.write (h : RowsRewritten r.array written value rows rows')
    (hid : RowRef.parse? id = .ok (some r)) (hw : written id) (hv : value id = some v) :
    RowsRewritten r.array written value rows (r.writeCell v rows') := by
  refine ⟨RowRef.length_writeCell.trans h.length_eq, fun i row hi hrow => ?_, fun i cells hi => ?_⟩
  · exact RowRef.getElem?_writeCell_of_not_mapping (h.other i row hi hrow) hrow
  obtain ⟨cells', hi', hcells⟩ := h.mapping i cells hi
  by_cases hindex : i = r.index
  · subst hindex
    refine ⟨_, RowRef.getElem?_writeCell_self hi', fun k => ?_⟩
    by_cases hk : k = .text r.child
    · subst hk
      exact .inr ⟨id, r.child, v, hw, hid, rfl, hv, lookup_put_text_self _ _ _⟩
    · rw [lookup_put_text_of_ne _ _ _ hk]
      exact hcells k
  · exact ⟨cells', (RowRef.getElem?_writeCell_of_ne hindex).trans hi', hcells⟩

theorem Rewritten.mono (h : Rewritten array written value v w)
    (hw : ∀ f, written f → written' f ∧ value' f = value f) : Rewritten array written' value' v w := by
  obtain rfl | ⟨rows, rows', rfl, rfl, ⟨f, hf⟩, hrows⟩ := h
  · exact .inl rfl
  · exact .inr ⟨rows, rows', rfl, rfl, ⟨f, (hw f hf).1⟩, hrows.mono hw⟩

/-- Writing back into what an array has become. -/
theorem Rewritten.writeBack {u : Value} (h : Rewritten r.array written value v w)
    (hid : RowRef.parse? id = .ok (some r)) (hw : written id) (hv : value id = some u)
    (hc : c.get? r.array = some w) :
    ∃ w', (r.writeBack u c).get? r.array = some w' ∧ Rewritten r.array written value v w' := by
  cases w with
  | list rows' =>
    refine ⟨_, RowRef.get?_writeBack_self hc, .inr ?_⟩
    obtain hsame | ⟨rows, rows'', hlist, hlist', -, hrows⟩ := h
    · exact ⟨rows', _, hsame.symm, rfl, ⟨id, hw⟩, RowsRewritten.refl.write hid hw hv⟩
    · obtain rfl := Value.list.inj hlist'
      exact ⟨rows, _, hlist, rfl, ⟨id, hw⟩, hrows.write hid hw hv⟩
  | _ =>
    refine ⟨_, ?_, h⟩
    unfold RowRef.writeBack RowRef.row?
    rw [hc]
    exact hc

end Rewritten

end LiveForm
