import LiveForm.Proofs.Cells

/-! # Writing back is an update

What is written back stands in its cell and nowhere else, the last of several writes to a cell stands,
and writes to two cells can change places; only the order of cells within one row may show which came
first. -/

namespace LiveForm

/-- Values that differ at most in the order of entries in mappings. -/
inductive Reordered : Value → Value → Prop
  | refl (v : Value) : Reordered v v
  | list {vs ws : List Value} (h : List.Forall₂ Reordered vs ws) : Reordered (.list vs) (.list ws)
  | mapping {es fs : List (Key × Value)} (h : es.Perm fs) : Reordered (.mapping es) (.mapping fs)

namespace RowRef

variable {r q : RowRef} {v w : Value} {c : Context} {rows : List Value} {cells : List (Key × Value)}

/-! ## What is written -/

theorem row?_eq_some : r.row? c = some (rows, cells) ↔
    c.get? r.array = some (.list rows) ∧ rows[r.index]? = some (.mapping cells) := by
  unfold row?
  constructor
  · intro h
    split at h
    · rename_i rows' hrows
      split at h
      · rename_i cells' hcells
        obtain ⟨rfl, rfl⟩ := Prod.mk.inj (Option.some.inj h)
        exact ⟨hrows, hcells⟩
      · cases h
    · cases h
  · rintro ⟨hrows, hcells⟩
    rw [hrows]
    dsimp only
    rw [hcells]

theorem writeBack_of_row? (h : r.row? c = some (rows, cells)) : r.writeBack v c =
    c.insert r.array
      (.list (rows.set r.index (.mapping (Table.put (.text r.child) v cells)))) := by
  unfold writeBack
  rw [h]

theorem writeBack_of_row?_eq_none (h : r.row? c = none) : r.writeBack v c = c := by
  unfold writeBack
  rw [h]

/-- Where the array is a list, one of its cells is written, if there is one. -/
theorem writeBack_of_list (h : c.get? r.array = some (.list rows)) :
    r.writeBack v c = c.insert r.array (.list (r.writeCell v rows)) := by
  unfold writeCell
  split
  · rename_i cells hcells
    exact writeBack_of_row? (row?_eq_some.mpr ⟨h, hcells⟩)
  · rename_i hcells
    have hnone : r.row? c = none := by
      by_contra hsome
      obtain ⟨⟨rows', cells⟩, hrow⟩ := Option.ne_none_iff_exists'.mp hsome
      obtain ⟨hrows, hrow⟩ := row?_eq_some.mp hrow
      obtain rfl := Value.list.inj (Option.some.inj (hrows.symm.trans h))
      exact hcells cells hrow
    rw [writeBack_of_row?_eq_none hnone, Table.insert_of_get? h]

theorem writeBack_of_not_list (h : ∀ rows, c.get? r.array ≠ some (.list rows)) :
    r.writeBack v c = c := by
  refine writeBack_of_row?_eq_none ?_
  by_contra hsome
  obtain ⟨⟨rows, cells⟩, hrow⟩ := Option.ne_none_iff_exists'.mp hsome
  exact h rows (row?_eq_some.mp hrow).1

theorem list_or_not (c : Context) (x : String) :
    (∃ rows, c.get? x = some (.list rows)) ∨ ∀ rows, c.get? x ≠ some (.list rows) :=
  (Classical.em _).imp_right not_exists.mp

theorem mapping_or_not (rows : List Value) (i : Nat) :
    (∃ cells, rows[i]? = some (.mapping cells)) ∨ ∀ cells, rows[i]? ≠ some (.mapping cells) :=
  (Classical.em _).imp_right not_exists.mp

/-! ## Writing twice -/

theorem writeCell_of_mapping (h : rows[r.index]? = some (.mapping cells)) : r.writeCell v rows =
    rows.set r.index (.mapping (Table.put (.text r.child) v cells)) := by
  unfold writeCell
  rw [h]

theorem writeCell_of_not_mapping (h : ∀ cells, rows[r.index]? ≠ some (.mapping cells)) :
    r.writeCell v rows = rows := by
  unfold writeCell
  split
  · rename_i cells hcells
    exact absurd hcells (h cells)
  · rfl

theorem writeCell_writeCell : r.writeCell w (r.writeCell v rows) = r.writeCell w rows := by
  obtain ⟨cells, h⟩ | h := mapping_or_not rows r.index
  · rw [writeCell_of_mapping (getElem?_writeCell_self h), writeCell_of_mapping h,
      writeCell_of_mapping h, List.set_set, Table.put_put (isExact_text r.child)]
  · have hsame : r.writeCell v rows = rows := writeCell_of_not_mapping h
    rw [hsame]

/-- **The last of two writes to a cell stands.** -/
theorem writeBack_writeBack (r : RowRef) (v w : Value) (c : Context) :
    r.writeBack w (r.writeBack v c) = r.writeBack w c := by
  obtain ⟨rows, h⟩ | h := list_or_not c r.array
  · rw [writeBack_of_list (get?_writeBack_self h), writeBack_of_list h, writeBack_of_list h,
      writeCell_writeCell, Table.insert_insert]
  · rw [writeBack_of_not_list (c := c) h]

/-! ## Writing to two cells -/

theorem writeCell_comm_of_ne (h : r.index ≠ q.index) :
    r.writeCell v (q.writeCell w rows) = q.writeCell w (r.writeCell v rows) := by
  obtain ⟨cells, hr⟩ | hr := mapping_or_not rows r.index
  · obtain ⟨others, hq⟩ | hq := mapping_or_not rows q.index
    · rw [writeCell_of_mapping ((getElem?_writeCell_of_ne h).trans hr), writeCell_of_mapping hq,
        writeCell_of_mapping ((getElem?_writeCell_of_ne h.symm).trans hq), writeCell_of_mapping hr,
        List.set_comm _ _ h.symm]
    · have hq' (cells : List (Key × Value)) :
          (r.writeCell v rows)[q.index]? ≠ some (.mapping cells) := by
        rw [getElem?_writeCell_of_ne h.symm]
        exact hq cells
      rw [writeCell_of_not_mapping hq, writeCell_of_not_mapping hq']
  · have hr' (cells : List (Key × Value)) :
        (q.writeCell w rows)[r.index]? ≠ some (.mapping cells) := by
      rw [getElem?_writeCell_of_ne h]
      exact hr cells
    rw [writeCell_of_not_mapping hr, writeCell_of_not_mapping hr']

theorem forall₂_reordered_refl (vs : List Value) : List.Forall₂ Reordered vs vs :=
  List.forall₂_same.mpr fun v _ => .refl v

theorem forall₂_reordered_set {u u' : Value} (h : Reordered u u') (vs : List Value) (i : Nat) :
    List.Forall₂ Reordered (vs.set i u) (vs.set i u') := by
  induction vs generalizing i with
  | nil => exact .nil
  | cons x rest ih =>
    cases i with
    | zero => exact .cons h (forall₂_reordered_refl rest)
    | succ i => exact .cons (.refl x) (ih i)

/-- Writes to two cells of one array can change places. -/
theorem writeCell_comm (h : r.index = q.index → r.child ≠ q.child) :
    List.Forall₂ Reordered (r.writeCell v (q.writeCell w rows)) (q.writeCell w (r.writeCell v rows)) := by
  by_cases hindex : r.index = q.index
  · have hne : Key.text r.child ≠ .text q.child := fun heq => h hindex (Key.text.inj heq)
    obtain ⟨cells, hr⟩ | hr := mapping_or_not rows r.index
    · have hq : rows[q.index]? = some (.mapping cells) := hindex ▸ hr
      have hr' : (q.writeCell w rows)[r.index]? =
          some (.mapping (Table.put (.text q.child) w cells)) := hindex ▸ getElem?_writeCell_self hq
      have hq' : (r.writeCell v rows)[q.index]? =
          some (.mapping (Table.put (.text r.child) v cells)) := hindex ▸ getElem?_writeCell_self hr
      rw [writeCell_of_mapping hr', writeCell_of_mapping hq', writeCell_of_mapping hr,
        writeCell_of_mapping hq, hindex, List.set_set, List.set_set]
      exact forall₂_reordered_set
        (.mapping (Table.put_perm (isExact_text _) (isExact_text _) hne)) rows q.index
    · have hq : ∀ cells, rows[q.index]? ≠ some (.mapping cells) := hindex ▸ hr
      rw [writeCell_of_not_mapping hq, writeCell_of_not_mapping hr, writeCell_of_not_mapping hq]
      exact forall₂_reordered_refl rows
  · rw [writeCell_comm_of_ne hindex]
    exact forall₂_reordered_refl _

theorem writeBack_comm_of_ne (h : r.array ≠ q.array) :
    r.writeBack v (q.writeBack w c) = q.writeBack w (r.writeBack v c) := by
  have hr : (q.writeBack w c).get? r.array = c.get? r.array := get?_writeBack_of_ne h
  have hq : (r.writeBack v c).get? q.array = c.get? q.array := get?_writeBack_of_ne h.symm
  obtain ⟨rows, hrows⟩ | hrlist := list_or_not c r.array
  · obtain ⟨others, hothers⟩ | hqlist := list_or_not c q.array
    · rw [writeBack_of_list (hr.trans hrows), writeBack_of_list hothers,
        writeBack_of_list (hq.trans hothers), writeBack_of_list hrows,
        Table.insert_comm h (by rw [hrows]; rfl)]
    · rw [writeBack_of_not_list hqlist, writeBack_of_not_list (c := r.writeBack v c) (hq ▸ hqlist)]
  · rw [writeBack_of_not_list hrlist, writeBack_of_not_list (c := q.writeBack w c) (hr ▸ hrlist)]

end RowRef

/-- Contexts with the same names that differ at most in the order of entries in mappings. -/
structure SameUpToOrder (c d : Context) : Prop where
  keys : d.keys = c.keys
  values : ∀ x, Option.Rel Reordered (c.get? x) (d.get? x)

theorem SameUpToOrder.refl (c : Context) : SameUpToOrder c c := by
  refine ⟨rfl, fun x => ?_⟩
  cases c.get? x with
  | none => exact .none
  | some v => exact .some (.refl v)

theorem SameUpToOrder.insert {v w : Value} (h : Reordered v w) (c : Context) (x : String) :
    SameUpToOrder (c.insert x v) (c.insert x w) := by
  refine ⟨?_, fun y => ?_⟩
  · by_cases hx : x ∈ c.keys
    · rw [Table.keys_insert_of_mem hx, Table.keys_insert_of_mem hx]
    · rw [Table.keys_insert_of_not_mem hx, Table.keys_insert_of_not_mem hx]
  · rw [Table.get?_insert, Table.get?_insert]
    split
    · exact .some h
    · exact (refl c).values y

namespace RowRef

/-- **Writes to two cells can change places**, up to the order of what they add to a row. -/
theorem writeBack_comm {r q : RowRef} (h : q ≠ r) (v w : Value) (c : Context) :
    SameUpToOrder (r.writeBack v (q.writeBack w c)) (q.writeBack w (r.writeBack v c)) := by
  by_cases harray : r.array = q.array
  · obtain ⟨rows, hr⟩ | hr := list_or_not c r.array
    · have hq : c.get? q.array = some (.list rows) := harray ▸ hr
      have hr' : (q.writeBack w c).get? r.array = some (.list (q.writeCell w rows)) :=
        harray ▸ get?_writeBack_self hq
      have hq' : (r.writeBack v c).get? q.array = some (.list (r.writeCell v rows)) :=
        harray ▸ get?_writeBack_self hr
      have hcell : r.index = q.index → r.child ≠ q.child := by
        intro hindex hchild
        obtain ⟨array, index, child⟩ := r
        obtain ⟨array', index', child'⟩ := q
        exact h (by rw [RowRef.mk.injEq]; exact ⟨harray.symm, hindex.symm, hchild.symm⟩)
      rw [writeBack_of_list hr', writeBack_of_list hq', writeBack_of_list hr, writeBack_of_list hq,
        harray, Table.insert_insert, Table.insert_insert]
      exact .insert (.list (writeCell_comm hcell)) c q.array
    · have hq : ∀ rows, c.get? q.array ≠ some (.list rows) := harray ▸ hr
      rw [writeBack_of_not_list hq, writeBack_of_not_list hr, writeBack_of_not_list hq]
      exact .refl c
  · rw [writeBack_comm_of_ne harray]
    exact .refl _

end RowRef

end LiveForm
