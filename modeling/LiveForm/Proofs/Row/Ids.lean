import LiveForm.Proofs.Number.Text
import LiveForm.Proofs.Session.Seed

/-! # Cells and their ids

The id of a cell is read back as what it was made of: the array ends at the first bracket, the index at
the next one. So no two cells have one id, and the cells of a context are exposed one by one. -/

namespace LiveForm

/-! ## Where a run of characters ends -/

section Runs

variable {α : Type} {p : α → Bool} {as bs rest other : List α} {c d : α}

theorem takeWhile_append_cons (h : ∀ a ∈ as, p a) (hc : p c = false) :
    (as ++ c :: rest).takeWhile p = as := by
  rw [List.takeWhile_append_of_pos h, List.takeWhile_cons_of_neg (by simp [hc]), List.append_nil]

theorem dropWhile_append_cons (h : ∀ a ∈ as, p a) (hc : p c = false) :
    (as ++ c :: rest).dropWhile p = c :: rest := by
  rw [List.dropWhile_append_of_pos h, List.dropWhile_cons_of_neg (by simp [hc])]

/-- A list is cut in one way at the first element that fails a test. -/
theorem eq_of_append_cons (ha : ∀ a ∈ as, p a) (hb : ∀ b ∈ bs, p b) (hc : p c = false)
    (hd : p d = false) (h : as ++ c :: rest = bs ++ d :: other) : as = bs ∧ c :: rest = d :: other :=
  ⟨(takeWhile_append_cons ha hc).symm.trans (h ▸ takeWhile_append_cons hb hd),
    (dropWhile_append_cons ha hc).symm.trans (h ▸ dropWhile_append_cons hb hd)⟩

end Runs

/-! ## Indices -/

theorem isDigit_iff {c : Char} : c.isDigit ↔ 48 ≤ c.toNat ∧ c.toNat ≤ 57 := by
  simp only [Char.isDigit, Bool.and_eq_true, decide_eq_true_eq, ge_iff_le,
    UInt32.le_iff_toNat_le]
  exact Iff.rfl

theorem isDecimal_of_isDigit {c : Char} (h : c.isDigit) : Text.isDecimal c := by
  have hlt : c.toNat < 128 := Nat.lt_of_le_of_lt (isDigit_iff.mp h).2 (by decide)
  simpa [Text.isDecimal, hlt] using isDigit_iff.mp h

theorem decimalValue_of_isDigit {c : Char} (h : c.isDigit) : Text.decimalValue c = c.toNat - 48 := by
  have hlt : c.toNat < 128 := Nat.lt_of_le_of_lt (isDigit_iff.mp h).2 (by decide)
  simp [Text.decimalValue, hlt]

theorem isDecimal_of_mem_naturalDigits {c : Char} {n : Nat} (h : c ∈ Decimal.naturalDigits n) :
    Text.isDecimal c := isDecimal_of_isDigit (Decimal.isDigit_of_mem_naturalDigits h)

/-- The digits of a whole number read as that number. -/
theorem digitsValue_naturalDigits (n : Nat) :
    Numeral.digitsValue (Decimal.naturalDigits n) = n := by
  have hfold {cs : List Char} (h : ∀ c ∈ cs, c.isDigit) (m : Nat) :
      cs.foldl (fun n c => 10 * n + Text.decimalValue c) m = Nat.ofDigitChars 10 cs m := by
    refine List.foldl_ext _ _ _ fun k c hc => ?_
    rw [decimalValue_of_isDigit (h c hc)]
    rfl
  exact (hfold (fun c => Decimal.isDigit_of_mem_naturalDigits) 0).trans Nat.ofDigitChars_ten_toDigits

theorem length_naturalDigits_le_iff {n k : Nat} (hk : 0 < k) :
    (Decimal.naturalDigits n).length ≤ k ↔ n < Binary.tenTo k :=
  Nat.length_toDigits_le_iff (by decide) hk

/-- A number that can be written is read back; its digits are too many otherwise. -/
theorem whole_naturalDigits (n : Nat) : Numeral.whole (Decimal.naturalDigits n) =
    if isWritable n then .ok n else .error .domain := by
  have hlimit := length_naturalDigits_le_iff (n := n) (k := digitLimit) (by decide)
  rw [Numeral.whole, orTooLong, digitsValue_naturalDigits, isWritable, Int.natAbs_natCast]
  simp only [hlimit, decide_eq_true_eq]

/-! ## Ids -/

/-- A part of an id: an array or a child that the id of a cell can name. -/
def IsIdPart (s : String) : Prop := s ≠ "" ∧ '[' ∉ s.toList ∧ ']' ∉ s.toList

theorem IsIdPart.not_isBracket {s : String} (h : IsIdPart s) {c : Char} (hc : c ∈ s.toList) :
    (!RowRef.isBracket c) = true := by
  have hopen : c ≠ '[' := fun heq => h.2.1 (heq ▸ hc)
  have hclose : c ≠ ']' := fun heq => h.2.2 (heq ▸ hc)
  simp [RowRef.isBracket, hopen, hclose]

namespace RowRef

variable {r q : RowRef} {s t : String}

theorem toList_qualify (r : RowRef) (name : String) : (r.qualify name).toList =
    r.array.toList ++ '[' :: (Decimal.naturalDigits r.index ++ ']' :: '.' :: name.toList) := by
  simp [qualify, stem, Decimal.intText]

/-- Rows of one array share no id: the index ends at the bracket after it. -/
theorem index_eq_of_qualify (harray : r.array = q.array) (h : r.qualify s = q.qualify t) :
    r.index = q.index ∧ s = t := by
  have hlist := congrArg String.toList h
  rw [toList_qualify, toList_qualify, harray] at hlist
  obtain ⟨hdigits, hrest⟩ := eq_of_append_cons
    (fun _ => isDecimal_of_mem_naturalDigits) (fun _ => isDecimal_of_mem_naturalDigits)
    (by decide) (by decide) (List.cons.inj (List.append_cancel_left hlist)).2
  exact ⟨Decimal.naturalDigits_inj hdigits,
    String.toList_inj.mp (List.cons.inj (List.cons.inj hrest).2).2⟩

/-- **No two cells have one id.** -/
theorem qualify_inj (hr : IsIdPart r.array) (hq : IsIdPart q.array)
    (h : r.qualify r.child = q.qualify q.child) : r = q := by
  have hlist := congrArg String.toList h
  rw [toList_qualify, toList_qualify] at hlist
  obtain ⟨harray, -⟩ := eq_of_append_cons (fun _ => hr.not_isBracket) (fun _ => hq.not_isBracket)
    (by decide) (by decide) hlist
  have harray := String.toList_inj.mp harray
  obtain ⟨hindex, hchild⟩ := index_eq_of_qualify harray h
  obtain ⟨array, index, child⟩ := r
  obtain ⟨_, _, _⟩ := q
  dsimp only at harray hindex hchild
  rw [harray, hindex, hchild]

/-- **The id of a cell is read back as the cell.** What can not be read is an index of too many
digits. -/
theorem parse?_qualify (harray : IsIdPart r.array) (hchild : IsIdPart r.child) :
    parse? (r.qualify r.child) =
      if isWritable r.index then .ok (some r) else .error .domain := by
  have hdigits (c : Char) : c ∈ Decimal.naturalDigits r.index → Text.isDecimal c :=
    isDecimal_of_mem_naturalDigits
  have hparts : (r.array.toList.isEmpty || (Decimal.naturalDigits r.index).isEmpty ||
      r.child.toList.isEmpty || r.child.toList.any isBracket) = false := by
    have hbrackets : r.child.toList.any isBracket = false :=
      List.any_eq_false.mpr fun c hc => by simpa using hchild.not_isBracket hc
    simp [harray.1, hchild.1, hbrackets, Decimal.naturalDigits]
  unfold parse?
  dsimp only
  rw [toList_qualify, takeWhile_append_cons (fun _ => harray.not_isBracket) (by decide),
    dropWhile_append_cons (fun _ => harray.not_isBracket) (by decide)]
  simp only [takeWhile_append_cons hdigits (show Text.isDecimal ']' = false by decide),
    dropWhile_append_cons hdigits (show Text.isDecimal ']' = false by decide)]
  rw [hparts, if_neg Bool.false_ne_true, whole_naturalDigits]
  cases isWritable r.index <;> simp [String.ofList_toList]

end RowRef

/-! ## Which cells can be exposed -/

section Exposed

variable {array : String} {i : Nat} {v : Value} {c : Context}

theorem exists_cellId_iff {child : Key} :
    (∃ id, cellId array i child = .ok id) ↔ child.isWritable := by
  unfold cellId
  cases child.isWritable with
  | true => exact ⟨fun _ => rfl, fun _ => ⟨_, rfl⟩⟩
  | false => exact ⟨fun ⟨_, h⟩ => (by cases h), fun h => (by cases h)⟩

theorem exists_rowCells_iff : (∃ es, rowCells array i v = .ok es) ↔
    ∀ cells, v = .mapping cells → ∀ e ∈ cells, e.1.isWritable := by
  cases v with
  | mapping cells =>
    have hcell (e : Key × Value) :
        (∃ b, (return (← cellId array i e.1, e.2) : Except Abort (String × Value)) = .ok b) ↔
          e.1.isWritable := exists_return_iff.trans exists_cellId_iff
    rw [rowCells, exists_mapM_iff]
    constructor
    · rintro h _ hcells e he
      obtain rfl := Value.mapping.inj hcells
      exact (hcell e).mp (h e he)
    · exact fun h e he => (hcell e).mpr (h cells rfl e he)
  | _ => exact ⟨fun _ cells hv => (by cases hv), fun _ => ⟨[], rfl⟩⟩

theorem exists_listCells_iff : (∃ es, listCells array v = .ok es) ↔
    ∀ rows, v = .list rows → ∀ cells, .mapping cells ∈ rows → ∀ e ∈ cells, e.1.isWritable := by
  cases v with
  | list rows =>
    have hrows : (∃ es, listCells array (.list rows) = .ok es) ↔
        ∃ ess, rows.zipIdx.mapM (fun e => rowCells array e.2 e.1) = .ok ess := exists_return_iff
    rw [hrows, exists_mapM_iff]
    constructor
    · rintro h _ hv cells hcells
      obtain rfl := Value.list.inj hv
      obtain ⟨i, hi⟩ := List.mem_iff_getElem?.mp hcells
      exact exists_rowCells_iff.mp
        (h (.mapping cells, i) (List.mem_zipIdx_iff_getElem?.mpr hi)) cells rfl
    · rintro h ⟨row, i⟩ hrow
      have hrow := List.mem_of_getElem? (List.mem_zipIdx_iff_getElem?.mp hrow)
      exact exists_rowCells_iff.mpr fun cells hcells => h rows rfl cells (hcells ▸ hrow)
  | _ => exact ⟨fun _ rows hv => (by cases hv), fun _ => ⟨[], rfl⟩⟩

/-- The cells of a context are exposed if all their keys can be written. -/
theorem exists_flattenRows_iff : (∃ flat, flattenRows c = .ok flat) ↔
    ∀ array rows, (array, .list rows) ∈ c.entries →
      ∀ cells, .mapping cells ∈ rows → ∀ e ∈ cells, e.1.isWritable := by
  have hlists : (∃ flat, flattenRows c = .ok flat) ↔
      ∃ lists, c.entries.mapM (fun e => listCells e.1 e.2) = .ok lists := exists_return_iff
  rw [hlists, exists_mapM_iff]
  constructor
  · exact fun h array rows harray => exists_listCells_iff.mp (h (array, .list rows) harray) rows rfl
  · rintro h ⟨array, v⟩ he
    exact exists_listCells_iff.mpr fun rows hv => h array rows (hv ▸ he)

end Exposed

/-! ## Cells and their ids -/

/-- A context whose cells all have ids of their own: its lists have names that can be parts of ids, and
the mappings in them have such names as keys, each once. -/
structure HasNamedCells (c : Context) : Prop where
  keys : c.keys.Nodup
  array : ∀ array rows, c.get? array = some (.list rows) → IsIdPart array
  children : ∀ array (rows : List Value) (i : Nat) cells, c.get? array = some (.list rows) →
    rows[i]? = some (.mapping cells) →
      (cells.map (·.1)).Nodup ∧ ∀ e ∈ cells, ∃ child, e.1 = .text child ∧ IsIdPart child

/-- The row of a context that is meant has this child. -/
def RowRef.IsCell (r : RowRef) (c : Context) (v : Value) : Prop :=
  ∃ rows cells, c.get? r.array = some (.list rows) ∧ rows[r.index]? = some (.mapping cells) ∧
    cells.lookup (.text r.child) = some v

section Cells

variable {c : Context} {r q : RowRef} {id : String} {v w : Value}

theorem HasNamedCells.isWritable (hc : HasNamedCells c) : ∀ array rows,
    (array, .list rows) ∈ c.entries →
      ∀ cells, .mapping cells ∈ rows → ∀ e ∈ cells, e.1.isWritable := by
  intro array rows harray cells hcells e he
  obtain ⟨i, hi⟩ := List.mem_iff_getElem?.mp hcells
  obtain ⟨child, hkey, -⟩ :=
    (hc.children array rows i cells (Table.get?_of_mem hc.keys harray) hi).2 e he
  rw [hkey]
  rfl

theorem RowRef.IsCell.isIdPart (h : r.IsCell c v) (hc : HasNamedCells c) :
    IsIdPart r.array ∧ IsIdPart r.child := by
  obtain ⟨rows, cells, harray, hrow, hchild⟩ := h
  obtain ⟨child, hkey, hpart⟩ := (hc.children _ _ _ _ harray hrow).2 _ (mem_of_lookup_text hchild)
  obtain rfl := Key.text.inj hkey
  exact ⟨hc.array _ _ harray, hpart⟩

theorem RowRef.IsCell.unique (hv : r.IsCell c v) (hw : r.IsCell c w) : v = w := by
  obtain ⟨rows, cells, harray, hrow, hchild⟩ := hv
  obtain ⟨rows', cells', harray', hrow', hchild'⟩ := hw
  obtain rfl : rows = rows' := by simpa using harray.symm.trans harray'
  obtain rfl : cells = cells' := by simpa using hrow.symm.trans hrow'
  exact Option.some.inj (hchild.symm.trans hchild')

/-- The cells that are exposed are those of the rows. -/
theorem cellOf_iff (hc : HasNamedCells c) :
    CellOf c id v ↔ ∃ r : RowRef, r.IsCell c v ∧ id = r.qualify r.child := by
  constructor
  · rintro ⟨array, rows, i, cells, key, harray, hrow, hcell, hid⟩
    have harray := Table.get?_of_mem hc.keys harray
    obtain ⟨hn, htext⟩ := hc.children _ _ _ _ harray hrow
    obtain ⟨child, rfl, -⟩ := htext _ hcell
    exact ⟨⟨array, i, child⟩, ⟨rows, cells, harray, hrow, lookup_text_of_mem hn hcell⟩,
      (Except.ok.inj hid).symm⟩
  · rintro ⟨r, ⟨rows, cells, harray, hrow, hchild⟩, rfl⟩
    exact ⟨r.array, rows, r.index, cells, .text r.child, Table.mem_of_get? harray, hrow,
      mem_of_lookup_text hchild, rfl⟩

/-- **Cells and ids correspond.** Every cell of a context is exposed under an id of its own, nothing
else is, and the id is read back as the cell. An index can be beyond reading only in a list of more
rows than there are numbers that can be written. -/
theorem flattenRows_bijective (hc : HasNamedCells c) :
    (∃ flat, flattenRows c = .ok flat ∧ flat.keys.Nodup ∧
      (∀ id v, (id, v) ∈ flat.entries ↔ ∃ r : RowRef, r.IsCell c v ∧ id = r.qualify r.child) ∧
      ∀ (r : RowRef) v, r.IsCell c v → flat.get? (r.qualify r.child) = some v) ∧
    (∀ (r q : RowRef) v w, r.IsCell c v → q.IsCell c w →
      r.qualify r.child = q.qualify q.child → r = q) ∧
    (∀ (r : RowRef) v, r.IsCell c v → RowRef.parse? (r.qualify r.child) =
      if isWritable r.index then .ok (some r) else .error .domain) ∧
    ∀ r : RowRef, IsIdPart r.array → IsIdPart r.child → RowRef.parse? (r.qualify r.child) =
      if isWritable r.index then .ok (some r) else .error .domain := by
  have hinj (r q : RowRef) v w (hr : r.IsCell c v) (hq : q.IsCell c w)
      (h : r.qualify r.child = q.qualify q.child) : r = q :=
    RowRef.qualify_inj (hr.isIdPart hc).1 (hq.isIdPart hc).1 h
  obtain ⟨flat, hflat⟩ := exists_flattenRows_iff.mpr hc.isWritable
  have hnodup : flat.keys.Nodup := by
    obtain ⟨lists, -, h⟩ := bind_eq_ok hflat
    obtain rfl := Except.ok.inj h
    exact Table.nodup_keys_merge (t := .empty) List.nodup_nil _
  have hmem (id : String) (v : Value) :
      (id, v) ∈ flat.entries ↔ ∃ r : RowRef, r.IsCell c v ∧ id = r.qualify r.child := by
    refine ⟨fun h => (cellOf_iff hc).mp (cellOf_of_mem hflat h), fun h => ?_⟩
    -- The id is bound; what it is bound to belongs to the same cell.
    obtain ⟨w, hw⟩ := Option.isSome_iff_exists.mp
      (get?_isSome_of_cellOf hflat ((cellOf_iff hc).mpr h))
    have hw := Table.mem_of_get? hw
    obtain ⟨r, hr, hid⟩ := h
    obtain ⟨q, hq, hid'⟩ := (cellOf_iff hc).mp (cellOf_of_mem hflat hw)
    obtain rfl := hinj r q v w hr hq (hid.symm.trans hid')
    rwa [hr.unique hq]
  refine ⟨⟨flat, hflat, hnodup, hmem, fun r v hr => ?_⟩, hinj, fun r v hr => ?_,
    fun r => RowRef.parse?_qualify⟩
  · exact Table.get?_of_mem hnodup ((hmem _ _).mpr ⟨r, hr, rfl⟩)
  · exact RowRef.parse?_qualify (hr.isIdPart hc).1 (hr.isIdPart hc).2

theorem flattenRows_bijective_order :
    let order : Context := ⟨[("items", .list [.text "Tea",
      .mapping [(.text "name", .text "Pot"), (.text "unit.price", .int 5)]]), ("count", .int 2)]⟩
    HasNamedCells order ∧ (∃ flat, flattenRows order = .ok flat ∧ flat.keys.Nodup ∧
      flat.get? "items[1].unit.price" = some (.int 5)) ∧
      RowRef.parse? "items[1].unit.price" = .ok (some ⟨"items", 1, "unit.price"⟩) := by
  intro order
  have hmem {array : String} {rows : List Value} (h : order.get? array = some (.list rows)) :
      array = "items" ∧ rows = [.text "Tea",
        .mapping [(.text "name", .text "Pot"), (.text "unit.price", .int 5)]] := by
    simpa [order] using Table.mem_of_get? h
  have hc : HasNamedCells order := by
    refine ⟨by decide, fun array rows h => ?_, fun array rows i cells h hrow => ?_⟩
    · rw [(hmem h).1, IsIdPart]
      decide
    · rw [(hmem h).2] at hrow
      have hcells := List.mem_of_getElem? hrow
      simp only [List.mem_cons, List.not_mem_nil, or_false, reduceCtorEq, false_or,
        Value.mapping.injEq] at hcells
      subst hcells
      refine ⟨by simp, fun e he => ?_⟩
      rcases List.mem_pair.mp he with rfl | rfl
      · exact ⟨"name", rfl, by rw [IsIdPart]; decide⟩
      · exact ⟨"unit.price", rfl, by rw [IsIdPart]; decide⟩
  obtain ⟨⟨flat, hflat, hnodup, -, hget⟩, -, hparse, -⟩ := flattenRows_bijective hc
  have hcell : RowRef.IsCell ⟨"items", 1, "unit.price"⟩ order (.int 5) :=
    ⟨_, _, rfl, rfl, rfl⟩
  refine ⟨hc, ⟨flat, hflat, hnodup, hget _ _ hcell⟩, (hparse _ _ hcell).trans ?_⟩
  rw [if_pos]
  decide +kernel

end Cells

end LiveForm
