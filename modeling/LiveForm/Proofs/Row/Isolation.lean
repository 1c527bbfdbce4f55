import LiveForm.Proofs.Row.Ids
import LiveForm.Proofs.Row.Shared
import LiveForm.Proofs.RowScope

/-! # Rows do not see each other

The scope of a row binds a local name to what the pass has for the cell, or else to the entered cell, or
else to what the context has under the name. None of these is a cell of another row: the id of a row
determines its index, so an id of row 10 is none of row 1, and no local name is an id of a row. What
another row holds therefore makes no difference, except to whoever reads the array itself. -/

namespace LiveForm.RowRef

variable {r : RowRef} {c d : Context} {n : String}

/-- What a local name is bound to in a row, by the three places that are looked at in turn. -/
structure Layered (r : RowRef) (c : Context) (n : String) (bound : Option Value) : Prop where
  computed : ∀ v, c.get? (r.qualify n) = some v → bound = some v
  entered : c.get? (r.qualify n) = none → ∀ (rows : List Value) cells v,
    c.get? r.array = some (.list rows) → rows[r.index]? = some (.mapping cells) →
      cells.lookup (.text n) = some v → bound = some v
  outside : c.get? (r.qualify n) = none → (∀ (rows : List Value) cells,
    c.get? r.array = some (.list rows) → rows[r.index]? = some (.mapping cells) →
      cells.lookup (.text n) = none) → bound = c.get? n

/-- No key stands twice in the context, nor in the row of it that is meant. -/
structure HasDistinctKeys (r : RowRef) (c : Context) : Prop where
  keys : c.keys.Nodup
  row : ∀ (rows : List Value) cells, c.get? r.array = some (.list rows) →
    rows[r.index]? = some (.mapping cells) → (cells.map (·.1)).Nodup

/-- Contexts that differ at most in other rows of the array: in items of the list, and under ids that
begin like those of such a row. -/
structure SameButOtherRows (r : RowRef) (c d : Context) : Prop where
  array : d.get? r.array = c.get? r.array ∨ ∃ rows rows', c.get? r.array = some (.list rows) ∧
    d.get? r.array = some (.list rows') ∧ rows'[r.index]? = rows[r.index]?
  other : ∀ x, x ≠ r.array →
    (∀ j rest, j ≠ r.index → x ≠ RowRef.qualify { r with index := j } rest) → d.get? x = c.get? x

theorem get?_scope_of_distinct (hc : r.HasDistinctKeys c) (hn : isLocalName n) :
    (r.scope c).get? (.text n) = (r.cell? c n).or (c.get? n) :=
  get?_scope hc.keys (fun rows cells hrow =>
    let ⟨hrows, hcells⟩ := row?_eq_some.mp hrow
    hc.row rows cells hrows hcells) hn

theorem layered_cell? (r : RowRef) (c : Context) (n : String) :
    r.Layered c n ((r.cell? c n).or (c.get? n)) where
  computed v hv := by rw [cell?, hv, Option.some_or, Option.some_or]
  entered hnone rows cells v hrows hcells hv := by
    rw [cell?, hnone, row?_eq_some.mpr ⟨hrows, hcells⟩, Option.none_or, Option.bind_some, hv,
      Option.some_or]
  outside hnone hrow := by
    have hcell : (r.row? c).bind (fun row => row.2.lookup (.text n)) = none := by
      cases h : r.row? c with
      | none => rfl
      | some row =>
        obtain ⟨hrows, hcells⟩ := row?_eq_some.mp h
        exact hrow row.1 row.2 hrows hcells
    rw [cell?, hnone, hcell, Option.none_or, Option.none_or]

/-! ## Other rows -/

theorem qualify_ne_array (r : RowRef) (n : String) : r.qualify n ≠ r.array := by
  intro h
  have hlength := congrArg (fun s => s.toList.length) h
  simp [toList_qualify] at hlength

/-- A local name is no id of a row. -/
theorem ne_qualify_of_isLocalName (hn : isLocalName n) (q : RowRef) (rest : String) :
    n ≠ q.qualify rest := by
  rintro rfl
  exact (isLocalName_iff.mp hn).2 (by simp [toList_qualify])

theorem SameButOtherRows.get?_qualify (h : r.SameButOtherRows c d) (n : String) :
    d.get? (r.qualify n) = c.get? (r.qualify n) := by
  refine h.other _ (r.qualify_ne_array n) fun j rest hj heq => ?_
  exact hj (index_eq_of_qualify (r := r) (q := { r with index := j }) rfl heq).1.symm

theorem SameButOtherRows.get?_local (h : r.SameButOtherRows c d) (hn : isLocalName n)
    (hne : n ≠ r.array) : d.get? n = c.get? n :=
  h.other n hne fun _ rest _ => ne_qualify_of_isLocalName hn _ rest

theorem SameButOtherRows.row? (h : r.SameButOtherRows c d) (n : String) :
    ((r.row? d).bind fun row => row.2.lookup (.text n)) =
      (r.row? c).bind fun row => row.2.lookup (.text n) := by
  unfold RowRef.row?
  obtain hsame | ⟨rows, rows', hrows, hrows', hrow⟩ := h.array
  · rw [hsame]
  · rw [hrows, hrows']
    dsimp only
    rw [hrow]
    cases rows[r.index]? with
    | none => rfl
    | some row => cases row <;> rfl

theorem SameButOtherRows.cell? (h : r.SameButOtherRows c d) (n : String) :
    r.cell? d n = r.cell? c n := by
  rw [RowRef.cell?, RowRef.cell?, h.get?_qualify, h.row?]

/-- **The scope of a row is right, a copy, and the row's own.** Every local name is bound by its cell
first; the copy leaves every object as it was, the context among them; and contexts that differ only in
other rows give scopes that differ in no local name but the array's. -/
theorem scope_isolated (r : RowRef) (c : Context) (hc : r.HasDistinctKeys c) :
    (∀ n, isLocalName n → r.Layered c n ((r.scope c).get? (.text n))) ∧
    (∀ (s : Store) context, s.Holds context c.toValue →
      (s.scope r context).2.Holds (s.scope r context).1 (.ofMapping (r.scope c)) ∧
      s.Keeps (s.scope r context).2 ∧ (s.scope r context).2.Holds context c.toValue) ∧
    ∀ d, r.HasDistinctKeys d → r.SameButOtherRows c d → ∀ n, isLocalName n → n ≠ r.array →
      (r.scope d).get? (.text n) = (r.scope c).get? (.text n) := by
  refine ⟨fun n hn => ?_, fun s context h => ?_, fun d hd h n hn hne => ?_⟩
  · rw [get?_scope_of_distinct hc hn]
    exact r.layered_cell? c n
  · have hdraft := Store.draft_scope (r := r) h
    exact ⟨hdraft.holds, hdraft.keeps, h.keep hdraft.keeps⟩
  · rw [get?_scope_of_distinct hd hn, get?_scope_of_distinct hc hn, h.cell?, h.get?_local hn hne]

theorem scope_isolated_quantity :
    let r : RowRef := ⟨"items", 0, "total"⟩
    let item (quantity : Int) : List (Key × Value) := [(.text "quantity", .int quantity)]
    let c : Context := ⟨[("items", .list [.mapping (item 2), .mapping (item 3)]),
      ("items[1].price", .int 5), ("rate", .int 7)]⟩
    let d : Context := ⟨[("items", .list [.mapping (item 2), .mapping (item 4)]),
      ("items[1].price", .int 6), ("rate", .int 7)]⟩
    let s : Store := ⟨[.scalar (.int 2), .mapping [(.text "quantity", 0)], .scalar (.int 3),
      .mapping [(.text "quantity", 2)], .list [1, 3], .scalar (.int 5), .scalar (.int 7),
      .mapping [(.text "items", 4), (.text "items[1].price", 5), (.text "rate", 6)]]⟩
    r.HasDistinctKeys c ∧ r.HasDistinctKeys d ∧ r.SameButOtherRows c d ∧
      (r.scope c).get? (.text "quantity") = some (.int 2) ∧
      (r.scope d).get? (.text "quantity") = (r.scope c).get? (.text "quantity") ∧
      (s.scope r 7).2.Holds 7 c.toValue := by
  intro r item c d s
  have hrow (quantity : Int) : ((item quantity).map (·.1)).Nodup := List.nodup_singleton _
  have hc : r.HasDistinctKeys c := by
    refine ⟨by decide, fun rows cells hrows hcells => ?_⟩
    obtain rfl := Value.list.inj (Option.some.inj hrows)
    obtain rfl := Value.mapping.inj (Option.some.inj hcells)
    exact hrow 2
  have hd : r.HasDistinctKeys d := by
    refine ⟨by decide, fun rows cells hrows hcells => ?_⟩
    obtain rfl := Value.list.inj (Option.some.inj hrows)
    obtain rfl := Value.mapping.inj (Option.some.inj hcells)
    exact hrow 2
  have hsame : r.SameButOtherRows c d := by
    refine ⟨.inr ⟨_, _, rfl, rfl, rfl⟩, fun x hx hother => ?_⟩
    have hid : RowRef.qualify ⟨"items", 1, "total"⟩ "price" = "items[1].price" := by decide +kernel
    have hprice : x ≠ "items[1].price" := hid ▸ hother 1 "price" (by decide)
    have hx : x ≠ "items" := hx
    simp only [c, d, Table.get?, List.lookup_cons, beq_false_of_ne hx, beq_false_of_ne hprice]
  have hcontext : s.Holds 7 c.toValue :=
    have hitem {a b : Address} {quantity : Int} (ha : s.get? a = some (.mapping [(.text "quantity", b)]))
        (hb : s.get? b = some (.scalar (.int quantity))) : s.Holds a (.mapping (item quantity)) :=
      .mapping ha (.cons (.scalar hb) .nil)
    .mapping rfl (.cons (.list rfl (.cons (hitem rfl rfl) (.cons (hitem rfl rfl) .nil)))
      (.cons (.scalar (k := .int 5) rfl) (.cons (.scalar (k := .int 7) rfl) .nil)))
  obtain ⟨hlayers, hcopy, hisolated⟩ := scope_isolated r c hc
  refine ⟨hc, hd, hsame, ?_, hisolated d hd hsame "quantity" (by decide) (by decide),
    (hcopy s 7 hcontext).2.2⟩
  have hid : r.qualify "quantity" = "items[0].quantity" := by decide +kernel
  exact (hlayers "quantity" (by decide)).entered (by rw [hid]; rfl) _ _ _ rfl rfl rfl

end LiveForm.RowRef
