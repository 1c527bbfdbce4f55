import LiveForm.Proofs.Row.Update
import LiveForm.Proofs.Store

/-! # Rows of shared objects

A list of rows is an object that others may hold as well, the one who entered it first of all. So the
scope of a row is a copy of the context, and a value is written back into copies of the list and of the
row. Done in this way on a store of objects, both come to the values that they are defined to be, and
leave every object that was there as it was; writing back changes the context, and nothing else. -/

namespace LiveForm

/-- A context as a value. -/
def Context.toValue (c : Context) : Value := .ofMapping (Mapping.ofContext c)

namespace Store

/-- The list of a row and the cells of the row, in the context at an address. -/
def row? (s : Store) (r : RowRef) (context : Address) :
    Option (List Address × List (Key × Address)) := do
  let names ← s.entries? context
  let rows ← names.lookup (.text r.array)
  let items ← s.items? rows
  let row ← items[r.index]?
  let cells ← s.entries? row
  return (items, cells)

/-- Copies the context at an address and binds the siblings of the row in the copy. -/
def scope (s : Store) (r : RowRef) (context : Address) : Address × Store :=
  let names := (s.entries? context).getD []
  let (scope, t) := s.alloc (.mapping names)
  let t := match s.row? r context with
    | some (_, cells) => cells.foldl (fun t (k, part) => t.put scope k part) t
    | none => t
  (scope, names.foldl (fun t (k, part) =>
    match k.text?.bind r.sibling? with
    | some name => t.put scope (.text name) part
    | none => t) t)

/-- Copies a list, and into the copy its row with a value in the cell. -/
def copyRows (s : Store) (r : RowRef) (value : Address) (items : List Address)
    (cells : List (Key × Address)) : Address × Store :=
  let (rows, t) := s.alloc (.list items)
  let (row, t) := t.alloc (.mapping (Table.put (.text r.child) value cells))
  (rows, t.set rows (.list (items.set r.index row)))

/-- Stores the copy of the list in the context at an address. -/
def writeBack (s : Store) (r : RowRef) (value context : Address) : Store :=
  match s.row? r context with
  | some (items, cells) =>
    let (rows, t) := s.copyRows r value items cells
    t.put context (.text r.array) rows
  | none => s

variable {s t : Store} {r : RowRef} {c : Context} {context value a b : Address} {v : Value}
  {m : Mapping} {entries : List (Key × Address)} {cells : List (Key × Value)}

theorem exists_row? (h : s.Holds context c.toValue) {rows : List Value}
    (hrow : r.row? c = some (rows, cells)) : ∃ items parts, s.row? r context = some (items, parts) ∧
      s.HoldsItems items rows ∧ s.HoldsEntries parts cells := by
  obtain ⟨hrows, hcells⟩ := RowRef.row?_eq_some.mp hrow
  rw [← Mapping.get?_ofContext] at hrows
  obtain ⟨names, hnames, hs⟩ := h.entries?
  obtain ⟨-, hnone⟩ | ⟨b, v, hb, hv, hlist⟩ := hs.lookup (.text r.array)
  · cases hrows.symm.trans hnone
  · obtain rfl := Option.some.inj (hrows.symm.trans hv)
    obtain ⟨items, hitems, hs⟩ := hlist.items?
    obtain ⟨-, hnone⟩ | ⟨d, u, hd, hu, hmapping⟩ := hs.getElem? r.index
    · cases hcells.symm.trans hnone
    · obtain rfl := Option.some.inj (hcells.symm.trans hu)
      obtain ⟨parts, hparts, hentries⟩ := hmapping.entries?
      exact ⟨items, parts, by simp [row?, hnames, hb, hitems, hd, hparts], hs, hentries⟩

theorem exists_row?_of_store (h : s.Holds context c.toValue)
    {items : List Address} (hrow : s.row? r context = some (items, entries)) :
    ∃ rows cells, r.row? c = some (rows, cells) := by
  obtain ⟨names, hnames, hrow⟩ := Option.bind_eq_some_iff.mp hrow
  obtain ⟨b, hb, hrow⟩ := Option.bind_eq_some_iff.mp hrow
  obtain ⟨items', hitems, hrow⟩ := Option.bind_eq_some_iff.mp hrow
  obtain ⟨d, hd, hrow⟩ := Option.bind_eq_some_iff.mp hrow
  obtain ⟨entries', hentries, -⟩ := Option.bind_eq_some_iff.mp hrow
  obtain ⟨names', hnames', hs⟩ := h.entries?
  obtain rfl := Option.some.inj (hnames.symm.trans hnames')
  obtain ⟨hnone, -⟩ | ⟨b', v, hb', hv, hlist⟩ := hs.lookup (.text r.array)
  · cases hb.symm.trans hnone
  · obtain rfl := Option.some.inj (hb.symm.trans hb')
    obtain ⟨rows, rfl⟩ := hlist.exists_list hitems
    obtain ⟨items'', hitems', hs⟩ := hlist.items?
    obtain rfl := Option.some.inj (hitems.symm.trans hitems')
    obtain ⟨hnone, -⟩ | ⟨d', u, hd', hu, hmapping⟩ := hs.getElem? r.index
    · cases hd.symm.trans hnone
    · obtain rfl := Option.some.inj (hd.symm.trans hd')
      obtain ⟨cells, rfl⟩ := hmapping.exists_mapping hentries
      exact ⟨rows, cells, RowRef.row?_eq_some.mpr
        ⟨(Mapping.get?_ofContext c r.array).symm.trans hv, hu⟩⟩

theorem row?_eq_none (h : s.Holds context c.toValue) (hrow : r.row? c = none) :
    s.row? r context = none := by
  by_contra hsome
  obtain ⟨⟨items, parts⟩, hsome⟩ := Option.ne_none_iff_exists'.mp hsome
  obtain ⟨rows, cells, hrow'⟩ := exists_row?_of_store h hsome
  cases hrow.symm.trans hrow'

/-! ## Scopes -/

/-- A copy that is written to: the objects from before are as they were, and all its parts are among
them. -/
structure Draft (s t : Store) (a : Address) (cells : List (Key × Value)) : Prop where
  keeps : s.Keeps t
  fresh : s.get? a = none
  parts : ∃ entries, t.entries? a = some entries ∧ s.HoldsEntries entries cells

theorem draft_alloc (h : s.HoldsEntries entries cells) :
    Draft s (s.alloc (.mapping entries)).2 (s.alloc (.mapping entries)).1 cells :=
  ⟨(Keeps.refl s).alloc _, get?_alloc_fresh s _, entries, by rw [entries?, get?_alloc_self], h⟩

theorem Draft.put (h : Draft s t a cells) (k : Key) (hv : s.Holds b v) :
    Draft s (t.put a k b) a (Table.put k v cells) := by
  obtain ⟨entries, hentries, hs⟩ := h.parts
  exact ⟨h.keeps.put h.fresh k b, h.fresh, Table.put k b entries, entries?_put_self hentries k b,
    hs.put k hv⟩

theorem Draft.holds (h : Draft s t a cells) : t.Holds a (.mapping cells) := by
  obtain ⟨entries, hentries, hs⟩ := h.parts
  exact .mapping (get?_of_entries? hentries) (hs.keep h.keeps)

theorem Draft.merge (h : Draft s t a m.entries) (hs : s.HoldsEntries entries cells) :
    Draft s (entries.foldl (fun t (k, part) => t.put a k part) t) a (m.merge ⟨cells⟩).entries := by
  induction entries generalizing t m cells with
  | nil =>
    cases hs
    exact h
  | cons e rest ih =>
    cases hs with
    | @cons k part v _ cells hv hs => exact ih (m := m.insert k v) (h.put k hv) hs

theorem Draft.siblings {es : List (String × Value)} (h : Draft s t a m.entries)
    (hs : s.HoldsEntries entries (es.map fun (x, v) => (Key.text x, v))) :
    Draft s (entries.foldl (fun t (k, part) =>
        match k.text?.bind r.sibling? with
        | some name => t.put a (.text name) part
        | none => t) t) a
      (es.foldl (fun m (key, v) =>
        match r.sibling? key with
        | some name => m.insert (.text name) v
        | none => m) m).entries := by
  induction es generalizing t m entries with
  | nil =>
    cases hs
    exact h
  | cons e rest ih =>
    obtain ⟨x, v⟩ := e
    cases hs with
    | @cons _ part _ names _ hv hs =>
      rw [List.foldl_cons, List.foldl_cons]
      refine ih ?_ hs
      dsimp only [Key.text?, Option.bind_some]
      cases r.sibling? x with
      | none => exact h
      | some name => exact h.put (.text name) hv

/-- **The scope of a row is a copy.** It holds what it is defined to be, and everything else stays as it
was, the context included. -/
theorem draft_scope (h : s.Holds context c.toValue) :
    Draft s (s.scope r context).2 (s.scope r context).1 (r.scope c).entries := by
  obtain ⟨names, hnames, hs⟩ := h.entries?
  have hcopy : Draft s _ _ (Mapping.ofContext c).entries := draft_alloc hs
  unfold scope RowRef.scope
  dsimp only
  rw [hnames, Option.getD_some]
  have hbindings : s.HoldsEntries names (c.entries.map fun (x, v) => (Key.text x, v)) := hs
  refine Draft.siblings ?_ hbindings
  cases hrow : r.row? c with
  | none =>
    rw [row?_eq_none h hrow]
    exact hcopy
  | some row =>
    obtain ⟨rows, cells⟩ := row
    obtain ⟨items, parts, hsome, -, hparts⟩ := exists_row? h hrow
    rw [hsome]
    exact hcopy.merge hparts

/-! ## Writing back -/

/-- The list and the row are new objects. -/
theorem exists_copyRows (s : Store) (r : RowRef) (value : Address) (items : List Address)
    (cells : List (Key × Address)) : ∃ rows row t, s.copyRows r value items cells = (rows, t) ∧
      s.Keeps t ∧ s.get? rows = none ∧
      t.get? rows = some (.list (items.set r.index row)) ∧
      t.get? row = some (.mapping (Table.put (.text r.child) value cells)) ∧ s.get? row = none := by
  obtain ⟨rows, t, hrows, hkeep, hfresh, hlist⟩ := s.exists_alloc (.list items)
  obtain ⟨row, u, hrow, hkeep', hfresh', hmapping⟩ :=
    t.exists_alloc (.mapping (Table.put (.text r.child) value cells))
  have hsome : (u.get? rows).isSome := by rw [hkeep' rows _ hlist]; rfl
  refine ⟨rows, row, u.set rows (.list (items.set r.index row)), ?_,
    Keeps.set (fun b o hb => hkeep' b o (hkeep b o hb)) hfresh _, hfresh, get?_set_self hsome, ?_,
    hkeep.get?_eq_none hfresh'⟩
  · rw [copyRows, hrows]
    dsimp only
    rw [hrow]
  · exact (get?_set_of_ne (ne_of_fresh hfresh' hlist).symm).trans hmapping

/-- What writing back makes: a row, a list with this row, and the context with this list. Nothing else
is written. -/
theorem exists_written {names : List (Key × Address)} {items : List Address}
    (hcontext : s.get? context = some (.mapping names)) (hrow : s.row? r context = some (items, entries))
    (value : Address) : ∃ rows row o,
      (s.writeBack r value context).get? row = some (.mapping (Table.put (.text r.child) value entries)) ∧
      (s.writeBack r value context).get? rows = some (.list (items.set r.index row)) ∧
      (s.writeBack r value context).get? context =
        some (.mapping (Table.put (.text r.array) rows names)) ∧
      (s.set context o).Keeps (s.writeBack r value context) := by
  obtain ⟨rows, row, t, hcopy, hkeep, hfresh, hlist, hmapping, hfresh'⟩ :=
    s.exists_copyRows r value items entries
  have hkept : t.entries? context = some names := by rw [entries?, hkeep _ _ hcontext]
  have hwritten : s.writeBack r value context =
      t.set context (.mapping (Table.put (.text r.array) rows names)) := by
    rw [writeBack, hrow]
    dsimp only
    rw [hcopy, put, hkept]
  rw [hwritten]
  exact ⟨rows, row, _, (get?_set_of_ne (ne_of_fresh hfresh' hcontext).symm).trans hmapping,
    (get?_set_of_ne (ne_of_fresh hfresh hcontext).symm).trans hlist,
    get?_set_self (by rw [hkeep _ _ hcontext]; rfl), hkeep.set_set hcontext _⟩

theorem get?_of_row? {items : List Address} (hrow : s.row? r context = some (items, entries)) :
    ∃ names, s.get? context = some (.mapping names) := by
  obtain ⟨names, hnames, -⟩ := Option.bind_eq_some_iff.mp hrow
  exact ⟨names, get?_of_entries? hnames⟩

/-- **Writing back changes the context and nothing else.** -/
theorem get?_writeBack_of_ne {o : Object} (h : a ≠ context) (ha : s.get? a = some o) :
    (s.writeBack r value context).get? a = some o := by
  cases hrow : s.row? r context with
  | none =>
    rw [writeBack, hrow]
    exact ha
  | some row =>
    obtain ⟨names, hcontext⟩ := get?_of_row? hrow
    obtain ⟨-, -, p, -, -, -, hkeep⟩ := exists_written hcontext hrow value
    exact hkeep a o ((get?_set_of_ne h).trans ha)

theorem sizeOf_get? {x : String} (h : c.get? x = some v) : sizeOf v < sizeOf c.toValue := by
  rw [← Mapping.get?_ofContext] at h
  have hlt := List.sizeOf_lt_of_mem (mem_of_lookup_text h)
  simp only [Context.toValue, Value.ofMapping, Value.mapping.sizeOf_spec, Prod.mk.sizeOf_spec]
    at hlt ⊢
  omega

theorem sizeOf_row {rows : List Value} {i : Nat} {row : Value} (h : rows[i]? = some row) :
    sizeOf row < sizeOf (Value.list rows) := by
  have hlt := List.sizeOf_lt_of_mem (List.mem_of_getElem? h)
  rw [Value.list.sizeOf_spec]
  omega

/-- **The context then holds what writing back is defined to be.** The value has to be held whatever
becomes of the context, as it would not be if the context were a part of it. -/
theorem holds_writeBack (h : s.Holds context c.toValue)
    (hv : ∀ o, (s.set context o).Holds value v) :
    (s.writeBack r value context).Holds context (r.writeBack v c).toValue := by
  cases hrow : r.row? c with
  | none =>
    rw [writeBack, row?_eq_none h hrow, RowRef.writeBack_of_row?_eq_none hrow]
    exact h
  | some row =>
    obtain ⟨rowValues, cells⟩ := row
    obtain ⟨items, parts, hsome, hitems, hparts⟩ := exists_row? h hrow
    obtain ⟨names, hnames, hs⟩ := h.entries?
    obtain ⟨rows, row, o, hmapping, hlist, hself, hkeep⟩ :=
      exists_written (get?_of_entries? hnames) hsome value
    -- What was held before, and is smaller than the context, is held in the end.
    obtain ⟨hrows, hcells⟩ := RowRef.row?_eq_some.mp hrow
    have hrows := sizeOf_get? hrows
    have hcells := Nat.lt_trans (sizeOf_row hcells) hrows
    rw [Value.list.sizeOf_spec] at hrows
    rw [Value.mapping.sizeOf_spec] at hcells
    have hnames := (hs.set_of_lt h (by simp [Context.toValue, Value.ofMapping]) o).keep hkeep
    have hitems := (hitems.set_of_lt h (by omega) o).keep hkeep
    have hparts := (hparts.set_of_lt h (by omega) o).keep hkeep
    have hvalue := (hv o).keep hkeep
    -- The row, the list and the context hold what was written into them.
    have hholds := Holds.list hlist
      (hitems.set r.index (.mapping hmapping (hparts.put (.text r.child) hvalue)))
    have hfinal := Holds.mapping hself (hnames.put (.text r.array) hholds)
    rw [RowRef.writeBack_of_row? hrow, Context.toValue, Mapping.ofContext_insert]
    exact hfinal

/-- What is held next to the context and is smaller than it, such as its lists and their rows, is held
as before. -/
theorem holds_writeBack_of_lt {w : Value} (h : s.Holds context c.toValue)
    (hlt : sizeOf w < sizeOf c.toValue) (hw : s.Holds b w) :
    (s.writeBack r value context).Holds b w := by
  refine hw.transport fun d u hle hd => ?_
  obtain ⟨o, ho⟩ := hd.exists_get?
  have hne : d ≠ context := ne_of_sizeOf_lt hd h (Nat.lt_of_le_of_lt hle hlt)
  exact (get?_writeBack_of_ne hne ho).trans ho.symm

end Store

/-! ## The laws of writing back -/

namespace RowRef

/-- What has become of a context once a value is written into the cell of one of its rows. -/
structure Updated (r : RowRef) (v : Value) (rows : List Value) (cells : List (Key × Value))
    (c c' : Context) (rows' : List Value) (cells' : List (Key × Value)) : Prop where
  list : c'.get? r.array = some (.list rows')
  length_eq : rows'.length = rows.length
  row : rows'[r.index]? = some (.mapping cells')
  cell : cells'.lookup (.text r.child) = some v
  otherCell : ∀ k, k ≠ .text r.child → cells'.lookup k = cells.lookup k
  otherCells : cells'.filter (fun e => !(.text r.child == e.1)) =
    cells.filter fun e => !(.text r.child == e.1)
  otherRow : ∀ i, i ≠ r.index → rows'[i]? = rows[i]?
  other : ∀ x, x ≠ r.array → c'.get? x = c.get? x
  keys : c'.keys = c.keys

/-- What stays as it was on shared objects when a value is written back: every object but the context,
and so the list and the row that the context held before. -/
structure LeavesShared (r : RowRef) (c : Context) (s t : Store) (context : Address) : Prop where
  object : ∀ a o, a ≠ context → s.get? a = some o → t.get? a = some o
  list : ∀ rows a, c.get? r.array = some (.list rows) → s.Holds a (.list rows) → t.Holds a (.list rows)
  row : ∀ rows cells a, c.get? r.array = some (.list rows) → rows[r.index]? = some (.mapping cells) →
    s.Holds a (.mapping cells) → t.Holds a (.mapping cells)

variable {r : RowRef} {c : Context} {v : Value} {rows : List Value} {cells : List (Key × Value)}

theorem updated_writeBack (hrows : c.get? r.array = some (.list rows))
    (hcells : rows[r.index]? = some (.mapping cells)) :
    r.Updated v rows cells c (r.writeBack v c) (r.writeCell v rows)
      (Table.put (.text r.child) v cells) where
  list := get?_writeBack_self hrows
  length_eq := length_writeCell
  row := getElem?_writeCell_self hcells
  cell := lookup_put_text_self _ _ _
  otherCell k hk := lookup_put_text_of_ne _ _ _ hk
  otherCells := filter_put_text _ _ _
  otherRow i hi := getElem?_writeCell_of_ne hi
  other x hx := get?_writeBack_of_ne hx
  keys := by
    rw [writeBack_of_list hrows, Table.keys_insert_of_mem (Table.mem_keys_of_get? hrows)]

theorem leavesShared_writeBack {s : Store} {context : Address} (h : s.Holds context c.toValue)
    (value : Address) : r.LeavesShared c s (s.writeBack r value context) context where
  object _ _ hne ha := Store.get?_writeBack_of_ne hne ha
  list _ _ hrows hlist := Store.holds_writeBack_of_lt h (Store.sizeOf_get? hrows) hlist
  row _ _ _ hrows hcells hmapping := Store.holds_writeBack_of_lt h
    (Nat.lt_trans (Store.sizeOf_row hcells) (Store.sizeOf_get? hrows)) hmapping

/-- **Writing back is a lawful update.** The value stands in its cell and everything else is as it was;
without the cell's row nothing is written. The last of two writes to a cell stands, and writes to two
cells can change places up to the order of cells. On shared objects the context comes to hold just that,
with what it held before left alone. -/
theorem writeBack_lawful (r : RowRef) (c : Context) :
    (∀ v rows cells, c.get? r.array = some (.list rows) → rows[r.index]? = some (.mapping cells) →
      ∃ rows' cells', r.Updated v rows cells c (r.writeBack v c) rows' cells') ∧
    (∀ v, (∀ rows cells, c.get? r.array = some (.list rows) →
      rows[r.index]? ≠ some (.mapping cells)) → r.writeBack v c = c) ∧
    (∀ v w, r.writeBack w (r.writeBack v c) = r.writeBack w c) ∧
    (∀ q v w, q ≠ r →
      SameUpToOrder (r.writeBack v (q.writeBack w c)) (q.writeBack w (r.writeBack v c))) ∧
    ∀ (s : Store) context value, s.Holds context c.toValue →
      r.LeavesShared c s (s.writeBack r value context) context ∧
      ∀ v, (∀ o, (s.set context o).Holds value v) →
        (s.writeBack r value context).Holds context (r.writeBack v c).toValue := by
  refine ⟨fun v rows cells hrows hcells => ⟨_, _, updated_writeBack hrows hcells⟩, fun v h => ?_,
    fun v w => writeBack_writeBack r v w c, fun q v w h => writeBack_comm h v w c,
    fun s context value h => ⟨leavesShared_writeBack h value, fun v hv => Store.holds_writeBack h hv⟩⟩
  refine writeBack_of_row?_eq_none (Option.eq_none_iff_forall_ne_some.mpr fun row hrow => ?_)
  obtain ⟨hrows, hcells⟩ := row?_eq_some.mp hrow
  exact h _ _ hrows hcells

theorem writeBack_lawful_total :
    let total : RowRef := ⟨"items", 0, "total"⟩
    let absent : RowRef := ⟨"items", 1, "total"⟩
    let row : List (Key × Value) := [(.text "price", .int 5)]
    let c : Context := ⟨[("items", .list [.mapping row])]⟩
    let s : Store := ⟨[.scalar (.int 5), .mapping [(.text "price", 0)], .list [1],
      .mapping [(.text "items", 2)], .scalar (.int 10)]⟩
    (∃ rows' cells', total.Updated (.int 10) [.mapping row] row c (total.writeBack (.int 10) c)
      rows' cells') ∧
    absent.writeBack (.int 10) c = c ∧
    SameUpToOrder (total.writeBack (.int 10) (absent.writeBack (.int 7) c))
      (absent.writeBack (.int 7) (total.writeBack (.int 10) c)) ∧
    s.Holds 3 c.toValue ∧
    (s.writeBack total 4 3).Holds 3 (total.writeBack (.int 10) c).toValue ∧
    (s.writeBack total 4 3).Holds 2 (.list [.mapping row]) := by
  intro total absent row c s
  have hlist : s.Holds 2 (.list [.mapping row]) :=
    .list rfl (.cons (.mapping rfl (.cons (.scalar (k := .int 5) rfl) .nil)) .nil)
  have hcontext : s.Holds 3 c.toValue := .mapping rfl (.cons hlist .nil)
  have hvalue (o : Object) : (s.set 3 o).Holds 4 (.int 10) := .scalar (k := .int 10) rfl
  obtain ⟨hupdated, -, -, hcomm, hshared⟩ := writeBack_lawful total c
  obtain ⟨hleaves, hholds⟩ := hshared s 3 4 hcontext
  have habsent := (writeBack_lawful absent c).2.1 (.int 10) fun rows cells hrows => by
    obtain rfl := Value.list.inj (Option.some.inj hrows)
    exact Option.some_ne_none _ ∘ Eq.symm
  exact ⟨hupdated _ _ _ rfl rfl, habsent, hcomm absent _ _ (by decide), hcontext, hholds _ hvalue,
    hleaves.list _ 2 rfl hlist⟩

end RowRef

end LiveForm
