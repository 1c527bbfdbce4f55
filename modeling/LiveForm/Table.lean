/-! Tables that remember the order in which keys first came. Writing to a key that is present keeps
its place and its first spelling; a new key goes to the end. Lookup finds what was written last. -/

namespace LiveForm

structure Table (κ α : Type) where
  entries : List (κ × α) := []

namespace Table

variable {κ α β : Type}

def empty : Table κ α := ⟨[]⟩

instance : Inhabited (Table κ α) := ⟨empty⟩

def keys (t : Table κ α) : List κ := t.entries.map (·.1)

def size (t : Table κ α) : Nat := t.entries.length

def isEmpty (t : Table κ α) : Bool := t.entries.isEmpty

def mapKeys {ι : Type} (f : κ → ι) (t : Table κ α) : Table ι α :=
  ⟨t.entries.map fun (k, v) => (f k, v)⟩

def mapValues (f : α → β) (t : Table κ α) : Table κ β :=
  ⟨t.entries.map fun (k, v) => (k, f v)⟩

@[simp] theorem keys_mapValues (f : α → β) (t : Table κ α) : (t.mapValues f).keys = t.keys := by
  simp [mapValues, keys, Function.comp_def]

variable [BEq κ]

def get? (t : Table κ α) (k : κ) : Option α := t.entries.lookup k

def contains (t : Table κ α) (k : κ) : Bool := (t.get? k).isSome

def put (k : κ) (v : α) : List (κ × α) → List (κ × α)
  | [] => [(k, v)]
  | (j, w) :: rest => if k == j then (j, v) :: rest else (j, w) :: put k v rest

def insert (t : Table κ α) (k : κ) (v : α) : Table κ α := ⟨put k v t.entries⟩

/-- Writes the key only when it is absent. -/
def insertNew (t : Table κ α) (k : κ) (v : α) : Table κ α :=
  if t.contains k then t else t.insert k v

def erase (t : Table κ α) (k : κ) : Table κ α := ⟨t.entries.filter fun e => !(k == e.1)⟩

def modify (t : Table κ α) (k : κ) (f : α → α) : Table κ α :=
  ⟨t.entries.map fun (j, v) => if k == j then (j, f v) else (j, v)⟩

/-- Writes every entry of the second table, in its order. -/
def merge (t u : Table κ α) : Table κ α := u.entries.foldl (fun t (k, v) => t.insert k v) t

def ofList (entries : List (κ × α)) : Table κ α := merge empty ⟨entries⟩

@[simp] theorem get?_empty (k : κ) : (empty : Table κ α).get? k = none := rfl

@[simp] theorem keys_modify (t : Table κ α) (k : κ) (f : α → α) : (t.modify k f).keys = t.keys := by
  simp only [modify, keys, List.map_map]
  refine List.map_congr_left fun (j, v) _ => ?_
  cases h : k == j <;> simp [h]

@[simp] theorem get?_mapValues (f : α → β) (t : Table κ α) (k : κ) :
    (t.mapValues f).get? k = (t.get? k).map f := by
  simp only [mapValues, get?]
  induction t.entries with
  | nil => rfl
  | cons e rest ih =>
    obtain ⟨j, w⟩ := e
    cases h : k == j <;> simp [List.lookup_cons, h, ih]

section Lookup

variable [LawfulBEq κ]

theorem lookup_put (k l : κ) (v : α) (es : List (κ × α)) :
    (put k v es).lookup l = if l == k then some v else es.lookup l := by
  induction es with
  | nil => cases h : l == k <;> simp [put, List.lookup_cons, h]
  | cons e rest ih =>
    obtain ⟨j, w⟩ := e
    cases hk : k == j with
    | true =>
      obtain rfl := eq_of_beq hk
      cases hl : l == k <;> simp [put, List.lookup_cons, hl]
    | false =>
      have hne : k ≠ j := beq_eq_false_iff_ne.mp hk
      cases hl : l == j with
      | true =>
        obtain rfl := eq_of_beq hl
        simp [put, hk, hne.symm]
      | false => simp [put, hk, hl, ih, List.lookup_cons]

/-- A lookup after a write finds the written value under its key, and any other as before. -/
theorem get?_insert (t : Table κ α) (k l : κ) (v : α) :
    (t.insert k v).get? l = if l == k then some v else t.get? l := lookup_put k l v t.entries

@[simp] theorem get?_insert_self (t : Table κ α) (k : κ) (v : α) :
    (t.insert k v).get? k = some v := by simp [get?_insert]

theorem get?_insert_of_ne (t : Table κ α) {k l : κ} (h : l ≠ k) (v : α) :
    (t.insert k v).get? l = t.get? l := by simp [get?_insert, h]

theorem get?_erase (t : Table κ α) (k l : κ) :
    (t.erase k).get? l = if l == k then none else t.get? l := by
  simp only [erase, get?]
  induction t.entries with
  | nil => simp
  | cons e rest ih =>
    obtain ⟨j, w⟩ := e
    cases hk : k == j with
    | true =>
      obtain rfl := eq_of_beq hk
      cases hl : l == k <;> (simp [hl, List.lookup_cons] at ih ⊢; exact ih)
    | false =>
      have hne : k ≠ j := beq_eq_false_iff_ne.mp hk
      cases hl : l == j with
      | true =>
        obtain rfl := eq_of_beq hl
        simp [hk, hne.symm]
      | false => simp [hk, hl, ih, List.lookup_cons]

theorem get?_modify (t : Table κ α) (k l : κ) (f : α → α) :
    (t.modify k f).get? l = if l == k then (t.get? l).map f else t.get? l := by
  simp only [modify, get?]
  induction t.entries with
  | nil => simp
  | cons e rest ih =>
    obtain ⟨j, w⟩ := e
    cases hk : k == j with
    | true =>
      obtain rfl := eq_of_beq hk
      cases hl : l == k with
      | true => simp [eq_of_beq hl]
      | false =>
        simp [hl, List.lookup_cons] at ih ⊢
        exact ih
    | false =>
      have hne : k ≠ j := beq_eq_false_iff_ne.mp hk
      cases hl : l == j with
      | true =>
        obtain rfl := eq_of_beq hl
        simp [hk, hne.symm]
      | false => simp [hk, hl, ih, List.lookup_cons]

/-- The keys of a table are what it has values for. -/
theorem contains_iff_mem_keys (t : Table κ α) (k : κ) : t.contains k ↔ k ∈ t.keys := by
  simp [contains, get?, keys]

end Lookup

end Table

end LiveForm
