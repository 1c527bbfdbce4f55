import LiveForm.Value

/-! # Values as shared objects

Contexts, lists and mappings are values here, so what is done to one of them can not show in another.
Where they are objects that hold their parts by address, several of them may share a part, and whoever
writes to an object writes to it for all of them. A store is a run of such objects; an address holds a
value if the objects that can be reached from it spell it out. -/

namespace LiveForm

abbrev Address := Nat

inductive Object where
  | scalar (k : Key)
  | list (items : List Address)
  | mapping (entries : List (Key × Address))

structure Store where
  objects : List Object := []

namespace Store

def get? (s : Store) (a : Address) : Option Object := s.objects[a]?

/-- A new object, under an address of its own. -/
def alloc (s : Store) (o : Object) : Address × Store := (s.objects.length, ⟨s.objects ++ [o]⟩)

/-- Writes over the object at an address. -/
def set (s : Store) (a : Address) (o : Object) : Store := ⟨s.objects.set a o⟩

def items? (s : Store) (a : Address) : Option (List Address) :=
  match s.get? a with
  | some (.list items) => some items
  | _ => none

def entries? (s : Store) (a : Address) : Option (List (Key × Address)) :=
  match s.get? a with
  | some (.mapping entries) => some entries
  | _ => none

/-- Writes an entry into the mapping at an address. -/
def put (s : Store) (a : Address) (k : Key) (part : Address) : Store :=
  match s.entries? a with
  | some entries => s.set a (.mapping (Table.put k part entries))
  | none => s

mutual

/-- The value that an address holds. -/
inductive Holds (s : Store) : Address → Value → Prop
  | scalar {a : Address} {k : Key} (h : s.get? a = some (.scalar k)) : Holds s a k.toValue
  | list {a : Address} {items : List Address} {values : List Value}
      (h : s.get? a = some (.list items)) (hs : HoldsItems s items values) : Holds s a (.list values)
  | mapping {a : Address} {entries : List (Key × Address)} {cells : List (Key × Value)}
      (h : s.get? a = some (.mapping entries)) (hs : HoldsEntries s entries cells) :
      Holds s a (.mapping cells)

inductive HoldsItems (s : Store) : List Address → List Value → Prop
  | nil : HoldsItems s [] []
  | cons {a : Address} {v : Value} {items : List Address} {values : List Value} (h : Holds s a v)
      (hs : HoldsItems s items values) : HoldsItems s (a :: items) (v :: values)

inductive HoldsEntries (s : Store) : List (Key × Address) → List (Key × Value) → Prop
  | nil : HoldsEntries s [] []
  | cons {k : Key} {a : Address} {v : Value} {entries : List (Key × Address)}
      {cells : List (Key × Value)} (h : Holds s a v) (hs : HoldsEntries s entries cells) :
      HoldsEntries s ((k, a) :: entries) ((k, v) :: cells)

end

variable {s t : Store} {a b : Address} {o : Object} {v w : Value} {k : Key}
  {items : List Address} {values : List Value}
  {entries : List (Key × Address)} {cells : List (Key × Value)}

/-! ## Reading over writing -/

theorem get?_alloc_self (s : Store) (o : Object) : (s.alloc o).2.get? (s.alloc o).1 = some o := by
  simp [alloc, get?]

theorem get?_set_self (h : (s.get? a).isSome) : (s.set a o).get? a = some o := by
  have hlt : a < s.objects.length := by simpa [get?] using h
  simp [set, get?, hlt]

theorem get?_set_of_ne (h : b ≠ a) : (s.set a o).get? b = s.get? b := by
  simp [set, get?, Ne.symm h]

/-- An address that is not in use yet. -/
theorem get?_alloc_fresh (s : Store) (o : Object) : s.get? (s.alloc o).1 = none := by
  simp [alloc, get?]

theorem ne_of_fresh (ha : s.get? a = none) (hb : s.get? b = some o) : b ≠ a := by
  rintro rfl
  rw [ha] at hb
  cases hb

/-- Every object of the first store is still in the second as it was. -/
def Keeps (s t : Store) : Prop := ∀ a o, s.get? a = some o → t.get? a = some o

theorem Keeps.refl (s : Store) : s.Keeps s := fun _ _ h => h

theorem Keeps.alloc (h : s.Keeps t) (o : Object) : s.Keeps (t.alloc o).2 := by
  intro b p hb
  have hlt : b < t.objects.length := (List.getElem?_eq_some_iff.mp (h b p hb)).1
  have hold : (t.alloc o).2.get? b = t.get? b := by
    simp [Store.alloc, get?, List.getElem?_append_left hlt]
  exact hold.trans (h b p hb)

theorem Keeps.get?_eq_none (h : s.Keeps t) (ha : t.get? a = none) : s.get? a = none := by
  cases hs : s.get? a with
  | none => rfl
  | some o => cases (h a o hs).symm.trans ha

theorem exists_alloc (s : Store) (o : Object) :
    ∃ a t, s.alloc o = (a, t) ∧ s.Keeps t ∧ s.get? a = none ∧ t.get? a = some o :=
  ⟨_, _, rfl, (Keeps.refl s).alloc o, get?_alloc_fresh s o, get?_alloc_self s o⟩

/-- Writing to an object that came later. -/
theorem Keeps.set (h : s.Keeps t) (ha : s.get? a = none) (o : Object) : s.Keeps (t.set a o) :=
  fun b p hb => (get?_set_of_ne (ne_of_fresh ha hb)).trans (h b p hb)

/-- Writing the same to an object of both. -/
theorem Keeps.set_set (h : s.Keeps t) {p : Object} (ha : s.get? a = some p) (o : Object) :
    (s.set a o).Keeps (t.set a o) := by
  intro b q hb
  by_cases heq : b = a
  · subst heq
    rw [get?_set_self (by rw [ha]; rfl)] at hb
    exact (get?_set_self (by rw [h b p ha]; rfl)).trans hb
  · rw [get?_set_of_ne heq] at hb
    exact (get?_set_of_ne heq).trans (h b q hb)

theorem Keeps.put (h : s.Keeps t) (ha : s.get? a = none) (k : Key) (part : Address) :
    s.Keeps (t.put a k part) := by
  unfold Store.put
  split
  · exact h.set ha _
  · exact h

theorem entries?_put_self (h : s.entries? a = some entries) (k : Key) (b : Address) :
    (s.put a k b).entries? a = some (Table.put k b entries) := by
  have hsome : (s.get? a).isSome := by
    unfold entries? at h
    split at h
    · rename_i hget
      rw [hget]
      rfl
    · cases h
  unfold Store.put
  rw [h]
  dsimp only
  rw [entries?, get?_set_self hsome]

/-! ## What an address holds -/

theorem get?_of_items? (h : s.items? a = some items) : s.get? a = some (.list items) := by
  unfold items? at h
  split at h
  · rename_i hget
    rw [hget, Option.some.inj h]
  · cases h

theorem get?_of_entries? (h : s.entries? a = some entries) : s.get? a = some (.mapping entries) := by
  unfold entries? at h
  split at h
  · rename_i hget
    rw [hget, Option.some.inj h]
  · cases h

mutual

/-- An address holds one value at most. -/
theorem Holds.unique {s : Store} {a : Address} {v w : Value} (hv : s.Holds a v) (hw : s.Holds a w) : v = w := by
  cases hv with
  | @scalar _ k hv =>
    cases hw with
    | @scalar _ l hw =>
      obtain rfl : k = l := by simpa using hv.symm.trans hw
      rfl
    | list hw _ => simp [hv] at hw
    | mapping hw _ => simp [hv] at hw
  | list hv hvs =>
    cases hw with
    | scalar hw => simp [hv] at hw
    | @list _ items _ hw hws =>
      obtain rfl : _ = items := by simpa using hv.symm.trans hw
      rw [HoldsItems.unique hvs hws]
    | mapping hw _ => simp [hv] at hw
  | mapping hv hvs =>
    cases hw with
    | scalar hw => simp [hv] at hw
    | list hw _ => simp [hv] at hw
    | @mapping _ entries _ hw hws =>
      obtain rfl : _ = entries := by simpa using hv.symm.trans hw
      rw [HoldsEntries.unique hvs hws]

theorem HoldsItems.unique {s : Store} {items : List Address} {values others : List Value}
    (hv : s.HoldsItems items values)
    (hw : s.HoldsItems items others) : values = others := by
  cases hv with
  | nil =>
    cases hw
    rfl
  | cons h hs =>
    cases hw with
    | cons h' hs' => rw [Holds.unique h h', HoldsItems.unique hs hs']

theorem HoldsEntries.unique {s : Store} {entries : List (Key × Address)}
    {cells others : List (Key × Value)} (hv : s.HoldsEntries entries cells)
    (hw : s.HoldsEntries entries others) : cells = others := by
  cases hv with
  | nil =>
    cases hw
    rfl
  | cons h hs =>
    cases hw with
    | cons h' hs' => rw [Holds.unique h h', HoldsEntries.unique hs hs']

end

mutual

/-- A value is held as long as no object changes that holds a part of it. Parts are told by their
size, so the address of something larger does not matter. -/
theorem Holds.transport {s t : Store} {a : Address} {v : Value} (h : s.Holds a v)
    (hsame : ∀ b w, sizeOf w ≤ sizeOf v → s.Holds b w → t.get? b = s.get? b) : t.Holds a v := by
  cases h with
  | scalar h => exact .scalar ((hsame a _ (Nat.le_refl _) (.scalar h)).trans h)
  | list h hs =>
    refine .list ((hsame a _ (Nat.le_refl _) (.list h hs)).trans h) (HoldsItems.transport hs fun b w hw => ?_)
    exact hsame b w (Nat.le_trans hw (by simp))
  | mapping h hs =>
    refine .mapping ((hsame a _ (Nat.le_refl _) (.mapping h hs)).trans h)
      (HoldsEntries.transport hs fun b w hw => ?_)
    exact hsame b w (Nat.le_trans hw (by simp))

theorem HoldsItems.transport {s t : Store} {items : List Address} {values : List Value}
    (h : s.HoldsItems items values)
    (hsame : ∀ b w, sizeOf w ≤ sizeOf values → s.Holds b w → t.get? b = s.get? b) :
    t.HoldsItems items values := by
  cases h with
  | nil => exact .nil
  | cons h hs =>
    exact .cons (Holds.transport h fun b w hw => hsame b w (Nat.le_trans hw (by simp; omega)))
      (HoldsItems.transport hs fun b w hw => hsame b w (Nat.le_trans hw (by simp)))

theorem HoldsEntries.transport {s t : Store} {entries : List (Key × Address)}
    {cells : List (Key × Value)} (h : s.HoldsEntries entries cells)
    (hsame : ∀ b w, sizeOf w ≤ sizeOf cells → s.Holds b w → t.get? b = s.get? b) :
    t.HoldsEntries entries cells := by
  cases h with
  | nil => exact .nil
  | cons h hs =>
    exact .cons (Holds.transport h fun b w hw => hsame b w (Nat.le_trans hw (by simp; omega)))
      (HoldsEntries.transport hs fun b w hw => hsame b w (Nat.le_trans hw (by simp)))

end

theorem Holds.exists_get? (h : s.Holds a v) : ∃ o, s.get? a = some o := by
  cases h with
  | scalar h => exact ⟨_, h⟩
  | list h _ => exact ⟨_, h⟩
  | mapping h _ => exact ⟨_, h⟩

theorem Holds.keep (h : s.Holds a v) (hkeep : s.Keeps t) : t.Holds a v :=
  h.transport fun b _ _ hb => hb.exists_get?.elim fun o ho => (hkeep b o ho).trans ho.symm

theorem HoldsItems.keep (h : s.HoldsItems items values) (hkeep : s.Keeps t) :
    t.HoldsItems items values :=
  h.transport fun b _ _ hb => hb.exists_get?.elim fun o ho => (hkeep b o ho).trans ho.symm

theorem HoldsEntries.keep (h : s.HoldsEntries entries cells) (hkeep : s.Keeps t) :
    t.HoldsEntries entries cells :=
  h.transport fun b _ _ hb => hb.exists_get?.elim fun o ho => (hkeep b o ho).trans ho.symm

theorem Holds.items? (h : s.Holds a (.list values)) :
    ∃ items, s.items? a = some items ∧ s.HoldsItems items values := by
  generalize hv : Value.list values = v at h
  cases h with
  | @scalar _ k h => cases k <;> cases hv
  | @list _ items _ h hs =>
    obtain rfl := Value.list.inj hv
    exact ⟨items, by rw [Store.items?, h], hs⟩
  | mapping h hs => cases hv

theorem Holds.entries? (h : s.Holds a (.mapping cells)) :
    ∃ entries, s.entries? a = some entries ∧ s.HoldsEntries entries cells := by
  generalize hv : Value.mapping cells = v at h
  cases h with
  | @scalar _ k h => cases k <;> cases hv
  | list h hs => cases hv
  | @mapping _ entries _ h hs =>
    obtain rfl := Value.mapping.inj hv
    exact ⟨entries, by rw [Store.entries?, h], hs⟩

theorem Holds.exists_list (h : s.Holds a v) (hitems : s.items? a = some items) :
    ∃ values, v = .list values := by
  have hget := get?_of_items? hitems
  cases h with
  | scalar h => simp [h] at hget
  | list h hs => exact ⟨_, rfl⟩
  | mapping h hs => simp [h] at hget

theorem Holds.exists_mapping (h : s.Holds a v) (hentries : s.entries? a = some entries) :
    ∃ cells, v = .mapping cells := by
  have hget := get?_of_entries? hentries
  cases h with
  | scalar h => simp [h] at hget
  | list h hs => simp [h] at hget
  | mapping h hs => exact ⟨_, rfl⟩

/-- What is smaller than the value of an address is held elsewhere. -/
theorem ne_of_sizeOf_lt (hv : s.Holds b v) (hw : s.Holds a w) (h : sizeOf v < sizeOf w) : b ≠ a := by
  rintro rfl
  rw [hv.unique hw] at h
  exact Nat.lt_irrefl _ h

theorem HoldsItems.set_of_lt (h : s.HoldsItems items values) (hw : s.Holds a w)
    (hlt : sizeOf values < sizeOf w) (o : Object) : (s.set a o).HoldsItems items values :=
  h.transport fun _ _ hle hb => get?_set_of_ne (ne_of_sizeOf_lt hb hw (Nat.lt_of_le_of_lt hle hlt))

theorem HoldsEntries.set_of_lt (h : s.HoldsEntries entries cells) (hw : s.Holds a w)
    (hlt : sizeOf cells < sizeOf w) (o : Object) : (s.set a o).HoldsEntries entries cells :=
  h.transport fun _ _ hle hb => get?_set_of_ne (ne_of_sizeOf_lt hb hw (Nat.lt_of_le_of_lt hle hlt))

/-! ## Parts -/

theorem HoldsItems.getElem? (h : s.HoldsItems items values) (i : Nat) :
    (items[i]? = none ∧ values[i]? = none) ∨
      ∃ b v, items[i]? = some b ∧ values[i]? = some v ∧ s.Holds b v := by
  induction items generalizing values i with
  | nil =>
    cases h
    exact .inl ⟨rfl, rfl⟩
  | cons b rest ih =>
    cases h with
    | @cons _ v _ _ h hs =>
      cases i with
      | zero => exact .inr ⟨b, v, rfl, rfl, h⟩
      | succ i => exact ih hs i

theorem HoldsItems.set (h : s.HoldsItems items values) (i : Nat) (hv : s.Holds b v) :
    s.HoldsItems (items.set i b) (values.set i v) := by
  induction items generalizing values i with
  | nil =>
    cases h
    exact .nil
  | cons a rest ih =>
    cases h with
    | cons h hs =>
      cases i with
      | zero => exact .cons hv hs
      | succ i => exact .cons h (ih hs i)

theorem HoldsEntries.lookup (h : s.HoldsEntries entries cells) (k : Key) :
    (entries.lookup k = none ∧ cells.lookup k = none) ∨
      ∃ b v, entries.lookup k = some b ∧ cells.lookup k = some v ∧ s.Holds b v := by
  induction entries generalizing cells with
  | nil =>
    cases h
    exact .inl ⟨rfl, rfl⟩
  | cons e rest ih =>
    cases h with
    | @cons j a v _ cells h hs =>
      rw [List.lookup_cons, List.lookup_cons]
      cases k == j with
      | true => exact .inr ⟨a, v, rfl, rfl, h⟩
      | false => exact ih hs

theorem HoldsEntries.put (h : s.HoldsEntries entries cells) (k : Key) (hv : s.Holds b v) :
    s.HoldsEntries (Table.put k b entries) (Table.put k v cells) := by
  induction entries generalizing cells with
  | nil =>
    cases h
    exact .cons hv .nil
  | cons e rest ih =>
    cases h with
    | @cons j a u _ cells h hs =>
      rw [Table.put, Table.put]
      cases k == j with
      | true => exact .cons hv hs
      | false => exact .cons h (ih hs)

end Store

end LiveForm
