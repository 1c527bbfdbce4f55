import LiveForm.Table
import Mathlib.Data.List.Nodup

/-! Writes to tables and their keys. Of two writes under one key the last stands, and writes under two
keys can change places. Every operation keeps the keys of a table distinct; with distinct keys the
entries of a table are what it has values for. The last part says the same of lists whose repeated items
are taken out. -/

namespace LiveForm.Table

variable {κ α : Type}

theorem length_keys (t : Table κ α) : t.keys.length = t.size := List.length_map _

theorem mapValues_modify [BEq κ] {β : Type} {f : α → α} {g : α → β} (h : ∀ v, g (f v) = g v)
    (t : Table κ α) (k : κ) : (t.modify k f).mapValues g = t.mapValues g := by
  simp only [modify, mapValues, List.map_map, mk.injEq]
  refine List.map_congr_left fun e _ => ?_
  cases hk : k == e.1 <;> simp [hk, h]

theorem nodup_keys_erase [BEq κ] {t : Table κ α} (hn : t.keys.Nodup) (k : κ) :
    (t.erase k).keys.Nodup := hn.sublist (List.filter_sublist.map _)

/-! ## Writing twice -/

section Put

variable [BEq κ] {k l : κ} {v w : α} {es : List (κ × α)}

/-- A key that no other key is taken for. -/
def IsExact (k : κ) : Prop := ∀ j, (k == j) = true ↔ k = j

/-- Of two writes under one key the last stands. -/
theorem put_put (hk : IsExact k) : put k w (put k v es) = put k w es := by
  have hself : (k == k) = true := (hk k).mpr rfl
  induction es with
  | nil => simp [put, hself]
  | cons e rest ih =>
    obtain ⟨j, u⟩ := e
    cases hj : k == j <;> simp [put, hj, ih]

theorem put_of_lookup (h : es.lookup k = some v) : put k v es = es := by
  induction es with
  | nil => cases h
  | cons e rest ih =>
    obtain ⟨j, u⟩ := e
    rw [List.lookup_cons] at h
    rw [put]
    cases hj : k == j with
    | true =>
      rw [hj] at h
      rw [Option.some.inj h]
      rfl
    | false =>
      rw [hj] at h
      exact congrArg (List.cons _) (ih h)

theorem insert_of_get? {t : Table κ α} (h : t.get? k = some v) : t.insert k v = t :=
  congrArg Table.mk (put_of_lookup h)

theorem put_of_lookup_eq_none (h : es.lookup k = none) : put k v es = es ++ [(k, v)] := by
  induction es with
  | nil => rfl
  | cons e rest ih =>
    obtain ⟨j, u⟩ := e
    rw [List.lookup_cons] at h
    rw [put]
    cases hj : k == j with
    | true =>
      rw [hj] at h
      cases h
    | false =>
      rw [hj] at h
      exact congrArg (List.cons _) (ih h)

/-- Writes under two keys can change places when one of the keys is there already: its place is
taken, so the other alone can come to the end. -/
theorem put_comm (hk : IsExact k) (hl : IsExact l) (hne : k ≠ l) (h : (es.lookup k).isSome) :
    put k v (put l w es) = put l w (put k v es) := by
  induction es with
  | nil => cases h
  | cons e rest ih =>
    obtain ⟨j, u⟩ := e
    rw [List.lookup_cons] at h
    cases hkj : k == j with
    | true =>
      have hlj : (l == j) = false :=
        Bool.eq_false_iff.mpr fun hlj => hne (((hk j).mp hkj).trans ((hl j).mp hlj).symm)
      simp [put, hkj, hlj]
    | false =>
      rw [hkj] at h
      cases hlj : l == j <;> simp [put, hkj, hlj, ih h]

/-- Writes under two keys can change places up to the order of what is new. -/
theorem put_perm (hk : IsExact k) (hl : IsExact l) (hne : k ≠ l) :
    (put k v (put l w es)).Perm (put l w (put k v es)) := by
  have hkl : (k == l) = false := Bool.eq_false_iff.mpr fun h => hne ((hk l).mp h)
  have hlk : (l == k) = false := Bool.eq_false_iff.mpr fun h => hne ((hl k).mp h).symm
  cases hek : es.lookup k with
  | some u => exact .of_eq (put_comm hk hl hne (by rw [hek]; rfl))
  | none =>
    cases hel : es.lookup l with
    | some u => exact .of_eq (put_comm hl hk hne.symm (by rw [hel]; rfl)).symm
    | none =>
      have hk' : (es ++ [(l, w)]).lookup k = none := by
        rw [List.lookup_append, hek, List.lookup_cons, hkl]
        rfl
      have hl' : (es ++ [(k, v)]).lookup l = none := by
        rw [List.lookup_append, hel, List.lookup_cons, hlk]
        rfl
      rw [put_of_lookup_eq_none hel, put_of_lookup_eq_none hek, put_of_lookup_eq_none hk',
        put_of_lookup_eq_none hl', List.append_assoc, List.append_assoc]
      exact (List.Perm.swap _ _ _).append_left es

end Put

variable [BEq κ] [LawfulBEq κ]

theorem isExact (k : κ) : IsExact k := fun _ => beq_iff_eq

theorem insert_insert (t : Table κ α) (k : κ) (v w : α) : (t.insert k v).insert k w = t.insert k w :=
  congrArg Table.mk (put_put (isExact k))

theorem insert_comm {t : Table κ α} {k l : κ} (hne : k ≠ l) (h : (t.get? k).isSome) (v w : α) :
    (t.insert l w).insert k v = (t.insert k v).insert l w :=
  congrArg Table.mk (put_comm (isExact k) (isExact l) hne h)

/-! ## Keys and entries -/

theorem get?_isSome_iff {t : Table κ α} {k : κ} : (t.get? k).isSome ↔ k ∈ t.keys :=
  contains_iff_mem_keys t k

theorem mem_keys_of_get? {t : Table κ α} {k : κ} {v : α} (h : t.get? k = some v) : k ∈ t.keys :=
  get?_isSome_iff.mp (by rw [h]; rfl)

theorem get?_eq_none_iff {t : Table κ α} {k : κ} : t.get? k = none ↔ k ∉ t.keys := by
  rw [← get?_isSome_iff, Option.not_isSome_iff_eq_none]

theorem exists_get?_of_mem_keys {t : Table κ α} {k : κ} (h : k ∈ t.keys) :
    ∃ v, t.get? k = some v := Option.isSome_iff_exists.mp (get?_isSome_iff.mpr h)

theorem mem_of_get? {t : Table κ α} {k : κ} {v : α} (h : t.get? k = some v) :
    (k, v) ∈ t.entries := by
  obtain ⟨l₁, l₂, he, -⟩ := List.lookup_eq_some_iff.mp h
  rw [he]
  simp

/-- In a table with distinct keys, an entry is what its key is looked up as. -/
theorem get?_of_mem {t : Table κ α} (hn : t.keys.Nodup) {k : κ} {v : α}
    (h : (k, v) ∈ t.entries) : t.get? k = some v := by
  obtain ⟨es⟩ := t
  simp only [get?, keys] at *
  induction es with
  | nil => simp at h
  | cons e rest ih =>
    obtain ⟨j, w⟩ := e
    obtain ⟨hj, hr⟩ := List.nodup_cons.mp hn
    rcases List.mem_cons.mp h with he | hm
    · cases he
      simp
    · have hne : k ≠ j := by
        rintro rfl
        exact hj (List.mem_map.mpr ⟨_, hm, rfl⟩)
      rw [List.lookup_cons, beq_false_of_ne hne]
      exact ih hr hm

theorem mem_put {k j : κ} {v w : α} {es : List (κ × α)} (h : (j, w) ∈ put k v es) :
    (j, w) ∈ es ∨ (j = k ∧ w = v) := by
  induction es with
  | nil => exact .inr (by simpa [put] using h)
  | cons e rest ih =>
    obtain ⟨i, u⟩ := e
    rw [put] at h
    split at h
    · rename_i hk
      rcases List.mem_cons.mp h with he | hr
      · cases he
        exact .inr ⟨(eq_of_beq hk).symm, rfl⟩
      · exact .inl (List.mem_cons_of_mem _ hr)
    · rcases List.mem_cons.mp h with he | hr
      · exact .inl (he ▸ List.mem_cons_self)
      · exact (ih hr).imp (List.mem_cons_of_mem _) id

theorem keys_insert_of_mem {t : Table κ α} {k : κ} {v : α} (h : k ∈ t.keys) :
    (t.insert k v).keys = t.keys := by
  obtain ⟨es⟩ := t
  simp only [insert, keys] at *
  induction es with
  | nil => simp at h
  | cons e rest ih =>
    obtain ⟨j, w⟩ := e
    by_cases hk : k = j
    · simp [put, hk]
    · have hr : k ∈ rest.map (·.1) := by simpa [hk] using h
      simp [put, hk, ih hr]

theorem entries_insert_of_not_mem {t : Table κ α} {k : κ} {v : α} (h : k ∉ t.keys) :
    (t.insert k v).entries = t.entries ++ [(k, v)] :=
  put_of_lookup_eq_none (get?_eq_none_iff.mpr h)

theorem keys_insert_of_not_mem {t : Table κ α} {k : κ} {v : α} (h : k ∉ t.keys) :
    (t.insert k v).keys = t.keys ++ [k] := by
  rw [keys, entries_insert_of_not_mem h, List.map_append]
  rfl

theorem nodup_keys_insert {t : Table κ α} (hn : t.keys.Nodup) (k : κ) (v : α) :
    (t.insert k v).keys.Nodup := by
  by_cases h : k ∈ t.keys
  · rwa [keys_insert_of_mem h]
  · rw [keys_insert_of_not_mem h]
    exact List.Nodup.append hn (by simp) (by simpa using h)

theorem nodup_keys_insertNew {t : Table κ α} (hn : t.keys.Nodup) (k : κ) (v : α) :
    (t.insertNew k v).keys.Nodup := by
  unfold insertNew
  split
  · exact hn
  · exact nodup_keys_insert hn k v

theorem get?_insertNew (t : Table κ α) (k j : κ) (v : α) :
    (t.insertNew k v).get? j = if j == k then some ((t.get? k).getD v) else t.get? j := by
  unfold insertNew
  by_cases hj : j = k
  · subst hj
    cases h : t.get? j <;> simp [contains, h]
  · split <;> simp [hj, get?_insert]

/-! ## Merging -/

theorem get?_merge {u : Table κ α} (hn : u.keys.Nodup) (t : Table κ α) (k : κ) :
    (t.merge u).get? k = (u.get? k).or (t.get? k) := by
  obtain ⟨es⟩ := u
  simp only [merge, get?, keys] at *
  induction es generalizing t with
  | nil => rfl
  | cons e rest ih =>
    obtain ⟨j, v⟩ := e
    obtain ⟨hj, hr⟩ := List.nodup_cons.mp hn
    rw [List.foldl_cons, ih (t.insert j v) hr, List.lookup_cons]
    by_cases hk : k = j
    · subst hk
      have hnone : (⟨rest⟩ : Table κ α).get? k = none := get?_eq_none_iff.mpr hj
      have hself : (t.insert k v).entries.lookup k = some v := get?_insert_self t k v
      rw [get?] at hnone
      rw [hnone, hself]
      simp
    · have hne : (t.insert j v).entries.lookup k = t.entries.lookup k := get?_insert_of_ne t hk v
      rw [hne, beq_false_of_ne hk]

theorem get?_merge_congr {t t' : Table κ α} {k : κ} (h : t'.get? k = t.get? k) (u : Table κ α) :
    (t'.merge u).get? k = (t.merge u).get? k := by
  obtain ⟨es⟩ := u
  simp only [merge]
  induction es generalizing t t' with
  | nil => exact h
  | cons e rest ih =>
    obtain ⟨j, v⟩ := e
    exact ih (by rw [get?_insert, get?_insert, h])

/-- Merging writes every key of the second table. -/
theorem get?_merge_isSome {t u : Table κ α} {k : κ} (h : k ∈ u.keys ∨ (t.get? k).isSome) :
    ((t.merge u).get? k).isSome := by
  obtain ⟨es⟩ := u
  simp only [merge, keys] at *
  induction es generalizing t with
  | nil => exact h.resolve_left List.not_mem_nil
  | cons e rest ih =>
    refine ih ?_
    rw [get?_insert]
    by_cases hk : k = e.1
    · simp [hk]
    · simpa [hk] using h

theorem mem_merge {t u : Table κ α} {e : κ × α} (h : e ∈ (t.merge u).entries) :
    e ∈ t.entries ∨ e ∈ u.entries := by
  obtain ⟨es⟩ := u
  simp only [merge] at *
  induction es generalizing t with
  | nil => exact .inl h
  | cons d rest ih =>
    rcases ih h with hm | hm
    · rcases mem_put hm with hm | ⟨hk, hv⟩
      · exact .inl hm
      · exact .inr (by rw [show e = d from Prod.ext hk hv]; exact List.mem_cons_self)
    · exact .inr (List.mem_cons_of_mem d hm)

theorem nodup_keys_merge {t : Table κ α} (hn : t.keys.Nodup) (u : Table κ α) :
    (t.merge u).keys.Nodup := by
  obtain ⟨es⟩ := u
  simp only [merge]
  induction es generalizing t with
  | nil => exact hn
  | cons e rest ih => exact ih (nodup_keys_insert hn e.1 e.2)

theorem mem_keys_merge {t u : Table κ α} {k : κ} :
    k ∈ (t.merge u).keys ↔ k ∈ t.keys ∨ k ∈ u.keys := by
  constructor
  · intro h
    obtain ⟨e, he, rfl⟩ := List.mem_map.mp h
    exact (mem_merge he).imp (List.mem_map_of_mem (f := Prod.fst)) (List.mem_map_of_mem (f := Prod.fst))
  · intro h
    exact get?_isSome_iff.mp (get?_merge_isSome (h.symm.imp_right get?_isSome_iff.mpr))

/-- The first entry whose key passes a test, found among the keys. -/
theorem find?_entries {t : Table κ α} (hn : t.keys.Nodup) (p : κ → Bool) :
    (t.entries.find? fun e => p e.1).map (·.2) = (t.keys.find? p).bind t.get? := by
  have hkeys : t.keys.find? p = (t.entries.find? fun e => p e.1).map (·.1) := by
    rw [keys, List.find?_map]
    rfl
  rw [hkeys]
  cases h : t.entries.find? fun e => p e.1 with
  | none => rfl
  | some e => exact (get?_of_mem hn (List.mem_of_find?_eq_some h)).symm

end LiveForm.Table

namespace LiveForm

theorem nodup_eraseDups {α : Type} [BEq α] [LawfulBEq α] (xs : List α) : xs.eraseDups.Nodup := by
  match xs with
  | [] => simp
  | x :: rest =>
    have ih := nodup_eraseDups (rest.filter fun y => !y == x)
    rw [List.eraseDups_cons]
    refine List.nodup_cons.mpr ⟨?_, ih⟩
    simp [List.mem_eraseDups]
termination_by xs.length
decreasing_by exact Nat.lt_succ_of_le (List.length_filter_le _ _)

end LiveForm
