import LiveForm.Cache
import LiveForm.Proofs.Table

/-! # What a cache can answer

Every operation is described by the entries that it may leave, and, while no field has two entries, by
those that it does leave. -/

namespace LiveForm.Cache

variable {α : Type} {c : Cache α} {now : Number} {key k : CacheKey} {e : CacheEntry α} {a : α}

/-- An entry is remembered under a key. -/
def Holds (c : Cache α) (key : CacheKey) (e : CacheEntry α) : Prop := (key, e) ∈ c.entries.entries

theorem not_holds_new (window : Number) : ¬Holds (α := α) { window := window } key e := by
  intro h
  cases h

/-- A remembered result comes from an entry under the key that is not stale. -/
theorem holds_of_get {d : Cache α} (h : c.get now key = (some a, d)) :
    d = c ∧ ∃ e, c.Holds key e ∧ c.isStale now e = false ∧ e.result = a := by
  unfold get at h
  cases hg : c.entries.get? key with
  | none => simp [hg] at h
  | some e =>
    cases hs : c.isStale now e with
    | true => simp [hg, hs] at h
    | false =>
      obtain ⟨rfl, rfl⟩ : e.result = a ∧ c = d := by simpa [hg, hs] using h
      exact ⟨rfl, e, Table.mem_of_get? hg, hs, rfl⟩

theorem Holds.of_get (h : (c.get now key).2.Holds k e) : c.Holds k e := by
  unfold Cache.get at h
  split at h
  · exact h
  · split at h
    · exact (List.mem_filter.mp h).1
    · exact h

theorem window_get : (c.get now key).2.window = c.window := by
  unfold get
  split
  · rfl
  · split <;> rfl

/-- Stale entries are not served. -/
theorem get_eq_none (h : ∀ e, c.Holds key e → c.isStale now e = true) :
    (c.get now key).1 = none := by
  unfold get
  cases hg : c.entries.get? key with
  | none => rfl
  | some e => simp [h e (Table.mem_of_get? hg)]

theorem Holds.of_discard {field : String} (h : (c.discard field).2.Holds k e) :
    c.Holds k e ∧ k.field ≠ field := by
  obtain ⟨hm, hf⟩ := List.mem_filter.mp h
  exact ⟨hm, by simpa [belongsTo] using hf⟩

theorem Holds.of_set (h : (c.set now key a).Holds k e) :
    c.Holds k e ∨ (k = key ∧ e = ⟨a, now⟩) :=
  (Table.mem_put h).imp (fun h => (Holds.of_discard h).1) id

section Slots

/-- The fields of the entries. -/
def fields (c : Cache α) : List String := c.entries.keys.map CacheKey.field

/-- No field has two entries. -/
def OnePerField (c : Cache α) : Prop := c.fields.Nodup

theorem onePerField_new (window : Number) : OnePerField (α := α) { window := window } :=
  List.nodup_nil

theorem holds_discard_iff {field : String} :
    (c.discard field).2.Holds k e ↔ c.Holds k e ∧ k.field ≠ field := by
  refine ⟨Holds.of_discard, fun ⟨h, hne⟩ => List.mem_filter.mpr ⟨h, ?_⟩⟩
  simpa [belongsTo] using hne

theorem field_ne_of_mem_discard {field : String} (h : k ∈ (c.discard field).2.entries.keys) :
    k.field ≠ field := by
  obtain ⟨e, he⟩ := Table.exists_get?_of_mem_keys h
  exact (holds_discard_iff.mp (Table.mem_of_get? he)).2

theorem entries_set : (c.set now key a).entries.entries =
    (c.discard key.field).2.entries.entries ++ [(key, ⟨a, now⟩)] :=
  Table.entries_insert_of_not_mem fun h => field_ne_of_mem_discard h rfl

/-- The slot of the field holds what was set, and the other slots are as before. -/
theorem holds_set_iff : (c.set now key a).Holds k e ↔
    (c.Holds k e ∧ k.field ≠ key.field) ∨ (k = key ∧ e = ⟨a, now⟩) := by
  rw [Holds, entries_set, List.mem_append, List.mem_singleton, Prod.mk.injEq]
  exact or_congr_left holds_discard_iff

namespace OnePerField

theorem nodup_keys (h : c.OnePerField) : c.entries.keys.Nodup := List.Nodup.of_map _ h

theorem holds_iff (h : c.OnePerField) : c.Holds k e ↔ c.entries.get? k = some e :=
  ⟨Table.get?_of_mem h.nodup_keys, Table.mem_of_get?⟩

theorem discard (h : c.OnePerField) (field : String) : (c.discard field).2.OnePerField :=
  h.sublist ((List.filter_sublist.map _).map _)

theorem set (h : c.OnePerField) : (c.set now key a).OnePerField := by
  rw [OnePerField, fields, Table.keys, entries_set, List.map_append, List.map_append]
  refine List.nodup_append.mpr ⟨h.discard key.field, List.nodup_singleton _, ?_⟩
  intro f hf g hg
  obtain ⟨k, hk, rfl⟩ := List.mem_map.mp hf
  rw [List.mem_singleton.mp hg]
  exact field_ne_of_mem_discard hk

theorem get (h : c.OnePerField) : (c.get now key).2.OnePerField := by
  unfold Cache.get
  split
  · exact h
  · split
    · exact h.sublist ((List.filter_sublist.map _).map _)
    · exact h

/-- Asking forgets the entry that is asked for, if it is stale, and nothing else. -/
theorem holds_get_iff (h : c.OnePerField) :
    (c.get now key).2.Holds k e ↔ c.Holds k e ∧ (k = key → c.isStale now e = false) := by
  refine ⟨fun hk => ⟨hk.of_get, ?_⟩, fun ⟨hk, hfresh⟩ => ?_⟩
  · rintro rfl
    have hg := h.holds_iff.mp hk.of_get
    by_contra hs
    rw [Bool.not_eq_false] at hs
    have herase : (c.get now k).2.entries = c.entries.erase k := by simp [Cache.get, hg, hs]
    rw [Holds, herase] at hk
    simpa using (List.mem_filter.mp hk).2
  · unfold Cache.get
    split
    · exact hk
    · split
      · rename_i d hg hs
        refine List.mem_filter.mpr ⟨hk, ?_⟩
        have hne : key ≠ k := by
          rintro rfl
          obtain rfl := Option.some.inj (hg.symm.trans (h.holds_iff.mp hk))
          rw [hfresh rfl] at hs
          cases hs
        simpa using hne
      · exact hk

/-- What is answered is what is remembered under the key, unless it is stale. -/
theorem get_eq_some_iff (h : c.OnePerField) : (c.get now key).1 = some a ↔
    ∃ time, c.Holds key ⟨a, time⟩ ∧ c.isStale now ⟨a, time⟩ = false := by
  constructor
  · intro hget
    obtain ⟨-, e, hk, hfresh, rfl⟩ := holds_of_get (Prod.ext hget rfl)
    exact ⟨e.time, hk, hfresh⟩
  · rintro ⟨time, hk, hfresh⟩
    simp [Cache.get, h.holds_iff.mp hk, hfresh]

/-- Discarding says whether the field had an entry. -/
theorem discard_fst (h : c.OnePerField) (field : String) :
    (c.discard field).1 = if field ∈ c.fields then 1 else 0 := by
  have hcount : (c.discard field).1 = c.fields.count field := by
    simp only [Cache.discard, fields, Table.keys, List.count, List.countP_map]
    rfl
  rw [hcount, h.count]

end OnePerField

end Slots

end LiveForm.Cache
