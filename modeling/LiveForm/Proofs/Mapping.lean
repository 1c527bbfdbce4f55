import LiveForm.Proofs.Table
import LiveForm.Value

/-! # Mappings under names

Keys of mappings are not always equal to themselves, but keys that are text are: a lookup under a name
finds what was written under it last. -/

namespace LiveForm

theorem beq_text_eq_false {k : Key} {x : String} (h : k ≠ .text x) : (k == .text x) = false := by
  cases k with
  | text y =>
    have hne : (y == x) = false := beq_false_of_ne fun heq => h (heq ▸ rfl)
    exact hne
  | _ => rfl

theorem text_beq_eq_false {k : Key} {x : String} (h : k ≠ .text x) : (.text x == k) = false := by
  cases k with
  | text y =>
    have hne : (x == y) = false := beq_false_of_ne fun heq => h (heq ▸ rfl)
    exact hne
  | _ => rfl

theorem text_beq_self (x : String) : (Key.text x == .text x) = true := beq_self_eq_true x

theorem isExact_text (x : String) : Table.IsExact (Key.text x) := by
  intro k
  constructor
  · intro h
    by_contra hne
    rw [text_beq_eq_false (Ne.symm hne)] at h
    cases h
  · rintro rfl
    exact text_beq_self x

section Put

variable {α : Type} (x : String) (v : α) (entries : List (Key × α))

theorem lookup_put_text_self : (Table.put (.text x) v entries).lookup (.text x) = some v := by
  induction entries with
  | nil => rw [Table.put, List.lookup_cons, text_beq_self]
  | cons e rest ih =>
    obtain ⟨j, w⟩ := e
    by_cases hj : j = .text x
    · subst hj
      rw [Table.put, text_beq_self, if_pos rfl, List.lookup_cons, text_beq_self]
    · rw [Table.put, text_beq_eq_false hj, if_neg Bool.false_ne_true, List.lookup_cons,
        text_beq_eq_false hj]
      exact ih

theorem lookup_put_text_of_ne {k : Key} (h : k ≠ .text x) :
    (Table.put (.text x) v entries).lookup k = entries.lookup k := by
  induction entries with
  | nil => rw [Table.put, List.lookup_cons, beq_text_eq_false h]
  | cons e rest ih =>
    obtain ⟨j, w⟩ := e
    by_cases hj : j = .text x
    · subst hj
      rw [Table.put, text_beq_self, if_pos rfl, List.lookup_cons, List.lookup_cons, beq_text_eq_false h]
    · rw [Table.put, text_beq_eq_false hj, if_neg Bool.false_ne_true, List.lookup_cons,
        List.lookup_cons, ih]

theorem lookup_text_put_of_ne {k : Key} (h : k ≠ .text x) :
    (Table.put k v entries).lookup (.text x) = entries.lookup (.text x) := by
  induction entries with
  | nil => rw [Table.put, List.lookup_cons, text_beq_eq_false h]
  | cons e rest ih =>
    obtain ⟨j, w⟩ := e
    by_cases hj : j = .text x
    · subst hj
      rw [Table.put, beq_text_eq_false h, if_neg Bool.false_ne_true, List.lookup_cons,
        List.lookup_cons, text_beq_self]
    · rw [Table.put]
      split
      · rw [List.lookup_cons, List.lookup_cons, text_beq_eq_false hj]
      · rw [List.lookup_cons, List.lookup_cons, text_beq_eq_false hj, ih]

/-- Only the entry under the name is written. -/
theorem filter_put_text : (Table.put (.text x) v entries).filter (fun e => !(.text x == e.1)) =
    entries.filter fun e => !(.text x == e.1) := by
  induction entries with
  | nil => simp [Table.put, text_beq_self]
  | cons e rest ih =>
    obtain ⟨k, w⟩ := e
    rw [Table.put]
    cases hk : Key.text x == k with
    | true =>
      rw [if_pos rfl, List.filter_cons_of_neg (by simp [hk]), List.filter_cons_of_neg (by simp [hk])]
    | false =>
      rw [if_neg Bool.false_ne_true, List.filter_cons_of_pos (by simp [hk]),
        List.filter_cons_of_pos (by simp [hk]), ih]

variable {x v entries} in
theorem mem_of_lookup_text (h : entries.lookup (.text x) = some v) : (.text x, v) ∈ entries := by
  induction entries with
  | nil => cases h
  | cons e rest ih =>
    obtain ⟨k, w⟩ := e
    by_cases hk : k = .text x
    · subst hk
      rw [List.lookup_cons, text_beq_self] at h
      rw [Option.some.inj h]
      exact List.mem_cons_self
    · rw [List.lookup_cons, text_beq_eq_false hk] at h
      exact List.mem_cons_of_mem _ (ih h)

variable {x v entries} in
/-- With distinct keys, an entry under a name is what the name is looked up as. -/
theorem lookup_text_of_mem (hn : (entries.map (·.1)).Nodup) (h : (.text x, v) ∈ entries) :
    entries.lookup (.text x) = some v := by
  induction entries with
  | nil => cases h
  | cons e rest ih =>
    obtain ⟨k, w⟩ := e
    obtain ⟨hk, hrest⟩ := List.nodup_cons.mp hn
    rcases List.mem_cons.mp h with he | hmem
    · cases he
      rw [List.lookup_cons, text_beq_self]
    · have hne : k ≠ .text x := by
        rintro rfl
        exact hk (List.mem_map.mpr ⟨_, hmem, rfl⟩)
      rw [List.lookup_cons, text_beq_eq_false hne]
      exact ih hrest hmem

end Put

namespace Mapping

theorem get?_ofContext (c : Context) (x : String) : (ofContext c).get? (.text x) = c.get? x := by
  obtain ⟨es⟩ := c
  simp only [ofContext, Table.mapKeys, Table.get?]
  induction es with
  | nil => rfl
  | cons e rest ih =>
    rw [List.map_cons, List.lookup_cons, List.lookup_cons, ih]
    rfl

theorem ofContext_insert (c : Context) (x : String) (v : Value) :
    ofContext (c.insert x v) = (ofContext c).insert (.text x) v := by
  obtain ⟨es⟩ := c
  simp only [ofContext, Table.mapKeys, Table.insert, Table.mk.injEq]
  induction es with
  | nil => rfl
  | cons e rest ih =>
    obtain ⟨y, w⟩ := e
    by_cases hxy : x = y
    · subst hxy
      simp [Table.put, text_beq_self]
    · have hkey : (Key.text x == .text y) = false := beq_text_eq_false fun h => hxy (Key.text.inj h)
      simp [Table.put, hxy, hkey, ih]

/-- A mapping whose keys are all text is the context that it makes. -/
theorem eq_ofContext {m : Mapping} {c : Context} (h : m.context? = some c) : m = ofContext c := by
  obtain ⟨es⟩ := m
  obtain ⟨bindings, hb, rfl⟩ := Option.map_eq_some_iff.mp h
  simp only [ofContext, Table.mapKeys, Table.mk.injEq]
  dsimp only at hb
  clear h
  induction es generalizing bindings with
  | nil =>
    obtain rfl := Option.some.inj hb
    rfl
  | cons e rest ih =>
    rw [List.mapM_cons] at hb
    obtain ⟨b, he, hb⟩ := Option.bind_eq_some_iff.mp hb
    obtain ⟨bs, hbs, hb⟩ := Option.bind_eq_some_iff.mp hb
    obtain rfl := Option.some.inj hb
    obtain ⟨k, v⟩ := e
    cases k with
    | text x =>
      obtain rfl := Option.some.inj he
      rw [List.map_cons, ← ih bs hbs]
    | _ => cases he

theorem get?_merge_text {entries : List (Key × Value)} (hn : (entries.map (·.1)).Nodup)
    (m : Mapping) (x : String) :
    (m.merge ⟨entries⟩).get? (.text x) = (entries.lookup (.text x)).or (m.get? (.text x)) := by
  simp only [Table.merge]
  induction entries generalizing m with
  | nil => rfl
  | cons e rest ih =>
    obtain ⟨k, v⟩ := e
    obtain ⟨hk, hrest⟩ := List.nodup_cons.mp hn
    rw [List.foldl_cons, ih hrest, List.lookup_cons]
    by_cases hkey : k = .text x
    · subst hkey
      have hnone : rest.lookup (.text x) = none := by
        rw [List.lookup_eq_none_iff]
        rintro ⟨j, w⟩ hmem
        have hne : j ≠ .text x := fun heq => hk (List.mem_map.mpr ⟨(j, w), hmem, heq⟩)
        rw [bne, text_beq_eq_false hne, Bool.not_false]
      rw [text_beq_self, hnone, Option.none_or, Option.some_or]
      exact lookup_put_text_self _ _ _
    · rw [text_beq_eq_false hkey]
      exact congrArg _ (lookup_text_put_of_ne _ _ _ hkey)

end Mapping

end LiveForm
