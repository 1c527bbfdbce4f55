import LiveForm.Proofs.Except
import LiveForm.Row

/-! # Ids that belong to no row

An id without dots and brackets names a field of the form itself: it has no row, no head and no last
part, so that reading it reads nothing else. -/

namespace LiveForm

variable {id : String}

theorem isLocalName_iff : isLocalName id ↔ '.' ∉ id.toList ∧ '[' ∉ id.toList := by
  simp [isLocalName, Text.hasChar]

/-- What is left of an id at its first bracket does not open a row when there is no `[` in it. -/
theorem RowRef.parse?_of_not_mem (h : '[' ∉ id.toList) : parse? id = .ok none := by
  unfold parse?
  dsimp only
  split
  · rename_i rest hd
    have hm : '[' ∈ id.toList.dropWhile fun c => !isBracket c := by rw [hd]; simp
    exact absurd ((List.dropWhile_sublist _).mem hm) h
  · rfl

theorem RowRef.parse?_of_isLocalName (h : isLocalName id) : parse? id = .ok none :=
  parse?_of_not_mem (isLocalName_iff.mp h).2

theorem dottedHead?_of_isLocalName (h : isLocalName id) : dottedHead? id = .ok none := by
  have hd : Text.hasChar '.' id = false := by simpa [Text.hasChar] using (isLocalName_iff.mp h).1
  simp [dottedHead?, hd]

theorem leafName?_of_isLocalName (h : isLocalName id) : leafName? id = none := by
  have hd : Text.hasChar '.' id = false := by simpa [Text.hasChar] using (isLocalName_iff.mp h).1
  simp [leafName?, hd]

theorem withHeads_of_isLocalName {ids : List String} (h : ∀ x ∈ ids, isLocalName x)
    (registered : List String) : withHeads ids registered = .ok ids.eraseDups := by
  have hhead : ∀ x ∈ ids, dottedHead? x = .ok none := fun x hx => dottedHead?_of_isLocalName (h x hx)
  unfold withHeads
  rw [mapM_eq_ok (g := fun id => [id]) fun x hx => by rw [hhead x hx]; rfl]
  have hflat : (ids.map fun id => [id]).flatten = ids := by
    rw [← List.flatMap_def]
    exact List.flatMap_singleton' ids
  exact congrArg (fun xs => Except.ok xs.eraseDups) hflat

/-! ## Ids and their heads -/

section WithHeads

variable {ids registered covered : List String}

theorem mem_withHeads (h : withHeads ids registered = .ok covered) (hid : id ∈ ids) :
    id ∈ covered := by
  obtain ⟨expanded, he, h⟩ := bind_eq_ok h
  obtain rfl := Except.ok.inj h
  obtain ⟨xs, hxs, hf⟩ := mem_mapM_of_mem he hid
  have hx : id ∈ xs := by
    obtain ⟨head?, -, hf⟩ := bind_eq_ok hf
    cases head? with
    | none =>
      obtain rfl := Except.ok.inj hf
      simp
    | some head =>
      obtain rfl := Except.ok.inj hf
      split <;> simp
  exact List.mem_eraseDups.mpr (List.mem_flatten.mpr ⟨xs, hxs, hx⟩)

theorem head_mem_withHeads (h : withHeads ids registered = .ok covered) (hid : id ∈ ids)
    (hr : id ∉ registered) {head : String} (hh : dottedHead? id = .ok (some head)) :
    head ∈ covered := by
  obtain ⟨expanded, he, h⟩ := bind_eq_ok h
  obtain rfl := Except.ok.inj h
  obtain ⟨xs, hxs, hf⟩ := mem_mapM_of_mem he hid
  rw [hh] at hf
  obtain rfl := Except.ok.inj hf
  exact List.mem_eraseDups.mpr (List.mem_flatten.mpr ⟨_, hxs, by simp [hr]⟩)

/-- The heads of ids are missing only when one of the ids has an index that cannot be read. -/
theorem withHeads_eq_error {c : Abort} (h : withHeads ids registered = .error c) :
    ∃ id ∈ ids, RowRef.parse? id = .error c := by
  rcases bind_eq_error h with h | ⟨expanded, -, h⟩
  · obtain ⟨id, hid, hf⟩ := exists_of_mapM_eq_error h
    refine ⟨id, hid, ?_⟩
    rcases bind_eq_error hf with hhead | ⟨head?, -, hf⟩
    · unfold dottedHead? at hhead
      split at hhead
      · rcases bind_eq_error hhead with hrow | ⟨isRow, -, hhead⟩
        · unfold isRowId at hrow
          cases hp : RowRef.parse? id with
          | error d =>
            rw [hp] at hrow
            obtain rfl : d = c := Except.error.inj hrow
            rfl
          | ok r =>
            rw [hp] at hrow
            cases hrow
        · split at hhead <;> cases hhead
      · cases hhead
    · cases head? with
      | none => cases hf
      | some head => split at hf <;> cases hf
  · cases h

end WithHeads

end LiveForm
