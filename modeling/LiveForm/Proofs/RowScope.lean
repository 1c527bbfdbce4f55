import LiveForm.Proofs.Mapping
import LiveForm.Row

/-! # What a local name stands for in a row

In the scope of a row field a local name stands for what the context has under the id of the cell, or
else for the cell of the entered row. Only when the row has no such cell does the name stand for what
it stands for elsewhere. -/

namespace LiveForm.RowRef

variable {r : RowRef} {c : Context} {key n : String}

theorem sibling?_eq_some : r.sibling? key = some n ↔ key = r.qualify n ∧ isLocalName n := by
  have hkey : (r.qualify n).toList = r.stem.toList ++ n.toList := by simp [qualify]
  unfold sibling?
  dsimp only
  by_cases hprefix : r.stem.toList.isPrefixOf key.toList
  · obtain ⟨name, hname⟩ := List.isPrefixOf_iff_prefix.mp hprefix
    have hdrop : String.ofList (key.toList.drop r.stem.toList.length) = String.ofList name := by
      rw [← hname, List.drop_left]
    rw [if_pos hprefix, hdrop]
    constructor
    · intro h
      split at h
      · rename_i hlocal
        obtain rfl := Option.some.inj h
        refine ⟨String.toList_inj.mp ?_, hlocal⟩
        simp [qualify, ← hname]
      · cases h
    · rintro ⟨rfl, hlocal⟩
      obtain rfl : name = n.toList := List.append_cancel_left (hname.trans hkey)
      rw [String.ofList_toList, if_pos hlocal]
  · rw [if_neg hprefix]
    refine ⟨fun h => (by cases h), ?_⟩
    rintro ⟨rfl, -⟩
    exact absurd (List.isPrefixOf_iff_prefix.mpr ⟨n.toList, hkey.symm⟩) hprefix

/-- The cell of the row that a local name stands for, if there is one. -/
def cell? (r : RowRef) (c : Context) (n : String) : Option Value :=
  (c.get? (r.qualify n)).or ((r.row? c).bind fun row => row.2.lookup (.text n))

/-- Entries under ids of the row are bound over what is bound before. -/
theorem get?_foldl_sibling (hn : isLocalName n) {es : List (String × Value)}
    (hes : (es.map (·.1)).Nodup) (m : Mapping) :
    (es.foldl (fun m (key, v) =>
      match r.sibling? key with
      | some name => m.insert (.text name) v
      | none => m) m).get? (.text n) = (es.lookup (r.qualify n)).or (m.get? (.text n)) := by
  induction es generalizing m with
  | nil => rfl
  | cons e rest ih =>
    obtain ⟨key, v⟩ := e
    obtain ⟨hkey, hrest⟩ := List.nodup_cons.mp hes
    rw [List.foldl_cons, ih hrest, List.lookup_cons]
    cases hs : r.sibling? key with
    | none =>
      have hne : r.qualify n ≠ key := by
        rintro rfl
        rw [sibling?_eq_some.mpr ⟨rfl, hn⟩] at hs
        cases hs
      simp only [hs, beq_false_of_ne hne]
    | some name =>
      simp only [hs]
      obtain ⟨rfl, -⟩ := sibling?_eq_some.mp hs
      by_cases hname : n = name
      · subst hname
        have hnone : rest.lookup (r.qualify n) = none := by
          rw [List.lookup_eq_none_iff]
          rintro ⟨k, w⟩ hmem
          exact bne_iff_ne.mpr fun heq => hkey (List.mem_map.mpr ⟨(k, w), hmem, heq.symm⟩)
        rw [beq_self_eq_true, hnone, Option.none_or, Option.some_or]
        exact lookup_put_text_self _ _ _
      · have hne : r.qualify n ≠ r.qualify name := by
          intro heq
          have hlist : r.stem.toList ++ n.toList = r.stem.toList ++ name.toList := by
            simpa [qualify] using congrArg String.toList heq
          exact hname (String.toList_inj.mp (List.append_cancel_left hlist))
        rw [beq_false_of_ne hne]
        exact congrArg _ (lookup_put_text_of_ne _ _ _ fun heq => hname (Key.text.inj heq))

/-- **The row wins.** In the scope of a row field a local name stands for its cell, and only without
one for what it stands for in the context. -/
theorem get?_scope (hc : c.keys.Nodup)
    (hcells : ∀ rows cells, r.row? c = some (rows, cells) → (cells.map (·.1)).Nodup)
    (hn : isLocalName n) : (r.scope c).get? (.text n) = (r.cell? c n).or (c.get? n) := by
  unfold scope cell?
  dsimp only
  refine (get?_foldl_sibling hn hc _).trans ?_
  rw [Option.or_assoc]
  congr 1
  cases hrow : r.row? c with
  | none => exact Mapping.get?_ofContext c n
  | some row =>
    obtain ⟨rows, cells⟩ := row
    dsimp only
    rw [Mapping.get?_merge_text (hcells rows cells hrow), Mapping.get?_ofContext, Option.bind_some]

end LiveForm.RowRef
