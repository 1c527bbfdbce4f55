import LiveForm.Proofs.Json.Trees
import LiveForm.Proofs.Snapshot
import LiveForm.Proofs.Table

/-! # What two snapshots share

A snapshot is the text of one mapping, from each id to its value. So two snapshots of the same ids are
the same text just if the values are the same trees, a missing one counting as null; provided that
there is a text at all, which a whole number of too many digits has not, nor a value whose collections
are nested more deeply than there is room for. -/

namespace LiveForm

open Json

/-- What a scope binds an id to; null if it does not. -/
def valueOf (scope : Scope) (id : String) : Value := (scope id).getD .null

/-- The mapping that a snapshot is the text of. -/
def bound (scope : Scope) (ids : List String) : List (Key × Value) :=
  ids.eraseDups.map fun id => (Key.text id, valueOf scope id)

variable {D : Set Float} {room : Nat} {σ τ : Scope} {ids js : List String} {x : String} {v : Value}

theorem snapshotWithin_eq_render (room : Nat) (σ : Scope) (ids : List String) :
    snapshotWithin room σ ids = render room compact 0 (.mapping (bound σ ids)) := rfl

theorem keys_bound (σ : Scope) (ids : List String) :
    (bound σ ids).map Prod.fst = ids.eraseDups.map Key.text := by
  rw [bound, List.map_map]
  rfl

theorem textKeys_bound (σ : Scope) (ids : List String) : TextKeys (bound σ ids) := by
  intro e he
  obtain ⟨id, -, rfl⟩ := List.mem_map.mp he
  exact ⟨id, rfl⟩

theorem nodup_keys_bound (σ : Scope) (ids : List String) : ((bound σ ids).map Prod.fst).Nodup := by
  rw [keys_bound]
  exact (nodup_eraseDups ids).map fun _ _ h => Key.text.inj h

theorem mem_bound {k : Key} : (k, v) ∈ bound σ ids ↔ ∃ x ∈ ids, k = .text x ∧ v = valueOf σ x := by
  simp only [bound, List.mem_map, List.mem_eraseDups, Prod.mk.injEq]
  constructor
  · rintro ⟨x, hx, rfl, rfl⟩
    exact ⟨x, hx, rfl, rfl⟩
  · rintro ⟨x, hx, rfl, rfl⟩
    exact ⟨x, hx, rfl, rfl⟩

theorem isTree_bound (h : ∀ x ∈ ids, IsTree D (valueOf σ x)) :
    IsTree D (.mapping (bound σ ids)) := by
  refine .mapping (nodup_keys_bound σ ids) (textKeys_bound σ ids) fun (k, v) he => ?_
  obtain ⟨x, hx, -, rfl⟩ := mem_bound.mp he
  exact h x hx

theorem sameTree_bound_iff : SameTree (.mapping (bound σ ids)) (.mapping (bound τ ids)) ↔
    ∀ x ∈ ids, SameTree (valueOf σ x) (valueOf τ x) := by
  constructor
  · intro h x hx
    exact h.of_mapping (.text x) _ _ (mem_bound.mpr ⟨x, hx, rfl, rfl⟩) (mem_bound.mpr ⟨x, hx, rfl, rfl⟩)
  · intro h
    refine .mapping (fun k => by rw [keys_bound, keys_bound]) fun k v w hv hw => ?_
    obtain ⟨x, hx, rfl, rfl⟩ := mem_bound.mp hv
    obtain ⟨y, -, hxy, rfl⟩ := mem_bound.mp hw
    obtain rfl := Key.text.inj hxy
    exact h x hx

theorem forall_bound_iff {p : Value → Prop} :
    (∀ e ∈ bound σ ids, p e.2) ↔ ∀ x ∈ ids, p (valueOf σ x) := by
  constructor
  · intro h x hx
    exact h _ (mem_bound.mpr ⟨x, hx, rfl, rfl⟩)
  · rintro h ⟨k, v⟩ he
    obtain ⟨x, hx, -, rfl⟩ := mem_bound.mp he
    exact h x hx

/-- There is a snapshot if every value can be written one level down. -/
theorem exists_snapshotWithin_iff (h : ∀ x ∈ ids, IsTree D (valueOf σ x)) :
    (∃ text, snapshotWithin (room + 1) σ ids = .ok text) ↔
      ∀ x ∈ ids, (valueOf σ x).isWritable ∧ (valueOf σ x).nesting ≤ room := by
  rw [snapshotWithin_eq_render, (isTree_bound h).exists_render_iff, Value.isWritable, Value.nesting,
    entriesAreWritable_iff (textKeys_bound σ ids), Nat.add_le_add_iff_right,
    Value.entriesNesting_le_iff, forall_bound_iff (p := fun v => v.isWritable = true),
    forall_bound_iff (p := fun v => v.nesting ≤ room), ← forall₂_and]

/-- Neither the order nor the repetition of ids shows in the text. -/
theorem snapshotWithin_congr_ids (room : Nat) (σ : Scope) (h : ∀ x, x ∈ js ↔ x ∈ ids) :
    snapshotWithin room σ js = snapshotWithin room σ ids := by
  have hids : js.eraseDups.Perm ids.eraseDups := by
    refine (List.perm_ext_iff_of_nodup (nodup_eraseDups js) (nodup_eraseDups ids)).mpr fun x => ?_
    rw [List.mem_eraseDups, List.mem_eraseDups, h]
  rw [snapshotWithin_eq_render, snapshotWithin_eq_render, render, render]
  refine bind_congr fun left => ?_
  have hparts : (partsOf left (bound σ js)).Perm (partsOf left (bound σ ids)) := (hids.map _).map _
  have hmembers := members_eq_of_perm (textKeys_partsOf (textKeys_bound σ ids))
    (by rw [keys_partsOf]; exact nodup_keys_bound σ ids) hparts
  rw [renderEntries_eq_partsOf, renderEntries_eq_partsOf, hmembers]

/-- **Two snapshots of the same ids are the same text just if the values are the same trees, all their
whole numbers can be written, and there is room for their levels** below the one of the snapshot itself.
The order and the repetition of ids do not matter. The values are trees whose doubles have different
texts. -/
theorem snapshot_eq_iff_sameTree (hD : D.InjOn Decimal.floatText)
    (hσ : ∀ x ∈ ids, IsTree D (valueOf σ x)) (hτ : ∀ x ∈ ids, IsTree D (valueOf τ x)) (room : Nat) :
    ((∃ text, snapshotWithin (room + 1) σ ids = .ok text ∧
        snapshotWithin (room + 1) τ ids = .ok text) ↔
      ∀ x ∈ ids, ((valueOf σ x).isWritable ∧ (valueOf σ x).nesting ≤ room) ∧
        SameTree (valueOf σ x) (valueOf τ x)) ∧
    ∀ js, (∀ x, x ∈ js ↔ x ∈ ids) →
      snapshotWithin (room + 1) σ js = snapshotWithin (room + 1) σ ids := by
  refine ⟨?_, fun js h => snapshotWithin_congr_ids (room + 1) σ h⟩
  have hs := isTree_bound hσ
  have ht := isTree_bound hτ
  rw [forall₂_and, ← exists_snapshotWithin_iff hσ, ← sameTree_bound_iff, snapshotWithin_eq_render,
    snapshotWithin_eq_render]
  constructor
  · rintro ⟨text, h, h'⟩
    exact ⟨⟨text, h⟩, hs.sameTree hD ht h h'⟩
  · rintro ⟨⟨text, h⟩, hsame⟩
    exact ⟨text, h, hsame.render_eq hs ht ▸ h⟩

/-- One mapping with its entries in two orders, and an id that is missing in one place and null in the
other. -/
theorem snapshot_eq_iff_sameTree_reordered :
    let p : Key × Value := (.text "p", .int 1)
    let q : Key × Value := (.text "q", .list [.float 1.5, .float 2.5, .bool true])
    let σ : Scope := fun x => if x = "a" then some (.mapping [p, q]) else none
    let τ : Scope := fun x => if x = "a" then some (.mapping [q, p]) else some .null
    (∃ text, snapshot σ ["a", "b"] = .ok text ∧ snapshot τ ["a", "b"] = .ok text) ∧
      snapshot σ ["b", "a", "b"] = snapshot σ ["a", "b"] := by
  intro p q σ τ
  have hD : Set.InjOn Decimal.floatText {1.5, 2.5} := by
    rintro x (rfl | rfl) y (rfl | rfl) h
    · rfl
    · exact absurd h (by decide +kernel)
    · exact absurd h (by decide +kernel)
    · rfl
  have hp : IsTree {1.5, 2.5} p.2 := .int 1
  have hq : IsTree {1.5, 2.5} q.2 := by
    refine .list fun v hv => ?_
    simp only [List.mem_cons, List.not_mem_nil, or_false] at hv
    rcases hv with rfl | rfl | rfl
    · exact .float (.inl rfl)
    · exact .float (.inr rfl)
    · exact .bool true
  have ha : IsTree {1.5, 2.5} (.mapping [p, q]) :=
    .mapping (by simp [p, q]) (by simp [TextKeys, p, q]) (by simp [hp, hq])
  have ha' : IsTree {1.5, 2.5} (.mapping [q, p]) :=
    .mapping (by simp [p, q]) (by simp [TextKeys, p, q]) (by simp [hp, hq])
  have hσ : ∀ x ∈ ["a", "b"], IsTree {1.5, 2.5} (valueOf σ x) :=
    List.forall_mem_cons.mpr ⟨ha, List.forall_mem_singleton.mpr .null⟩
  have hτ : ∀ x ∈ ["a", "b"], IsTree {1.5, 2.5} (valueOf τ x) :=
    List.forall_mem_cons.mpr ⟨ha', List.forall_mem_singleton.mpr .null⟩
  have hsame : SameTree (.mapping [p, q]) (.mapping [q, p]) := .of_perm ha (.swap p q [])
  obtain ⟨hiff, hids⟩ := snapshot_eq_iff_sameTree hD hσ hτ (depthLimit - 1)
  refine ⟨hiff.mpr (List.forall_mem_cons.mpr ⟨⟨?_, hsame⟩, ?_⟩), hids _ (by simp)⟩
  · exact ⟨by decide +kernel, by decide +kernel⟩
  · exact List.forall_mem_singleton.mpr ⟨⟨rfl, Nat.zero_le _⟩, .null⟩

/-- A list in a list, and so on, with so many lists in the outermost. -/
def nested : Nat → Value
  | 0 => .list []
  | n + 1 => .list [nested n]

theorem isTree_nested (n : Nat) : IsTree ∅ (nested n) := by
  induction n with
  | zero => exact .list fun v hv => (by cases hv)
  | succ n ih => exact .list (List.forall_mem_singleton.mpr ih)

theorem nesting_nested (n : Nat) : (nested n).nesting = n + 1 := by
  induction n with
  | zero => rfl
  | succ n ih => rw [nested, Value.nesting, Value.itemsNesting, Value.itemsNesting, ih, Nat.max_zero]

/-- A tree of which there is no snapshot, although it is the same tree as itself. -/
def IsUnrecorded (v : Value) : Prop :=
  let σ : Scope := fun _ => some v
  IsTree ∅ v ∧ ¬((∃ text, snapshot σ ["x"] = .ok text ∧ snapshot σ ["x"] = .ok text) ↔
    ∀ x ∈ ["x"], SameTree (valueOf σ x) (valueOf σ x))

theorem isUnrecorded_of_not_written (htree : IsTree ∅ v)
    (hv : ¬(v.isWritable ∧ v.nesting ≤ depthLimit - 1)) : IsUnrecorded v := by
  refine ⟨htree, fun hiff => ?_⟩
  have htrees : ∀ x ∈ ["x"], IsTree ∅ (valueOf (fun _ => some v) x) :=
    List.forall_mem_singleton.mpr htree
  obtain ⟨text, h, -⟩ := hiff.mpr fun x hx => .refl (htrees x hx)
  exact hv ((exists_snapshotWithin_iff htrees).mp ⟨text, h⟩ "x" List.mem_cons_self)

/-- A whole number of one digit too many has no text, nor have lists that are nested too deeply. -/
theorem snapshot_not_total :
    IsUnrecorded (.int (Binary.tenTo digitLimit)) ∧ IsUnrecorded (nested depthLimit) := by
  constructor
  · refine isUnrecorded_of_not_written (.int _) fun ⟨hwritable, _⟩ => ?_
    have hlong : LiveForm.isWritable (Binary.tenTo digitLimit : Nat) = false :=
      isWritable_eq_false (by rw [Int.natAbs_natCast])
    exact Bool.false_ne_true (hlong.symm.trans hwritable)
  · refine isUnrecorded_of_not_written (isTree_nested _) fun ⟨_, hnesting⟩ => ?_
    rw [nesting_nested] at hnesting
    exact absurd hnesting (by decide)

end LiveForm
