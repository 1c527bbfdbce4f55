import LiveForm.Proofs.Json.Rendering
import LiveForm.Snapshot

/-! # What a snapshot tells

Two snapshots that are the same text are of the same ids, and each id has the same JSON text in both.
They do not tell a missing value from null, nor values that JSON writes alike, such as mappings that
differ in order. -/

namespace LiveForm

open Json

/-- The JSON text of a value, one level down in a snapshot. -/
def jsonText (v : Value) : Except Abort String := render (depthLimit - 1) compact 0 v

/-- The JSON text that a snapshot holds for an id. -/
def shownIn (scope : Scope) (id : String) : Except Abort String :=
  jsonText ((scope id).getD .null)

section Snapshot

variable {σ τ : Scope} {ids js : List String} {text : String}

theorem mem_snapshot_parts {x : String} {r : Except Abort String} :
    (Key.text x, r) ∈ renderEntries (depthLimit - 1) compact 1
        (ids.eraseDups.map fun id => (Key.text id, (σ id).getD .null)) ↔
      x ∈ ids ∧ r = shownIn σ x := by
  simp only [renderEntries_eq, List.map_map, List.mem_map, List.mem_eraseDups, Function.comp_apply,
    Prod.mk.injEq, Key.text.injEq]
  constructor
  · rintro ⟨y, hy, rfl, rfl⟩
    exact ⟨hy, render_depth _ 1 0 _⟩
  · rintro ⟨hx, rfl⟩
    exact ⟨x, hx, rfl, render_depth _ 1 0 _⟩

theorem snapshot_texts (h : snapshot σ ids = .ok text) :
    ∃ texts, members compact (renderEntries (depthLimit - 1) compact 1
        (ids.eraseDups.map fun id => (Key.text id, (σ id).getD .null))) = .ok texts ∧
      text = enclosed compact 0 "\x7b" "\x7d" texts := by
  rw [snapshot, snapshotWithin, render] at h
  obtain ⟨left, hleft, h⟩ := bind_eq_ok h
  obtain rfl : depthLimit - 1 = left := Except.ok.inj hleft
  obtain ⟨texts, ht, h⟩ := bind_eq_ok h
  exact ⟨texts, ht, (Except.ok.inj h).symm⟩

/-- **A snapshot determines the ids it is of and the JSON text under each.** -/
theorem snapshot_covers (hσ : snapshot σ ids = .ok text) (hτ : snapshot τ js = .ok text)
    {x : String} (hx : x ∈ ids) : x ∈ js ∧ shownIn τ x = shownIn σ x := by
  obtain ⟨ps, hps, rfl⟩ := snapshot_texts hσ
  obtain ⟨qs, hqs, he⟩ := snapshot_texts hτ
  obtain rfl := members_inj (fun k text => closed_renderEntries _ 1 _ k text)
    (fun k text => closed_renderEntries _ 1 _ k text) hps hqs he
  obtain ⟨key, t, hkey, ht, hm⟩ := mem_members_of_mem hps (mem_snapshot_parts.mpr ⟨hx, rfl⟩)
  obtain ⟨k, key', t', hr, hkey', hp⟩ := exists_of_mem_members hqs hm
  obtain ⟨rfl, rfl⟩ := memberText_cancel hp
  obtain rfl : x = key := Except.ok.inj hkey
  simp only [renderEntries_eq, List.map_map, List.mem_map, List.mem_eraseDups,
    Function.comp_apply] at hr
  obtain ⟨y, hy, hp⟩ := hr
  obtain ⟨rfl, hyt⟩ := Prod.mk.inj hp
  obtain rfl : y = x := Except.ok.inj hkey'
  exact ⟨hy, ((render_depth _ 0 1 _).trans hyt).trans ht.symm⟩

end Snapshot

end LiveForm
