import LiveForm.Proofs.Except
import LiveForm.Value.Text

/-! # What can be written

A literal needs room for every level of the collections in a value, and a text for every whole number
in it. A display text needs the same, but that a level of lists takes more room. -/

namespace LiveForm

section Limits

variable {levels room left : Nat}

theorem below_eq_ok : below levels room = .ok left ↔ left + levels = room := by
  unfold below
  split
  · rename_i hroom
    rw [Except.ok.injEq]
    omega
  · rename_i hroom
    refine iff_of_false nofun ?_
    omega

theorem orUnwritable_eq_ok {b : Bool} : orUnwritable b = .ok () ↔ b := by
  cases b
  · exact iff_of_false nofun nofun
  · exact iff_of_true rfl rfl

theorem cause_of_below {c : Abort} (h : below levels room = .error c) : c = .depth := by
  unfold below at h
  split at h
  · cases h
  · exact (Except.error.inj h).symm

theorem cause_of_orUnwritable {b : Bool} {c : Abort} (h : orUnwritable b = .error c) :
    c = .domain := by
  cases b
  · exact (Except.error.inj h).symm
  · cases h

/-- A guard in front of another passes what both pass. -/
theorem guards_eq_ok {g h : Except Abort Unit} :
    (do g; h) = .ok () ↔ g = .ok () ∧ h = .ok () := by
  cases g with
  | error c => exact iff_of_false nofun fun hg => (by cases hg.1)
  | ok u => exact ⟨fun hh => ⟨rfl, hh⟩, And.right⟩

/-- What stands some levels further down needs the room that is left there. -/
theorem exists_below_bind_iff {α : Type} {p : Prop} {need : Nat} {f : Nat → Except Abort α}
    (h : ∀ left, (∃ a, f left = .ok a) ↔ p ∧ need ≤ left) :
    (∃ a, below levels room >>= f = .ok a) ↔ p ∧ need + levels ≤ room := by
  rw [exists_bind_iff]
  constructor
  · intro ⟨left, hleft, ha⟩
    have hroom := below_eq_ok.mp hleft
    obtain ⟨hp, hneed⟩ := (h left).mp ha
    exact ⟨hp, by omega⟩
  · intro ⟨hp, hroom⟩
    exact ⟨room - levels, below_eq_ok.mpr (by omega), (h _).mpr ⟨hp, by omega⟩⟩

theorem below_bind_eq_ok {g : Nat → Except Abort Unit} {p : Prop} {need : Nat}
    (h : ∀ left, g left = .ok () ↔ p ∧ need ≤ left) :
    below levels room >>= g = .ok () ↔ p ∧ need + levels ≤ room := by
  have passes (r : Except Abort Unit) : (∃ u, r = .ok u) ↔ r = .ok () :=
    ⟨fun ⟨_, hr⟩ => hr, fun hr => ⟨(), hr⟩⟩
  rw [← passes]
  exact exists_below_bind_iff fun left => (passes (g left)).trans (h left)

end Limits

namespace Value

mutual

/-- Whether every whole number in a value can be written. -/
def isWritable : Value → Bool
  | .int n => LiveForm.isWritable n
  | .list items => areWritable items
  | .mapping entries => entriesAreWritable entries
  | _ => true

def areWritable : List Value → Bool
  | [] => true
  | v :: rest => isWritable v && areWritable rest

def entriesAreWritable : List (Key × Value) → Bool
  | [] => true
  | (k, v) :: rest => k.isWritable && isWritable v && entriesAreWritable rest

end

mutual

/-- The levels of collections in a value. -/
def nesting : Value → Nat
  | .list items => itemsNesting items + 1
  | .mapping entries => entriesNesting entries + 1
  | _ => 0

def itemsNesting : List Value → Nat
  | [] => 0
  | v :: rest => max v.nesting (itemsNesting rest)

def entriesNesting : List (Key × Value) → Nat
  | [] => 0
  | (_, v) :: rest => max v.nesting (entriesNesting rest)

end

mutual

/-- The levels that the display text of a value takes. -/
def displayNesting : Value → Nat
  | .list items => itemsDisplayNesting items + displayLevels
  | v => v.nesting

def itemsDisplayNesting : List Value → Nat
  | [] => 0
  | v :: rest => max v.displayNesting (itemsDisplayNesting rest)

end

theorem itemsNesting_le_iff {items : List Value} {room : Nat} :
    itemsNesting items ≤ room ↔ ∀ v ∈ items, v.nesting ≤ room := by
  induction items with
  | nil => simp [itemsNesting]
  | cons v rest ih => rw [itemsNesting, Nat.max_le, ih, List.forall_mem_cons]

theorem entriesNesting_le_iff {entries : List (Key × Value)} {room : Nat} :
    entriesNesting entries ≤ room ↔ ∀ e ∈ entries, e.2.nesting ≤ room := by
  induction entries with
  | nil => simp [entriesNesting]
  | cons e rest ih => rw [entriesNesting, Nat.max_le, ih, List.forall_mem_cons]

theorem areWritable_iff {items : List Value} :
    areWritable items = true ↔ ∀ v ∈ items, v.isWritable = true := by
  induction items with
  | nil => simp [areWritable]
  | cons v rest ih => simp [areWritable, ih]

mutual

theorem guardLiteral_eq_ok {room : Nat} {v : Value} :
    v.guardLiteral room = .ok () ↔ v.isWritable ∧ v.nesting ≤ room := by
  cases v with
  | int n => simp [guardLiteral, isWritable, nesting, orUnwritable_eq_ok]
  | list items =>
    rw [guardLiteral, isWritable, nesting]
    exact below_bind_eq_ok fun room => guardLiterals_eq_ok
  | mapping entries =>
    rw [guardLiteral, isWritable, nesting]
    exact below_bind_eq_ok fun room => guardEntries_eq_ok
  | _ => simp [guardLiteral, isWritable, nesting]

theorem guardLiterals_eq_ok {room : Nat} {items : List Value} :
    guardLiterals room items = .ok () ↔ areWritable items ∧ itemsNesting items ≤ room := by
  match items with
  | [] => simp [guardLiterals, areWritable, itemsNesting]
  | v :: rest =>
    rw [guardLiterals, areWritable, itemsNesting, Bool.and_eq_true, Nat.max_le]
    refine guards_eq_ok.trans ?_
    rw [guardLiteral_eq_ok, guardLiterals_eq_ok]
    exact and_and_and_comm

theorem guardEntries_eq_ok {room : Nat} {entries : List (Key × Value)} :
    guardEntries room entries = .ok () ↔
      entriesAreWritable entries ∧ entriesNesting entries ≤ room := by
  match entries with
  | [] => simp [guardEntries, entriesAreWritable, entriesNesting]
  | (k, v) :: rest =>
    rw [guardEntries, entriesAreWritable, entriesNesting, Bool.and_eq_true, Bool.and_eq_true,
      Nat.max_le, and_assoc, and_assoc]
    refine guards_eq_ok.trans (and_congr orUnwritable_eq_ok (guards_eq_ok.trans ?_))
    rw [guardLiteral_eq_ok, guardEntries_eq_ok, and_assoc]
    exact and_congr_right fun _ => and_left_comm

end

mutual

theorem guardDisplay_eq_ok {room : Nat} {v : Value} :
    v.guardDisplay room = .ok () ↔ v.isWritable ∧ v.displayNesting ≤ room := by
  cases v with
  | list items =>
    rw [guardDisplay, isWritable, displayNesting]
    exact below_bind_eq_ok fun room => guardDisplays_eq_ok
  | _ =>
    rw [guardDisplay, displayNesting]
    · exact guardLiteral_eq_ok
    · nofun
    · nofun

theorem guardDisplays_eq_ok {room : Nat} {items : List Value} :
    guardDisplays room items = .ok () ↔
      areWritable items ∧ itemsDisplayNesting items ≤ room := by
  match items with
  | [] => simp [guardDisplays, areWritable, itemsDisplayNesting]
  | v :: rest =>
    rw [guardDisplays, areWritable, itemsDisplayNesting, Bool.and_eq_true, Nat.max_le]
    refine guards_eq_ok.trans ?_
    rw [guardDisplay_eq_ok, guardDisplays_eq_ok]
    exact and_and_and_comm

end

/-! ## Why a text breaks off -/

/-- A text breaks off at a number with too many digits, or for want of room. -/
def IsWritingCause (c : Abort) : Prop := c = .domain ∨ c = .depth

mutual

theorem cause_of_guardLiteral {room : Nat} {v : Value} {c : Abort}
    (h : v.guardLiteral room = .error c) : IsWritingCause c := by
  cases v with
  | int n => exact .inl (cause_of_orUnwritable h)
  | list items =>
    rw [guardLiteral] at h
    rcases bind_eq_error h with h | ⟨left, -, h⟩
    · exact .inr (cause_of_below h)
    · exact cause_of_guardLiterals h
  | mapping entries =>
    rw [guardLiteral] at h
    rcases bind_eq_error h with h | ⟨left, -, h⟩
    · exact .inr (cause_of_below h)
    · exact cause_of_guardEntries h
  | _ => simp [guardLiteral] at h

theorem cause_of_guardLiterals {room : Nat} {items : List Value} {c : Abort}
    (h : guardLiterals room items = .error c) : IsWritingCause c := by
  match items with
  | [] => cases h
  | v :: rest =>
    rw [guardLiterals] at h
    rcases bind_eq_error h with h | ⟨-, -, h⟩
    · exact cause_of_guardLiteral h
    · exact cause_of_guardLiterals h

theorem cause_of_guardEntries {room : Nat} {entries : List (Key × Value)} {c : Abort}
    (h : guardEntries room entries = .error c) : IsWritingCause c := by
  match entries with
  | [] => cases h
  | (k, v) :: rest =>
    rw [guardEntries] at h
    rcases bind_eq_error h with h | ⟨-, -, h⟩
    · exact .inl (cause_of_orUnwritable h)
    · rcases bind_eq_error h with h | ⟨-, -, h⟩
      · exact cause_of_guardLiteral h
      · exact cause_of_guardEntries h

end

mutual

theorem cause_of_guardDisplay {room : Nat} {v : Value} {c : Abort}
    (h : v.guardDisplay room = .error c) : IsWritingCause c := by
  cases v with
  | list items =>
    rw [guardDisplay] at h
    rcases bind_eq_error h with h | ⟨left, -, h⟩
    · exact .inr (cause_of_below h)
    · exact cause_of_guardDisplays h
  | _ =>
    rw [guardDisplay] at h
    · exact cause_of_guardLiteral h
    · nofun

theorem cause_of_guardDisplays {room : Nat} {items : List Value} {c : Abort}
    (h : guardDisplays room items = .error c) : IsWritingCause c := by
  match items with
  | [] => cases h
  | v :: rest =>
    rw [guardDisplays] at h
    rcases bind_eq_error h with h | ⟨-, -, h⟩
    · exact cause_of_guardDisplay h
    · exact cause_of_guardDisplays h

end

section Texts

variable {room : Nat} {v : Value} {s : String}

theorem exists_written_iff :
    (∃ s, v.written room = .ok s) ↔ v.isWritable ∧ v.nesting ≤ room := by
  rw [← guardLiteral_eq_ok, written, exists_bind_iff]
  exact ⟨fun ⟨_, h, _⟩ => h, fun h => ⟨(), h, _, rfl⟩⟩

/-- **A value has a display text if its whole numbers have one and there is room for its levels.** -/
theorem exists_shown_iff :
    (∃ s, v.shown room = .ok s) ↔ v.isWritable ∧ v.displayNesting ≤ room := by
  rw [← guardDisplay_eq_ok, shown, exists_bind_iff]
  exact ⟨fun ⟨_, h, _⟩ => h, fun h => ⟨(), h, _, rfl⟩⟩

theorem eq_literal_of_written (h : v.written room = .ok s) : s = v.literal := by
  obtain ⟨-, -, h⟩ := bind_eq_ok h
  exact (Except.ok.inj h).symm

end Texts

end Value

end LiveForm
