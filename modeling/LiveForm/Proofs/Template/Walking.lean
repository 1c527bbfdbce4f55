import LiveForm.Proofs.Template
import LiveForm.Proofs.Template.Matching

/-! # Where a path ends

A path is walked segment by segment. The walk is lost where a value has nothing under the next segment.
It is stuck where it comes to a list and the next segment is made of digits, but is no number: not all
of them are decimal, or there are too many. -/

namespace LiveForm.Template

open Text

/-- Digits that cannot be read as an index. -/
structure IsBadIndex (segment : String) : Prop where
  ne_empty : segment ≠ ""
  digits : ∀ c ∈ segment.toList, isDigitLike c
  unread : (∃ c ∈ segment.toList, ¬isDecimal c) ∨ digitLimit < segment.toList.length

/-- The value has nothing under the segment. -/
def Lacks : Value → String → Prop
  | .mapping entries, segment =>
    segment ≠ "length" ∧ ∀ key ∈ names ⟨entries⟩, ∀ kind : Match, ¬kind.Relates segment key
  | .list items, segment =>
    segment ≠ "length" ∧ ¬IsBadIndex segment ∧ ∀ i, index? segment = .ok (some i) → items.length ≤ i
  | .text _, segment => segment ≠ "length"
  | _, _ => True

def IsList : Value → Prop
  | .list _ => True
  | _ => False

/-- A walk comes to a value and a segment that are so. -/
inductive ComesTo (here : Value → String → Prop) : Value → List String → Prop
  | here {v : Value} {segment : String} {rest : List String} (h : here v segment) :
      ComesTo here v (segment :: rest)
  | later {v w : Value} {segment : String} {rest : List String}
      (h : step v segment = .ok (some w)) (hrest : ComesTo here w rest) :
      ComesTo here v (segment :: rest)

/-- The walk comes to a list, and goes on with what is no index. -/
def Stuck : Value → List String → Prop :=
  ComesTo fun v segment => IsList v ∧ IsBadIndex segment

/-- The walk comes to a value that has nothing under the next segment. -/
def Lost : Value → List String → Prop := ComesTo Lacks

/-- A path that is no key, and on which the walk is stuck. -/
def PathBreaks (m : Mapping) (path : String) : Prop :=
  m.get? (.text path) = none ∧ Stuck (.ofMapping m) (splitPath path)

/-- A path that is no key, and on which the walk is lost. -/
def PathIsLost (m : Mapping) (path : String) : Prop :=
  m.get? (.text path) = none ∧ Lost (.ofMapping m) (splitPath path)

section Steps

variable {segment : String} {v : Value} {c : Abort}

theorem whole_eq_error {cs : List Char} :
    Numeral.whole cs = .error c ↔ c = .domain ∧ digitLimit < cs.length := by
  unfold Numeral.whole orTooLong
  split
  · rename_i hle
    exact ⟨fun h => (by cases h), fun h => absurd h.2 (Nat.not_lt.mpr hle)⟩
  · rename_i hlt
    exact ⟨fun h => ⟨(Except.error.inj h).symm, Nat.lt_of_not_le hlt⟩, fun h => h.1 ▸ rfl⟩

theorem isEmpty_toList_iff : segment.toList.isEmpty ↔ segment = "" := by
  rw [List.isEmpty_iff]
  exact ⟨fun h => String.toList_inj.mp h, fun h => h ▸ rfl⟩

theorem index?_eq_error : index? segment = .error c ↔ c = .domain ∧ IsBadIndex segment := by
  have hbad : IsBadIndex segment ↔
      (¬segment.toList.isEmpty ∧ segment.toList.all isDigitLike) ∧
        (¬segment.toList.all isDecimal ∨ digitLimit < segment.toList.length) := by
    rw [isEmpty_toList_iff, List.all_eq_true, List.all_eq_true, not_forall₂]
    exact ⟨fun h => ⟨⟨h.ne_empty, h.digits⟩, by simpa using h.unread⟩,
      fun h => ⟨h.1.1, h.1.2, by simpa using h.2⟩⟩
  rw [hbad]
  unfold index?
  dsimp only
  split
  · rename_i hnone
    refine ⟨fun h => (by cases h), fun ⟨_, ⟨hne, hdigits⟩, _⟩ => ?_⟩
    rw [hdigits, Bool.not_true, Bool.or_false] at hnone
    exact absurd hnone hne
  · rename_i hdigits
    rw [Bool.or_eq_true, not_or, Bool.not_eq_true', Bool.not_eq_false] at hdigits
    rw [and_iff_right hdigits]
    split
    · rename_i hdecimal
      rw [map_eq_error, whole_eq_error, or_iff_right (not_not.mpr hdecimal)]
    · rename_i hdecimal
      rw [and_iff_left (.inl hdecimal)]
      exact ⟨fun h => (Except.error.inj h).symm, fun h => h ▸ rfl⟩

/-- The name of a length is no index. -/
theorem not_isBadIndex_length : ¬IsBadIndex "length" := fun h =>
  Bool.false_ne_true (h.digits 'l' (by decide))

/-- A step fails only into a list. -/
theorem step_eq_error :
    step v segment = .error c ↔ c = .domain ∧ IsList v ∧ IsBadIndex segment := by
  unfold step
  cases v with
  | list items =>
    rw [and_iff_right (a := IsList (.list items)) trivial]
    dsimp only
    split
    · rename_i hlength
      exact ⟨fun h => (by cases h), fun h => absurd (hlength ▸ h.2) not_isBadIndex_length⟩
    · rw [return_eq_error, index?_eq_error]
  | mapping entries =>
    dsimp only
    split <;> exact ⟨fun h => (by cases h), fun h => h.2.1.elim⟩
  | _ => exact ⟨fun h => (by cases h), fun h => h.2.1.elim⟩

/-- A key that a name finds is a key of the mapping. -/
theorem get?_isSome_of_lookupKey? {m : Mapping} {name key : String} (h : lookupKey? m name = some key) :
    (m.get? (.text key)).isSome := by
  obtain ⟨kind, hbest⟩ := lookupKey?_eq_some_iff.mp h
  obtain ⟨before, after, hnames, -⟩ := hbest.first
  have hmem : key ∈ names m := hnames ▸ List.mem_append_right _ List.mem_cons_self
  obtain ⟨k, hk, htext⟩ := List.mem_filterMap.mp hmem
  obtain ⟨e, he, rfl⟩ := List.mem_map.mp hk
  refine List.lookup_isSome_iff.mpr ⟨e, he, ?_⟩
  obtain ⟨k, v⟩ := e
  cases k with
  | text x =>
    obtain rfl := Option.some.inj htext
    exact text_beq_self x
  | _ => cases htext

theorem step_eq_none : step v segment = .ok none ↔ Lacks v segment := by
  have hbad : IsBadIndex segment ↔ index? segment = .error .domain := by
    rw [index?_eq_error, and_iff_right rfl]
  unfold step Lacks
  cases v with
  | list items =>
    dsimp only
    rw [hbad]
    split
    · rename_i hlength
      exact ⟨fun h => (by cases h), fun h => absurd hlength h.1⟩
    · rename_i hlength
      rw [and_iff_right hlength]
      cases hindex : index? segment with
      | error c =>
        obtain ⟨rfl, -⟩ := index?_eq_error.mp hindex
        exact ⟨fun h => (by cases h), fun h => absurd rfl h.1⟩
      | ok i? =>
        cases i? with
        | none => exact iff_of_true rfl ⟨nofun, nofun⟩
        | some i =>
          have hnone : (Except.ok items[i]? : Except Abort _) = .ok none ↔ items.length ≤ i := by
            rw [Except.ok.injEq, List.getElem?_eq_none_iff]
          exact hnone.trans ⟨fun h => ⟨nofun, fun j hj => by cases hj; exact h⟩, fun h => h.2 i rfl⟩
  | mapping entries =>
    dsimp only
    rw [← lookupKey?_eq_none_iff]
    cases hkey : lookupKey? ⟨entries⟩ segment with
    | some key =>
      obtain ⟨v, hv⟩ := Option.isSome_iff_exists.mp (get?_isSome_of_lookupKey? hkey)
      dsimp only
      rw [hv]
      exact ⟨fun h => (by cases h), fun ⟨_, h⟩ => (by cases h)⟩
    | none =>
      dsimp only
      split <;> simp [*]
  | text s =>
    dsimp only
    split <;> simp [*]
  | _ => exact iff_of_true rfl trivial

end Steps

section Walks

variable {here : Value → String → Prop} {segment : String} {rest way : List String} {v : Value}
  {r : Except Abort (Option Value)}

theorem comesTo_cons_iff : ComesTo here v (segment :: rest) ↔
    here v segment ∨ ∃ w, step v segment = .ok (some w) ∧ ComesTo here w rest := by
  constructor
  · intro h
    cases h with
    | here h => exact .inl h
    | later h hrest => exact .inr ⟨_, h, hrest⟩
  · intro h
    obtain h | ⟨w, h, hrest⟩ := h
    · exact .here h
    · exact .later h hrest

theorem comesTo_and_iff {p : Prop} :
    ComesTo (fun v segment => p ∧ here v segment) v way ↔ p ∧ ComesTo here v way := by
  constructor
  · intro h
    induction h with
    | here h => exact ⟨h.1, .here h.2⟩
    | later h _ ih => exact ⟨ih.1, .later h ih.2⟩
  · intro ⟨hp, h⟩
    induction h with
    | here h => exact .here ⟨hp, h⟩
    | later h _ ih => exact .later h ih

/-- A walk that does not arrive ends with the first step that does not. -/
theorem walk_eq_iff (hr : ∀ w, r ≠ .ok (some w)) :
    walk way v = r ↔ ComesTo (fun v segment => step v segment = r) v way := by
  induction way generalizing v with
  | nil => exact iff_of_false (fun h => hr v h.symm) fun h => (by cases h)
  | cons segment rest ih =>
    rw [walk, comesTo_cons_iff]
    cases step v segment with
    | error c => exact (or_iff_left (by simp)).symm
    | ok w? =>
      cases w? with
      | none => exact (or_iff_left (by simp)).symm
      | some w =>
        refine ih.trans ⟨fun h => .inr ⟨w, rfl, h⟩, fun h => ?_⟩
        obtain h | ⟨_, heq, h⟩ := h
        · exact absurd h.symm (hr w)
        · exact Option.some.inj (Except.ok.inj heq) ▸ h

theorem walk_eq_none : walk way v = .ok none ↔ Lost v way := by
  rw [walk_eq_iff (fun w h => by cases h), Lost]
  simp only [step_eq_none]

theorem exists_walk_iff : (∃ w?, walk way v = .ok w?) ↔ ¬Stuck v way := by
  have hstuck (c : Abort) : walk way v = .error c ↔ c = .domain ∧ Stuck v way := by
    rw [walk_eq_iff (fun w h => by cases h)]
    simp only [step_eq_error]
    exact comesTo_and_iff
  cases hwalk : walk way v with
  | error c => exact iff_of_false (fun ⟨_, h⟩ => (by cases h)) (not_not_intro ((hstuck c).mp hwalk).2)
  | ok w? =>
    refine iff_of_true ⟨w?, rfl⟩ fun h => ?_
    cases hwalk.symm.trans ((hstuck .domain).mpr ⟨rfl, h⟩)

end Walks

section Paths

variable {m : Mapping} {path : String}

theorem exists_resolvePath_iff : (∃ w?, resolvePath path m = .ok w?) ↔ ¬PathBreaks m path := by
  unfold resolvePath PathBreaks
  cases m.get? (.text path) with
  | some v => exact iff_of_true ⟨_, rfl⟩ fun h => (by cases h.1)
  | none =>
    rw [and_iff_right rfl]
    exact exists_walk_iff

theorem resolvePath_eq_none : resolvePath path m = .ok none ↔ PathIsLost m path := by
  unfold resolvePath PathIsLost
  cases m.get? (.text path) with
  | some v => exact iff_of_false (fun h => (by cases h)) fun h => (by cases h.1)
  | none =>
    rw [and_iff_right rfl]
    exact walk_eq_none

end Paths

end LiveForm.Template
