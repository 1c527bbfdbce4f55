import LiveForm.Proofs.Template.Spelling

/-! # The key that a name finds

Keys match a name in four ways, of which one is stronger than the next. A name finds the first of the keys
that match it in the strongest way in which any key does: a weaker match never comes before a stronger
one, wherever in the mapping it stands. It finds none only if no key matches it in any way. -/

namespace LiveForm.Template

open Text

/-- The keys that are text, in the order of the mapping. -/
def names (m : Mapping) : List String := m.keys.filterMap Key.text?

namespace Match

/-- How many kinds of match are stronger. -/
def rank : Match → Nat
  | sameCase => 0
  | anyCase => 1
  | spelling => 2
  | part => 3

/-- What a kind of match says of a name and a key. -/
def Relates (kind : Match) (name key : String) : Prop :=
  match kind with
  | sameCase => key = name
  | anyCase => lower key.toList = lower name.toList
  | spelling => normalize key = normalize name
  | part => lower name.toList <:+: lower key.toList

end Match

/-- The key is the first one that matches the name in this way, and no key matches it in a stronger
way. -/
structure IsBest (keys : List String) (name key : String) (kind : Match) : Prop where
  relates : kind.Relates name key
  strongest : ∀ other ∈ keys, ∀ k : Match, k.Relates name other → kind.rank ≤ k.rank
  first : ∃ before after, keys = before ++ key :: after ∧
    ∀ other ∈ before, ¬kind.Relates name other

theorem contains_iff_infix {part cs : List Char} : contains part cs ↔ part <:+: cs := by
  refine ⟨infix_of_contains, fun h => ?_⟩
  induction cs with
  | nil => exact List.isEmpty_iff.mpr (List.infix_nil.mp h)
  | cons c rest ih =>
    rw [contains, Bool.or_eq_true_iff]
    exact (List.infix_cons_iff.mp h).imp List.isPrefixOf_iff_prefix.mpr ih

section Kinds

variable {kind k : Match} {name key : String} {keys : List String}

theorem Match.holds_iff : kind.holds name key ↔ kind.Relates name key := by
  cases kind with
  | sameCase => exact beq_iff_eq
  | anyCase => exact beq_iff_eq
  | spelling => exact beq_iff_eq
  | part => exact contains_iff_infix

theorem Match.mem_all (kind : Match) : kind ∈ Match.all := by cases kind <;> decide

/-- The kinds are tried from the strongest on. -/
theorem Match.pairwise_all : Match.all.Pairwise fun j k => j.rank < k.rank := by decide

/-- What the kinds before one and behind it are, where they are tried. -/
theorem Match.mem_before_iff {before after : List Match} (h : Match.all = before ++ kind :: after) :
    k ∈ before ↔ k.rank < kind.rank := by
  obtain ⟨-, hafter, hbefore⟩ := List.pairwise_append.mp (h ▸ Match.pairwise_all)
  refine ⟨fun hk => hbefore k hk kind List.mem_cons_self, fun hlt => ?_⟩
  have hk : k ∈ before ++ kind :: after := h ▸ k.mem_all
  rcases List.mem_append.mp hk with hk | hk
  · exact hk
  rcases List.mem_cons.mp hk with rfl | hk
  · exact absurd hlt (Nat.lt_irrefl _)
  · exact absurd hlt (Nat.lt_asymm ((List.pairwise_cons.mp hafter).1 k hk))

theorem find?_holds_eq_none_iff :
    keys.find? (kind.holds name) = none ↔ ∀ other ∈ keys, ¬kind.Relates name other := by
  rw [List.find?_eq_none]
  exact forall₂_congr fun other _ => not_congr Match.holds_iff

theorem find?_holds_eq_some_iff : keys.find? (kind.holds name) = some key ↔
    kind.Relates name key ∧ ∃ before after, keys = before ++ key :: after ∧
      ∀ other ∈ before, ¬kind.Relates name other := by
  rw [List.find?_eq_some_iff_append, Match.holds_iff]
  simp only [Bool.not_eq_eq_eq_not, Bool.not_true, ← Bool.not_eq_true, Match.holds_iff]

end Kinds

section Lookup

variable {m : Mapping} {name key : String}

/-- A key is found with the first kind of match that finds one. -/
theorem lookupKey?_eq_some_iff :
    lookupKey? m name = some key ↔ ∃ kind, IsBest (names m) name key kind := by
  rw [lookupKey?, List.findSome?_eq_some_iff]
  constructor
  · rintro ⟨before, kind, after, hall, hkey, hnone⟩
    obtain ⟨hrelates, hfirst⟩ := find?_holds_eq_some_iff.mp hkey
    refine ⟨kind, hrelates, fun other hother k hk => Nat.le_of_not_lt fun hlt => ?_, hfirst⟩
    exact find?_holds_eq_none_iff.mp (hnone k ((Match.mem_before_iff hall).mpr hlt)) other hother hk
  · rintro ⟨kind, hrelates, hstrongest, hfirst⟩
    obtain ⟨before, after, hall⟩ := List.append_of_mem kind.mem_all
    refine ⟨before, kind, after, hall, find?_holds_eq_some_iff.mpr ⟨hrelates, hfirst⟩, fun k hk => ?_⟩
    refine find?_holds_eq_none_iff.mpr fun other hother hrelates => ?_
    exact Nat.not_lt.mpr (hstrongest other hother k hrelates) ((Match.mem_before_iff hall).mp hk)

theorem lookupKey?_eq_none_iff : lookupKey? m name = none ↔
    ∀ key ∈ names m, ∀ kind : Match, ¬kind.Relates name key := by
  rw [lookupKey?, List.findSome?_eq_none_iff]
  constructor
  · intro h key hkey kind
    exact find?_holds_eq_none_iff.mp (h kind kind.mem_all) key hkey
  · intro h kind _
    exact find?_holds_eq_none_iff.mpr fun key hkey => h key hkey kind

end Lookup

/-- **A name finds the first of the keys with the strongest kind of match,** and none exactly if no key
matches it in any way. -/
theorem lookupKey?_finds_best (m : Mapping) (name : String) :
    (∀ key, lookupKey? m name = some key ↔ ∃ kind, IsBest (names m) name key kind) ∧
      (lookupKey? m name = none ↔ ∀ key ∈ names m, ∀ kind : Match, ¬kind.Relates name key) :=
  ⟨fun _ => lookupKey?_eq_some_iff, lookupKey?_eq_none_iff⟩

/-- Each of the keys matches in a stronger way than the one before it. -/
example : lookupKey?
    ⟨[(.text "my_unit_price", .null), (.text "unitPrice", .null), (.text "UNIT_PRICE", .null)]⟩
    "unit_price" = some "UNIT_PRICE" := by decide +kernel

end LiveForm.Template
