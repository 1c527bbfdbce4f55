import LiveForm.Json.Order
import Mathlib.Data.List.Nodup
import Mathlib.Data.List.Sort
import Mathlib.Order.Basic

/-! # Sorting by keys

Where `before` compares keys of a linear order, the items end up in the order of their keys, however
they came; and when no key comes twice, there is only one such order. -/

namespace LiveForm.Json

variable {α β : Type} [LinearOrder β] {before : α → α → Bool} {key : α → β}
  {items sorted rest run : List α} {item last : α}

/-- Among the items, to be before another is to have the smaller key. -/
def Compares (before : α → α → Bool) (key : α → β) (items : List α) : Prop :=
  ∀ a ∈ items, ∀ b ∈ items, before a b = true ↔ key a < key b

/-- Items in the order of their keys. -/
def Rising (key : α → β) (items : List α) : Prop := items.Pairwise fun a b => key a ≤ key b

theorem Compares.subset {items' : List α} (h : Compares before key items) (hs : items' ⊆ items) :
    Compares before key items' := fun a ha b hb => h a (hs ha) b (hs hb)

/-! ## The first run -/

theorem risingRun_rising (h : Compares before key (last :: items)) :
    Rising key (risingRun before last items).1 ∧
      ∀ a ∈ (risingRun before last items).1, key last ≤ key a := by
  induction items generalizing last with
  | nil => simp [risingRun, Rising]
  | cons next rest ih =>
    rw [risingRun]
    split
    · simp [Rising]
    · rename_i hb
      have hle : key last ≤ key next :=
        not_lt.mp fun hlt => hb ((h next (by simp) last (by simp)).mpr hlt)
      obtain ⟨hr, hlast⟩ := ih (h.subset (List.subset_cons_self _ _))
      have hall : ∀ a ∈ (risingRun before next rest).1, key last ≤ key a :=
        fun a ha => hle.trans (hlast a ha)
      exact ⟨List.pairwise_cons.mpr ⟨hall, hr⟩, List.forall_mem_cons.mpr ⟨le_rfl, hall⟩⟩

theorem fallingRun_falling (h : Compares before key (last :: items)) :
    (fallingRun before last items).1.Pairwise (fun a b => key b ≤ key a) ∧
      ∀ a ∈ (fallingRun before last items).1, key a ≤ key last := by
  induction items generalizing last with
  | nil => simp [fallingRun]
  | cons next rest ih =>
    rw [fallingRun]
    split
    · rename_i hb
      have hle : key next ≤ key last := ((h next (by simp) last (by simp)).mp hb).le
      obtain ⟨hf, hlast⟩ := ih (h.subset (List.subset_cons_self _ _))
      have hall : ∀ a ∈ (fallingRun before next rest).1, key a ≤ key last :=
        fun a ha => (hlast a ha).trans hle
      exact ⟨List.pairwise_cons.mpr ⟨hall, hf⟩, List.forall_mem_cons.mpr ⟨le_rfl, hall⟩⟩
    · simp

theorem firstRun_rising (h : Compares before key items) : Rising key (firstRun before items).1 := by
  match items with
  | [] => exact .nil
  | [a] => exact List.pairwise_singleton _ _
  | first :: second :: rest =>
    rw [firstRun]
    split
    · exact List.pairwise_reverse.mpr (fallingRun_falling h).1
    · exact (risingRun_rising h).1

/-! ## Placing one item -/

/-- Halving keeps what is known of the positions outside of the bounds: below them no key is greater
than the item's, and from them on all are. -/
theorem place_spec (hs : Rising key sorted) (hc : Compares before key (item :: sorted))
    {low high : Nat} (hle : low ≤ high) (hhigh : high ≤ sorted.length)
    (hbelow : ∀ i a, i < low → sorted[i]? = some a → key a ≤ key item)
    (habove : ∀ i a, high ≤ i → sorted[i]? = some a → key item < key a) :
    (∀ i a, i < place before sorted item low high → sorted[i]? = some a → key a ≤ key item) ∧
      ∀ i a, place before sorted item low high ≤ i → sorted[i]? = some a → key item < key a := by
  have hmono {i j : Nat} {a b : α} (hij : i ≤ j) (ha : sorted[i]? = some a)
      (hb : sorted[j]? = some b) : key a ≤ key b := by
    obtain ⟨hi, rfl⟩ := List.getElem?_eq_some_iff.mp ha
    obtain ⟨hj, rfl⟩ := List.getElem?_eq_some_iff.mp hb
    rcases Nat.lt_or_eq_of_le hij with hlt | rfl
    · exact List.pairwise_iff_getElem.mp hs i j hi hj hlt
    · exact le_rfl
  have hbefore {i : Nat} {a : α} (ha : sorted[i]? = some a) :
      before item a = true ↔ key item < key a :=
    hc item (by simp) a (List.mem_cons_of_mem _ (List.mem_of_getElem? ha))
  induction hn : high - low using Nat.strongRecOn generalizing low high with
  | ind n ih =>
    subst hn
    rw [place]
    split
    · rename_i hlt
      dsimp only
      have hmiddle : low + (high - low) / 2 < high := by omega
      obtain ⟨other, ho⟩ : ∃ other, sorted[low + (high - low) / 2]? = some other :=
        ⟨_, List.getElem?_eq_getElem (by omega)⟩
      rw [ho]
      dsimp only
      split
      · rename_i hb
        refine ih _ (by omega) (by omega) (by omega) hbelow (fun i a hi ha => ?_) rfl
        exact ((hbefore ho).mp hb).trans_le (hmono hi ho ha)
      · rename_i hb
        refine ih _ (by omega) (by omega) hhigh (fun i a hi ha => ?_) habove rfl
        exact (hmono (by omega) ha ho).trans (not_lt.mp fun hlt => hb ((hbefore ho).mpr hlt))
    · obtain rfl : low = high := by omega
      exact ⟨hbelow, habove⟩

theorem insertOne_rising (hs : Rising key sorted) (hc : Compares before key (item :: sorted)) :
    Rising key (insertOne before sorted item) := by
  obtain ⟨hbelow, habove⟩ := place_spec hs hc (Nat.zero_le _) le_rfl
    (fun i a hi => absurd hi (Nat.not_lt_zero i))
    (fun i a hi ha => absurd (List.getElem?_eq_some_iff.mp ha).1 (Nat.not_lt.mpr hi))
  unfold insertOne
  generalize place before sorted item 0 sorted.length = position at *
  have htake : ∀ a ∈ sorted.take position, key a ≤ key item := by
    intro a ha
    obtain ⟨i, hi⟩ := List.mem_iff_getElem?.mp ha
    obtain ⟨hlt, hi⟩ : i < position ∧ sorted[i]? = some a := by
      simpa [List.getElem?_take, ite_eq_iff] using hi
    exact hbelow i a hlt hi
  have hdrop : ∀ a ∈ sorted.drop position, key item ≤ key a := by
    intro a ha
    obtain ⟨i, hi⟩ := List.mem_iff_getElem?.mp ha
    rw [List.getElem?_drop] at hi
    exact (habove _ a (Nat.le_add_right _ _) hi).le
  refine List.pairwise_append.mpr ⟨hs.sublist (List.take_sublist _ _), ?_, ?_⟩
  · exact List.pairwise_cons.mpr ⟨hdrop, hs.sublist (List.drop_sublist _ _)⟩
  · intro a ha b hb
    rcases List.mem_cons.mp hb with rfl | hb
    · exact htake a ha
    · exact (htake a ha).trans (hdrop b hb)

/-! ## All items -/

theorem foldl_insertOne_rising (hs : Rising key run) (hc : Compares before key (run ++ rest)) :
    Rising key (rest.foldl (insertOne before) run) := by
  induction rest generalizing run with
  | nil => exact hs
  | cons item rest ih =>
    have hperm : (item :: run ++ rest).Perm (run ++ item :: rest) := List.perm_middle.symm
    refine ih (insertOne_rising hs (hc.subset fun a ha => ?_)) (hc.subset fun a ha => ?_)
    · exact hperm.subset (List.mem_append_left _ ha)
    · exact hperm.subset (((insertOne_perm before run item).append_right rest).subset ha)

theorem inOrder_rising (hc : Compares before key items) : Rising key (inOrder before items) :=
  foldl_insertOne_rising (firstRun_rising hc) (hc.subset (firstRun_perm before items).subset)

/-- **Items with different keys come out in one order, in whatever order they come.** -/
theorem inOrder_eq_of_perm {items' : List α} (hc : Compares before key items)
    (hn : (items.map key).Nodup) (hp : items'.Perm items) :
    inOrder before items' = inOrder before items := by
  have hperm := inOrder_perm before items
  refine List.Perm.eq_of_pairwise (fun a b ha hb hab hba => ?_)
    (inOrder_rising (hc.subset hp.subset)) (inOrder_rising hc)
    ((inOrder_perm before items').trans (hp.trans hperm.symm))
  have ha := hp.subset ((inOrder_perm before items').subset ha)
  exact List.inj_on_of_nodup_map hn ha (hperm.subset hb) (le_antisymm hab hba)

end LiveForm.Json
