import LiveForm.Proofs.Graph.Edges
import Mathlib.Data.List.Perm.Subperm

/-! # What the schedule places

Two invariants of a sweep. The first holds for any edge lists whatever: no id is placed or waits
twice, only nodes are placed, and the rounds suffice. The second needs both ends of the edges to
agree: the count of a node is the number of its dependencies that are not placed, so that exactly
the nodes with all dependencies placed wait or have been placed. -/

namespace LiveForm.Graph

namespace Sweep

@[simp] theorem release_placed (s : Sweep) (x : String) : (s.release x).placed = s.placed := by
  unfold release; split <;> rfl

@[simp] theorem foldl_release_placed (ids : List String) (s : Sweep) :
    (ids.foldl release s).placed = s.placed := by
  induction ids generalizing s with
  | nil => rfl
  | cons x rest ih => rw [List.foldl_cons, ih, release_placed]

/-! ## Any edge lists -/

/-- What holds of every sweep: ids are placed once, and a node has no count left once it waits. -/
structure Sound (nodes : Nodes) (s : Sweep) : Prop where
  distinct : (s.placed ++ s.waiting).Nodup
  keys_eq : s.degrees.keys = nodes.keys
  spent : ∀ x ∈ s.placed ++ s.waiting, ∃ d ≤ 0, s.degrees.get? x = some d

namespace Sound

variable {nodes : Nodes} {s : Sweep}

theorem known (h : Sound nodes s) {x : String} (hx : x ∈ s.placed ++ s.waiting) :
    x ∈ nodes.keys := by
  obtain ⟨d, -, hd⟩ := h.spent x hx
  exact h.keys_eq ▸ Table.mem_keys_of_get? hd

theorem length_le (h : Sound nodes s) : s.placed.length + s.waiting.length ≤ nodes.size := by
  rw [← List.length_append, ← Table.length_keys]
  exact (List.Nodup.subperm h.distinct fun _ hx => h.known hx).length_le

theorem start (nodes : Nodes) (hn : nodes.keys.Nodup) : Sound nodes (Sweep.start nodes) := by
  have hk : (nodes.mapValues (degree nodes)).keys = nodes.keys := Table.keys_mapValues _ _
  refine ⟨?_, hk, fun x hx => ?_⟩
  · have hw : (Sweep.start nodes).waiting.Sublist (nodes.mapValues (degree nodes)).keys :=
      List.filter_sublist.map _
    exact (hk ▸ hn).sublist hw
  · obtain ⟨⟨y, d⟩, he, rfl⟩ := List.mem_map.mp hx
    obtain ⟨he, hd⟩ := List.mem_filter.mp he
    have h0 : d = 0 := by simpa using hd
    exact ⟨d, by omega, Table.get?_of_mem (hk ▸ hn) he⟩

theorem release (h : Sound nodes s) (x : String) : Sound nodes (s.release x) := by
  unfold Sweep.release
  cases hx : s.degrees.get? x with
  | none => exact h
  | some d =>
    have hk : (s.degrees.insert x (d - 1)).keys = nodes.keys := by
      rw [Table.keys_insert_of_mem (Table.mem_keys_of_get? hx), h.keys_eq]
    by_cases hd : d - 1 = 0
    · have hnew : x ∉ s.placed ++ s.waiting := by
        intro hm
        obtain ⟨d', hle, hd'⟩ := h.spent x hm
        rw [hx] at hd'
        cases hd'
        omega
      simp only [hd, if_true]
      refine ⟨?_, by rw [← hd, hk], fun y hy => ?_⟩
      · rw [← List.append_assoc]
        exact List.Nodup.append h.distinct (by simp) (by simpa using hnew)
      · rw [Table.get?_insert]
        by_cases hyx : y = x
        · exact ⟨0, Int.le_refl 0, by simp [hyx]⟩
        · have hy' : y ∈ s.placed ++ s.waiting := by
            simpa [hyx, List.mem_append] using hy
          simpa [hyx] using h.spent y hy'
    · simp only [hd, if_false]
      refine ⟨h.distinct, hk, fun y hy => ?_⟩
      obtain ⟨d', hle, hd'⟩ := h.spent y hy
      rw [Table.get?_insert]
      by_cases hyx : y = x
      · subst hyx
        rw [hx] at hd'
        cases hd'
        exact ⟨d - 1, by omega, by simp⟩
      · exact ⟨d', hle, by simpa [hyx] using hd'⟩

theorem foldl_release (h : Sound nodes s) (ids : List String) :
    Sound nodes (ids.foldl Sweep.release s) := by
  induction ids generalizing s with
  | nil => exact h
  | cons x rest ih => exact ih (h.release x)

theorem place {current : String} {rest : List String} (h : Sound nodes s)
    (hw : s.waiting = current :: rest) : Sound nodes (s.place nodes current rest) := by
  have he : s.placed ++ s.waiting = (s.placed ++ [current]) ++ rest := by simp [hw]
  have hs : Sound nodes { s with waiting := rest, placed := s.placed ++ [current] } :=
    ⟨he ▸ h.distinct, h.keys_eq, fun x hx => h.spent x (he ▸ hx)⟩
  exact hs.foldl_release _

end Sound

theorem place_placed (nodes : Nodes) (s : Sweep) (current : String) (rest : List String) :
    (s.place nodes current rest).placed = s.placed ++ [current] := by
  unfold place
  rw [foldl_release_placed]

/-- An invariant that a round keeps holds after every number of rounds. -/
theorem run_induction {nodes : Nodes} {P : Sweep → Prop}
    (hp : ∀ s current rest, P s → s.waiting = current :: rest → P (s.place nodes current rest))
    (rounds : Nat) {s : Sweep} (h : P s) : P (Sweep.run nodes rounds s) := by
  induction rounds generalizing s with
  | zero => exact h
  | succ rounds ih =>
    unfold run
    split
    · exact h
    · rename_i current rest hw
      exact ih (hp s current rest h hw)

/-- A sweep that has rounds left over has nothing left to place. -/
theorem run_waiting_or_length (nodes : Nodes) (rounds : Nat) (s : Sweep) :
    (run nodes rounds s).waiting = [] ∨
      (run nodes rounds s).placed.length = s.placed.length + rounds := by
  induction rounds generalizing s with
  | zero => exact .inr rfl
  | succ rounds ih =>
    unfold run
    split
    · rename_i hw
      exact .inl hw
    · rename_i current rest hw
      have h := ih (s.place nodes current rest)
      rw [place_placed, List.length_append] at h
      exact h.imp_right fun h => by simp at h; omega

theorem run_sound {nodes : Nodes} (hn : nodes.keys.Nodup) (rounds : Nat) :
    Sound nodes (run nodes rounds (start nodes)) :=
  run_induction (fun _ _ _ h hw => h.place hw) rounds (Sound.start nodes hn)

theorem run_waiting_eq_nil {nodes : Nodes} (hn : nodes.keys.Nodup) :
    (run nodes nodes.size (start nodes)).waiting = [] := by
  have hs := (run_sound hn nodes.size).length_le
  rcases run_waiting_or_length nodes nodes.size (start nodes) with h | h
  · exact h
  · have h0 : (start nodes).placed = [] := rfl
    rw [h0, List.length_nil] at h
    exact List.eq_nil_of_length_eq_zero (by omega)

end Sweep

theorem schedule_nodup {nodes : Nodes} (hn : nodes.keys.Nodup) : (schedule nodes).Nodup :=
  List.Nodup.of_append_left (Sweep.run_sound hn nodes.size).distinct

theorem schedule_subset {nodes : Nodes} (hn : nodes.keys.Nodup) : schedule nodes ⊆ nodes.keys :=
  fun _ hx => (Sweep.run_sound hn nodes.size).known (List.mem_append_left _ hx)

/-- The order and the nodes outside it are the nodes, each of them once. -/
theorem schedule_perm {nodes : Nodes} (hn : nodes.keys.Nodup) :
    (schedule nodes ++ nodes.keys.filter fun id => !(schedule nodes).contains id).Perm
      nodes.keys := by
  have hd : (schedule nodes ++ nodes.keys.filter fun id => !(schedule nodes).contains id).Nodup := by
    refine List.Nodup.append (schedule_nodup hn) (hn.filter _) fun x hx hf => ?_
    simpa [hx] using (List.mem_filter.mp hf).2
  refine (List.perm_ext_iff_of_nodup hd hn).mpr fun x => ?_
  rw [List.mem_append, List.mem_filter]
  constructor
  · rintro (hx | ⟨hx, -⟩)
    · exact schedule_subset hn hx
    · exact hx
  · intro hx
    by_cases hs : x ∈ schedule nodes
    · exact .inl hs
    · exact .inr ⟨hx, by simpa using hs⟩

/-! ## Edges whose ends agree -/

namespace Sweep

/-- A release takes one off the count of a node, which waits from then on if it had one left. -/
theorem release_eq (s : Sweep) (y : String) :
    (s.release y).waiting = s.waiting ++ (if s.degrees.get? y == some 1 then [y] else []) ∧
      ∀ x, (s.release y).degrees.get? x =
        if x = y then (s.degrees.get? x).map (· - 1) else s.degrees.get? x := by
  unfold release
  cases he : s.degrees.get? y with
  | none =>
    refine ⟨by simp, fun x => ?_⟩
    by_cases hx : x = y <;> simp [hx, he]
  | some d =>
    refine ⟨?_, fun x => ?_⟩
    · by_cases h1 : d = 1
      · simp [h1]
      · have h0 : ¬d - 1 = 0 := by omega
        simp [h0, h1]
    · by_cases hx : x = y <;> simp [hx, he, Table.get?_insert]

/-- One round of releases takes one off the count of every listed node, and those that had one left
wait from now on, in the order of the list. -/
theorem foldl_release_eq {ids : List String} (hn : ids.Nodup) (s : Sweep) :
    (ids.foldl release s).waiting =
        s.waiting ++ ids.filter (fun x => s.degrees.get? x == some 1) ∧
      ∀ x, (ids.foldl release s).degrees.get? x =
        if x ∈ ids then (s.degrees.get? x).map (· - 1) else s.degrees.get? x := by
  induction ids generalizing s with
  | nil => simp
  | cons y rest ih =>
    obtain ⟨hy, hr⟩ := List.nodup_cons.mp hn
    obtain ⟨hw, hd⟩ := ih hr (s.release y)
    obtain ⟨hrw, hrd⟩ := release_eq s y
    have hf : rest.filter (fun x => (s.release y).degrees.get? x == some 1) =
        rest.filter (fun x => s.degrees.get? x == some 1) := by
      refine List.filter_congr fun x hx => ?_
      have hne : x ≠ y := by
        rintro rfl
        exact hy hx
      rw [hrd, if_neg hne]
    rw [List.foldl_cons]
    refine ⟨?_, fun x => ?_⟩
    · rw [hw, hrw, hf, List.filter_cons, List.append_assoc]
      split <;> rfl
    · rw [hd, hrd]
      by_cases hx : x = y
      · subst hx
        simp [hy]
      · simp [hx]

/-- The dependencies of a node that have not been placed. -/
def unplaced (s : Sweep) (n : Node) : Nat := n.dependencies.countP fun d => !s.placed.contains d

theorem unplaced_eq_zero_iff {s : Sweep} {n : Node} :
    s.unplaced n = 0 ↔ ∀ d ∈ n.dependencies, d ∈ s.placed := by
  simp [unplaced, List.countP_eq_zero]

theorem countP_concat {ps : List String} {c : String} (hc : c ∉ ps) {ds : List String}
    (hn : ds.Nodup) :
    ds.countP (fun d => !ps.contains d) =
      ds.countP (fun d => !(ps ++ [c]).contains d) + if c ∈ ds then 1 else 0 := by
  induction ds with
  | nil => rfl
  | cons d rest ih =>
    obtain ⟨hd, hr⟩ := List.nodup_cons.mp hn
    rw [List.countP_cons, List.countP_cons, ih hr]
    by_cases hdc : d = c
    · subst hdc
      simp [hc, hd]
    · have hcd : c ≠ d := Ne.symm hdc
      by_cases hp : d ∈ ps
      · simp [hp, hcd]
      · by_cases hm : c ∈ rest <;> simp [hp, hdc, hcd, hm]

/-- Placing one more id takes one off the count of the nodes that depend on it. -/
theorem unplaced_concat {s t : Sweep} {n : Node} {c : String} (hn : n.dependencies.Nodup)
    (hc : c ∉ s.placed) (ht : t.placed = s.placed ++ [c]) :
    s.unplaced n = t.unplaced n + if c ∈ n.dependencies then 1 else 0 := by
  unfold unplaced
  rw [ht]
  exact countP_concat hc hn

/-- The count of a node is the number of its dependencies that are not placed, and each placed node
stands after its dependencies. -/
structure Exact (nodes : Nodes) (s : Sweep) : Prop where
  degree : ∀ x n, nodes.get? x = some n → s.degrees.get? x = some (s.unplaced n : Int)
  ready : ∀ x n, nodes.get? x = some n →
    (x ∈ s.placed ++ s.waiting ↔ ∀ d ∈ n.dependencies, d ∈ s.placed)
  ordered : ∀ x n, nodes.get? x = some n → x ∈ s.placed →
    ∀ d ∈ n.dependencies, s.placed.idxOf d < s.placed.idxOf x

section Round

variable {nodes : Nodes} {E : Edges} {s : Sweep} {current : String} {rest : List String}

theorem Sound.not_placed (hs : Sound nodes s) (hw : s.waiting = current :: rest) :
    current ∉ s.placed := by
  intro hp
  have hd := hs.distinct
  rw [hw] at hd
  exact List.disjoint_of_nodup_append hd hp (by simp)

/-- A round as one equation: the dependents of the placed node are those that have it as a
dependency. -/
theorem place_eq (m : Mirrors nodes E) (hs : Sound nodes s) (hw : s.waiting = current :: rest) :
    ∃ ids : List String, ids.Nodup ∧
      (∀ x n, nodes.get? x = some n → (x ∈ ids ↔ current ∈ n.dependencies)) ∧
      s.place nodes current rest =
        ids.foldl release { s with waiting := rest, placed := s.placed ++ [current] } := by
  obtain ⟨c, hc⟩ := Table.exists_get?_of_mem_keys (hs.known (x := current) (by simp [hw]))
  have hcs := m.shows current c hc
  refine ⟨c.dependents, hcs.dependents_nodup, fun x n hx => ?_, by simp [place, hc]⟩
  rw [hcs.dependents, (m.shows x n hx).dependencies]

/-- A round takes one off the count of each node that depends on the placed one. -/
theorem place_degrees (m : Mirrors nodes E) (hs : Sound nodes s) (hw : s.waiting = current :: rest)
    {x : String} {n : Node} (hx : nodes.get? x = some n) :
    (s.place nodes current rest).degrees.get? x =
      if current ∈ n.dependencies then (s.degrees.get? x).map (· - 1) else s.degrees.get? x := by
  obtain ⟨ids, hn, hids, he⟩ := place_eq m hs hw
  rw [he, (foldl_release_eq hn _).2]
  by_cases hm : current ∈ n.dependencies
  · rw [if_pos hm, if_pos ((hids x n hx).mpr hm)]
  · rw [if_neg hm, if_neg fun hi => hm ((hids x n hx).mp hi)]

/-- The nodes for which the placed one was the last start to wait, after those that waited before. -/
theorem place_waiting (m : Mirrors nodes E) (hs : Sound nodes s) (hw : s.waiting = current :: rest) :
    ∃ fresh : List String, (s.place nodes current rest).waiting = rest ++ fresh ∧
      ∀ x n, nodes.get? x = some n →
        (x ∈ fresh ↔ current ∈ n.dependencies ∧ s.degrees.get? x = some 1) := by
  obtain ⟨ids, hn, hids, he⟩ := place_eq m hs hw
  refine ⟨_, by rw [he, (foldl_release_eq hn _).1], fun x n hx => ?_⟩
  rw [List.mem_filter, hids x n hx, beq_iff_eq]

/-- A round adds to the ids that wait the nodes for which the placed one was the last. -/
theorem mem_place (m : Mirrors nodes E) (hs : Sound nodes s) (hw : s.waiting = current :: rest)
    {x : String} {n : Node} (hx : nodes.get? x = some n) :
    x ∈ (s.place nodes current rest).placed ++ (s.place nodes current rest).waiting ↔
      x ∈ s.placed ++ s.waiting ∨ (current ∈ n.dependencies ∧ s.degrees.get? x = some 1) := by
  obtain ⟨fresh, hwait, hfresh⟩ := place_waiting m hs hw
  rw [place_placed, hwait, hw, List.append_assoc, List.singleton_append, List.cons_append.symm,
    ← List.append_assoc, List.mem_append, hfresh x n hx]

end Round

/-- No dependency is missing, so at first a count is the number of all of them. -/
theorem degree_eq_length {nodes : Nodes} {E : Edges} (m : Mirrors nodes E) {x : String} {n : Node}
    (hx : nodes.get? x = some n) : degree nodes n = n.dependencies.length := by
  have hknown : n.dependencies.countP nodes.contains = n.dependencies.length := by
    refine List.countP_eq_length.mpr fun d hd => ?_
    rw [Table.contains_iff_mem_keys, m.node_iff]
    exact (m.closed x d (((m.shows x n hx).dependencies d).mp hd)).2
  rw [degree, hknown]

namespace Exact

variable {nodes : Nodes} {E : Edges} {s : Sweep}

theorem start (m : Mirrors nodes E) : Exact nodes (Sweep.start nodes) := by
  have hkeys : (Sweep.start nodes).degrees.keys = nodes.keys := Table.keys_mapValues _ _
  have hnone : ∀ n : Node, (Sweep.start nodes).unplaced n = n.dependencies.length := by
    intro n
    exact List.countP_eq_length.mpr fun d _ => rfl
  have hdeg : ∀ x n, nodes.get? x = some n →
      (Sweep.start nodes).degrees.get? x = some ((Sweep.start nodes).unplaced n : Int) := by
    intro x n hx
    rw [hnone]
    simp [Sweep.start, Table.get?_mapValues, hx, degree_eq_length m hx]
  have hwait : ∀ x, x ∈ (Sweep.start nodes).waiting ↔
      (Sweep.start nodes).degrees.get? x = some 0 := by
    intro x
    have hn : (Sweep.start nodes).degrees.keys.Nodup := hkeys ▸ m.keys_nodup
    constructor
    · intro hx
      obtain ⟨⟨y, d⟩, he, rfl⟩ := List.mem_map.mp hx
      obtain ⟨he, hd⟩ := List.mem_filter.mp he
      have h0 : d = 0 := by simpa using hd
      exact h0 ▸ Table.get?_of_mem hn he
    · intro hx
      exact List.mem_map.mpr ⟨(x, 0), List.mem_filter.mpr ⟨Table.mem_of_get? hx, rfl⟩, rfl⟩
  refine ⟨hdeg, fun x n hx => ?_, fun x n _ hp => by cases hp⟩
  have hp : (Sweep.start nodes).placed = [] := rfl
  rw [hp, List.nil_append, hwait, hdeg x n hx, ← hp, ← unplaced_eq_zero_iff]
  simp

theorem place (m : Mirrors nodes E) (hs : Sound nodes s) (h : Exact nodes s) {current : String}
    {rest : List String} (hw : s.waiting = current :: rest) :
    Exact nodes (s.place nodes current rest) := by
  have hcp := hs.not_placed hw
  have hp := place_placed nodes s current rest
  have hcount : ∀ x n, nodes.get? x = some n → s.unplaced n =
      (s.place nodes current rest).unplaced n + if current ∈ n.dependencies then 1 else 0 :=
    fun x n hx => unplaced_concat (m.shows x n hx).dependencies_nodup hcp hp
  refine ⟨fun x n hx => ?_, fun x n hx => ?_, fun x n hx hxp d hd => ?_⟩
  · have hcnt := hcount x n hx
    rw [place_degrees m hs hw hx, h.degree x n hx]
    by_cases hm : current ∈ n.dependencies
    · rw [if_pos hm] at hcnt
      simp [hm, hcnt]
    · rw [if_neg hm] at hcnt
      simp [hm, hcnt]
  · have hcnt := hcount x n hx
    have hone : s.degrees.get? x = some 1 ↔ s.unplaced n = 1 := by
      rw [h.degree x n hx, Option.some.injEq]
      omega
    rw [mem_place m hs hw hx, hone, h.ready x n hx, ← unplaced_eq_zero_iff, ← unplaced_eq_zero_iff]
    by_cases hm : current ∈ n.dependencies
    · rw [if_pos hm] at hcnt
      simp only [hm, true_and]
      omega
    · rw [if_neg hm] at hcnt
      simp only [hm, false_and, or_false]
      omega
  · rw [hp] at hxp ⊢
    have hold : x ∈ s.placed ++ s.waiting := by
      rcases List.mem_append.mp hxp with hx' | hx'
      · exact List.mem_append_left _ hx'
      · exact List.mem_append_right _ (by simp_all)
    have hdp : d ∈ s.placed := (h.ready x n hx).mp hold d hd
    rw [List.idxOf_append_of_mem hdp]
    by_cases hx' : x ∈ s.placed
    · rw [List.idxOf_append_of_mem hx']
      exact h.ordered x n hx hx' d hd
    · have hlt := List.idxOf_lt_length_of_mem hdp
      rw [List.idxOf_append_of_notMem hx']
      omega

end Exact

theorem run_exact {nodes : Nodes} {E : Edges} (m : Mirrors nodes E) (rounds : Nat) :
    Exact nodes (run nodes rounds (start nodes)) := by
  have h := run_induction (P := fun s => Sound nodes s ∧ Exact nodes s)
    (fun _ _ _ h hw => ⟨h.1.place hw, h.2.place m h.1 hw⟩) rounds
    ⟨Sound.start nodes m.keys_nodup, Exact.start m⟩
  exact h.2

end Sweep

/-- A node is in the order exactly when all its dependencies are. -/
theorem mem_schedule_iff {nodes : Nodes} {E : Edges} (m : Mirrors nodes E) {x : String}
    (hx : E.node x) : x ∈ schedule nodes ↔ ∀ d, E.edge x d → d ∈ schedule nodes := by
  obtain ⟨n, hn⟩ := Table.exists_get?_of_mem_keys ((m.node_iff x).mpr hx)
  have h := (Sweep.run_exact m nodes.size).ready x n hn
  rw [Sweep.run_waiting_eq_nil m.keys_nodup, List.append_nil] at h
  exact h.trans (forall_congr' fun d => by rw [(m.shows x n hn).dependencies]; rfl)

/-- What a placed node depends on stands before it. -/
theorem idxOf_schedule_lt {nodes : Nodes} {E : Edges} (m : Mirrors nodes E) {x d : String}
    (hx : x ∈ schedule nodes) (he : E.edge x d) :
    (schedule nodes).idxOf d < (schedule nodes).idxOf x := by
  obtain ⟨n, hn⟩ := Table.exists_get?_of_mem_keys (schedule_subset m.keys_nodup hx)
  exact (Sweep.run_exact m nodes.size).ordered x n hn hx d (((m.shows x n hn).dependencies d).mpr he)

end LiveForm.Graph
