import LiveForm.Expr.Evaluation

/-! # What an evaluation depends on

Evaluating a tree looks up names of two kinds: the ones it reads, and the dotted ids that it only
tries. All of them stand in the tree. A second scope that binds the same of them, and agrees on those
that were read, gives the same value or fault, and reads the same names in the same order. -/

namespace LiveForm

namespace Reading

variable {α β : Type} {r r' : Reading α} {f f' : α → Reading β} {P : String → Prop} {x : String}

theorem mem_reads_bind :
    x ∈ (r >>= f).reads ↔ x ∈ r.reads ∨ ∃ a, r.outcome = .ok a ∧ x ∈ (f a).reads := by
  show x ∈ (Reading.bind r f).reads ↔ _
  unfold Reading.bind
  cases h : r.outcome with
  | error c => simp
  | ok a => simp

/-- Two readings in sequence agree when the first do and, on what it gives, the second do. What is
known of every name that the sequence reads is known of both parts. -/
theorem bind_congr (hr : (∀ x ∈ r.reads, P x) → r' = r)
    (hf : ∀ a, (∀ x ∈ (f a).reads, P x) → f' a = f a) (h : ∀ x ∈ (r >>= f).reads, P x) :
    r' >>= f' = r >>= f := by
  obtain rfl := hr fun x hx => h x (mem_reads_bind.mpr (.inl hx))
  show Reading.bind r' f' = Reading.bind r' f
  unfold Reading.bind
  cases ha : r'.outcome with
  | error c => rfl
  | ok a => simp only [hf a fun x hx => h x (mem_reads_bind.mpr (.inr ⟨a, ha, hx⟩))]

end Reading

namespace Expr

mutual

/-- The names that an evaluation may look up: every name, and the id of every chain of accesses. -/
def probes : Expr → List String
  | literal _ => []
  | name id => [id]
  | binary _ left right => left.probes ++ right.probes
  | unary _ operand => operand.probes
  | call _ args => argumentProbes args
  | access object field => (access object field).dotted?.toList ++ object.probes
  | choice condition whenTrue whenFalse =>
    condition.probes ++ whenTrue.probes ++ whenFalse.probes

def argumentProbes : List Expr → List String
  | [] => []
  | e :: rest => e.probes ++ argumentProbes rest

end

/-- Without room there is no evaluation. -/
theorem evaluateWithin_zero (scope : Scope) (e : Expr) :
    e.evaluateWithin 0 scope = .fault (.abort .depth) := by
  cases e <;> rw [evaluateWithin]

/-- Operators other than the two that choose evaluate both operands. -/
theorem evaluateWithin_binary {op : BinaryOp} (hand : op ≠ .and) (hor : op ≠ .or) (room : Nat)
    (scope : Scope) (left right : Expr) :
    (binary op left right).evaluateWithin (room + 1) scope = (do
      let v ← left.evaluateWithin room scope
      let w ← right.evaluateWithin room scope
      .ofExcept (applyBinary room op v w)) := by
  rw [evaluateWithin]
  · exact hand
  · exact hor

/-- The id of a chain of accesses, when the scope binds it. -/
def bound? (scope : Scope) (e : Expr) : Option String :=
  e.dotted?.bind fun id => (scope id).map fun _ => id

theorem evaluateWithin_access (room : Nat) (scope : Scope) (object : Expr) (field : String) :
    (access object field).evaluateWithin (room + 1) scope =
      if room < object.links then .fault (.abort .depth)
      else
        match bound? scope (access object field) with
        | some id => scope.read id
        | none =>
          if field = "value" then object.evaluateWithin room scope
          else (do
            let v ← object.evaluateWithin room scope
            .ofExcept (member room v field)) := by
  rw [evaluateWithin]
  rfl

theorem mem_dotted_of_bound? {scope : Scope} {e : Expr} {id : String}
    (h : bound? scope e = some id) : id ∈ e.dotted?.toList := by
  unfold bound? at h
  cases hd : e.dotted? with
  | none => simp [hd] at h
  | some d =>
    cases hs : scope d with
    | none => simp [hd, hs] at h
    | some v => simpa [hd, hs, eq_comm] using h

theorem mem_reads_read {scope : Scope} {id x : String} (h : x ∈ (scope.read id).reads) :
    x = id := by
  unfold Scope.read at h
  split at h
  · simpa using h
  · simp [Reading.fault] at h

/-! ## What is read stands in the tree -/

mutual

theorem reads_subset_probes (room : Nat) (scope : Scope) (e : Expr) {x : String}
    (h : x ∈ (e.evaluateWithin room scope).reads) : x ∈ e.probes := by
  match room, e with
  | 0, e =>
    rw [evaluateWithin_zero] at h
    cases h
  | room + 1, literal v => simp [evaluateWithin, pure, Reading.pure] at h
  | room + 1, name id =>
    rw [evaluateWithin] at h
    simpa [probes] using mem_reads_read h
  | room + 1, binary op left right =>
    rw [probes, List.mem_append]
    by_cases hand : op = .and
    · subst hand
      rw [evaluateWithin, Reading.mem_reads_bind] at h
      rcases h with h | ⟨v, -, h⟩
      · exact .inl (left.reads_subset_probes room scope h)
      · split at h
        · exact .inr (right.reads_subset_probes room scope h)
        · simp [pure, Reading.pure] at h
    · by_cases hor : op = .or
      · subst hor
        rw [evaluateWithin, Reading.mem_reads_bind] at h
        rcases h with h | ⟨v, -, h⟩
        · exact .inl (left.reads_subset_probes room scope h)
        · split at h
          · simp [pure, Reading.pure] at h
          · exact .inr (right.reads_subset_probes room scope h)
      · rw [evaluateWithin_binary hand hor, Reading.mem_reads_bind] at h
        rcases h with h | ⟨v, -, h⟩
        · exact .inl (left.reads_subset_probes room scope h)
        · rcases Reading.mem_reads_bind.mp h with h | ⟨w, -, h⟩
          · exact .inr (right.reads_subset_probes room scope h)
          · simp [Reading.ofExcept] at h
  | room + 1, unary op operand =>
    rw [evaluateWithin, Reading.mem_reads_bind] at h
    rcases h with h | ⟨v, -, h⟩
    · exact operand.reads_subset_probes room scope h
    · simp [Reading.ofExcept] at h
  | room + 1, call function args =>
    rw [evaluateWithin] at h
    split at h
    · exact choice_reads_subset_probes room scope args h
    · rcases Reading.mem_reads_bind.mp h with h | ⟨v, -, h⟩
      · exact arguments_reads_subset_probes room scope args h
      · simp [Reading.ofExcept] at h
  | room + 1, access object field =>
    rw [probes, List.mem_append]
    rw [evaluateWithin_access] at h
    split at h
    · cases h
    split at h
    · rename_i id hb
      obtain rfl := mem_reads_read h
      exact .inl (mem_dotted_of_bound? hb)
    · split at h
      · exact .inr (object.reads_subset_probes room scope h)
      · rcases Reading.mem_reads_bind.mp h with h | ⟨v, -, h⟩
        · exact .inr (object.reads_subset_probes room scope h)
        · simp [Reading.ofExcept] at h
  | room + 1, choice condition whenTrue whenFalse =>
    rw [probes, List.mem_append, List.mem_append]
    rw [evaluateWithin, Reading.mem_reads_bind] at h
    rcases h with h | ⟨c, -, h⟩
    · exact .inl (.inl (condition.reads_subset_probes room scope h))
    · split at h
      · exact .inl (.inr (whenTrue.reads_subset_probes room scope h))
      · exact .inr (whenFalse.reads_subset_probes room scope h)

theorem choice_reads_subset_probes (room : Nat) (scope : Scope) (args : List Expr) {x : String}
    (h : x ∈ (evaluateChoice room scope args).reads) : x ∈ argumentProbes args := by
  match args with
  | [condition, whenTrue, whenFalse] =>
    simp only [argumentProbes, List.mem_append]
    rw [evaluateChoice, Reading.mem_reads_bind] at h
    rcases h with h | ⟨c, -, h⟩
    · exact .inl (condition.reads_subset_probes room scope h)
    · split at h
      · exact .inr (.inl (whenTrue.reads_subset_probes room scope h))
      · exact .inr (.inr (.inl (whenFalse.reads_subset_probes room scope h)))
  | [] => simp [evaluateChoice, Reading.fault] at h
  | [_] => simp [evaluateChoice, Reading.fault] at h
  | [_, _] => simp [evaluateChoice, Reading.fault] at h
  | _ :: _ :: _ :: _ :: _ => simp [evaluateChoice, Reading.fault] at h

theorem arguments_reads_subset_probes (room : Nat) (scope : Scope) (args : List Expr) {x : String}
    (h : x ∈ (evaluateAll room scope args).reads) : x ∈ argumentProbes args := by
  match args with
  | [] => simp [evaluateAll, pure, Reading.pure] at h
  | e :: rest =>
    rw [argumentProbes, List.mem_append]
    rw [evaluateAll, Reading.mem_reads_bind] at h
    rcases h with h | ⟨v, -, h⟩
    · exact .inl (e.reads_subset_probes room scope h)
    · rcases Reading.mem_reads_bind.mp h with h | ⟨vs, -, h⟩
      · exact .inr (arguments_reads_subset_probes room scope rest h)
      · simp [pure, Reading.pure] at h

end

/-! ## Scopes that an evaluation cannot tell apart -/

section Congr

variable {σ τ : Scope}

/-- Whether the second scope binds the same of some names as the first. -/
def SameBound (σ τ : Scope) (names : List String) : Prop :=
  ∀ x ∈ names, (τ x).isSome = (σ x).isSome

theorem SameBound.left {xs ys : List String} (h : SameBound σ τ (xs ++ ys)) : SameBound σ τ xs :=
  fun x hx => h x (List.mem_append_left ys hx)

theorem SameBound.right {xs ys : List String} (h : SameBound σ τ (xs ++ ys)) : SameBound σ τ ys :=
  fun x hx => h x (List.mem_append_right xs hx)

theorem read_congr {id : String} (hb : (τ id).isSome = (σ id).isSome)
    (h : ∀ x ∈ (σ.read id).reads, τ x = σ x) : τ.read id = σ.read id := by
  cases hs : σ id with
  | none =>
    have ht : τ id = none := by simpa [hs] using hb
    simp [Scope.read, hs, ht]
  | some v =>
    have ht : τ id = some v := by rw [h id (by simp [Scope.read, hs]), hs]
    simp [Scope.read, hs, ht]

theorem bound?_congr {e : Expr} (hb : SameBound σ τ e.dotted?.toList) :
    bound? τ e = bound? σ e := by
  unfold bound?
  cases hd : e.dotted? with
  | none => rfl
  | some d =>
    have h := hb d (by simp [hd])
    cases hs : σ d with
    | none => simp [show τ d = none by simpa [hs] using h, hs]
    | some v =>
      obtain ⟨w, hw⟩ := Option.isSome_iff_exists.mp (show (τ d).isSome by simp [h, hs])
      simp [hw, hs]

mutual

theorem evaluateWithin_congr (room : Nat) (e : Expr) (hb : SameBound σ τ e.probes)
    (h : ∀ x ∈ (e.evaluateWithin room σ).reads, τ x = σ x) :
    e.evaluateWithin room τ = e.evaluateWithin room σ := by
  match room, e with
  | 0, e => rw [evaluateWithin_zero, evaluateWithin_zero]
  | room + 1, literal v => rw [evaluateWithin, evaluateWithin]
  | room + 1, name id =>
    rw [evaluateWithin] at h ⊢
    rw [evaluateWithin]
    exact read_congr (hb id (by simp [probes])) h
  | room + 1, binary op left right =>
    rw [probes] at hb
    by_cases hand : op = .and
    · subst hand
      rw [evaluateWithin] at h ⊢
      rw [evaluateWithin]
      refine Reading.bind_congr (left.evaluateWithin_congr room hb.left) (fun v hv => ?_) h
      split
      · rename_i ht
        exact right.evaluateWithin_congr room hb.right (by simpa [ht] using hv)
      · rfl
    · by_cases hor : op = .or
      · subst hor
        rw [evaluateWithin] at h ⊢
        rw [evaluateWithin]
        refine Reading.bind_congr (left.evaluateWithin_congr room hb.left) (fun v hv => ?_) h
        split
        · rfl
        · rename_i ht
          exact right.evaluateWithin_congr room hb.right (by simpa [ht] using hv)
      · rw [evaluateWithin_binary hand hor] at h ⊢
        rw [evaluateWithin_binary hand hor]
        refine Reading.bind_congr (left.evaluateWithin_congr room hb.left) (fun v hv => ?_) h
        exact Reading.bind_congr (right.evaluateWithin_congr room hb.right) (fun _ _ => rfl) hv
  | room + 1, unary op operand =>
    rw [probes] at hb
    rw [evaluateWithin] at h ⊢
    rw [evaluateWithin]
    exact Reading.bind_congr (operand.evaluateWithin_congr room hb) (fun _ _ => rfl) h
  | room + 1, call function args =>
    rw [probes] at hb
    rw [evaluateWithin] at h ⊢
    rw [evaluateWithin]
    split
    · rename_i hf
      exact evaluateChoice_congr room args hb (by simpa [hf] using h)
    · rename_i hf
      rw [if_neg hf] at h
      exact Reading.bind_congr (evaluateAll_congr room args hb) (fun _ _ => rfl) h
  | room + 1, access object field =>
    rw [probes] at hb
    rw [evaluateWithin_access] at h ⊢
    rw [evaluateWithin_access, bound?_congr hb.left]
    split
    · rfl
    rename_i hroom
    rw [if_neg hroom] at h
    split
    · rename_i id hid
      rw [hid] at h
      exact read_congr (hb.left id (mem_dotted_of_bound? hid)) h
    · rename_i hid
      rw [hid] at h
      split
      · rename_i hf
        exact object.evaluateWithin_congr room hb.right (by simpa [hf] using h)
      · rename_i hf
        simp only [if_neg hf] at h
        exact Reading.bind_congr (object.evaluateWithin_congr room hb.right) (fun _ _ => rfl) h
  | room + 1, choice condition whenTrue whenFalse =>
    rw [probes] at hb
    rw [evaluateWithin] at h ⊢
    rw [evaluateWithin]
    refine Reading.bind_congr (condition.evaluateWithin_congr room hb.left.left) (fun c hc => ?_) h
    split
    · rename_i ht
      exact whenTrue.evaluateWithin_congr room hb.left.right (by simpa [ht] using hc)
    · rename_i ht
      exact whenFalse.evaluateWithin_congr room hb.right (by simpa [ht] using hc)

theorem evaluateChoice_congr (room : Nat) (args : List Expr)
    (hb : SameBound σ τ (argumentProbes args))
    (h : ∀ x ∈ (evaluateChoice room σ args).reads, τ x = σ x) :
    evaluateChoice room τ args = evaluateChoice room σ args := by
  match args with
  | [condition, whenTrue, whenFalse] =>
    simp only [argumentProbes] at hb
    rw [evaluateChoice] at h ⊢
    rw [evaluateChoice]
    refine Reading.bind_congr (condition.evaluateWithin_congr room hb.left) (fun c hc => ?_) h
    split
    · rename_i ht
      exact whenTrue.evaluateWithin_congr room hb.right.left (by simpa [ht] using hc)
    · rename_i ht
      exact whenFalse.evaluateWithin_congr room hb.right.right.left (by simpa [ht] using hc)
  | [] => rfl
  | [_] => rfl
  | [_, _] => rfl
  | _ :: _ :: _ :: _ :: _ => rfl

theorem evaluateAll_congr (room : Nat) (args : List Expr)
    (hb : SameBound σ τ (argumentProbes args))
    (h : ∀ x ∈ (evaluateAll room σ args).reads, τ x = σ x) :
    evaluateAll room τ args = evaluateAll room σ args := by
  match args with
  | [] => rfl
  | e :: rest =>
    rw [argumentProbes] at hb
    rw [evaluateAll] at h ⊢
    rw [evaluateAll]
    refine Reading.bind_congr (e.evaluateWithin_congr room hb.left) (fun v hv => ?_) h
    exact Reading.bind_congr (evaluateAll_congr room rest hb.right) (fun _ _ => rfl) hv

end

/-- Scopes that agree on every name of a tree give it the same value or fault. -/
theorem evaluateWithin_congr_of_probes (room : Nat) (e : Expr) (h : ∀ x ∈ e.probes, τ x = σ x) :
    e.evaluateWithin room τ = e.evaluateWithin room σ :=
  e.evaluateWithin_congr room (fun x hx => by rw [h x hx]) fun x hx =>
    h x (e.reads_subset_probes room σ hx)

end Congr

end Expr

end LiveForm
