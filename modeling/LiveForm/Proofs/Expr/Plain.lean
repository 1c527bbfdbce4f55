import LiveForm.Expr.References
import LiveForm.Proofs.Expr.Locality
import LiveForm.Row

/-! # Plain expressions

A plain expression names fields of the form itself and accesses no members. Whatever an evaluation of
it looks up, it mentions, functions apart. -/

namespace LiveForm.Expr

mutual

/-- Whether every name is a local one, and none is accessed. -/
def isPlain : Expr → Bool
  | literal _ => true
  | name id => isLocalName id
  | binary _ left right => left.isPlain && right.isPlain
  | unary _ operand => operand.isPlain
  | call _ args => argumentsPlain args
  | access _ _ => false
  | choice condition whenTrue whenFalse =>
    condition.isPlain && whenTrue.isPlain && whenFalse.isPlain

def argumentsPlain : List Expr → Bool
  | [] => true
  | e :: rest => e.isPlain && argumentsPlain rest

end

mutual

theorem mem_mentions_iff {e : Expr} (h : e.isPlain) {x : String} :
    x ∈ e.mentions ↔ x ∈ e.probes ∧ ¬isReserved x := by
  match e with
  | literal v => simp [mentions, probes]
  | name id =>
    rw [mentions, probes]
    by_cases hr : isReserved id
    · simp only [hr, if_true, List.not_mem_nil, List.mem_singleton, false_iff]
      rintro ⟨rfl, hx⟩
      exact hx hr
    · rw [if_neg hr, List.mem_singleton]
      refine ⟨fun hx => ⟨hx, ?_⟩, And.left⟩
      rwa [hx]
  | binary op left right =>
    rw [isPlain, Bool.and_eq_true] at h
    rw [mentions, probes, List.mem_append, List.mem_append, mem_mentions_iff h.1,
      mem_mentions_iff h.2, ← or_and_right]
  | unary op operand =>
    rw [isPlain] at h
    rw [mentions, probes, mem_mentions_iff h]
  | call function args =>
    rw [isPlain] at h
    rw [mentions, probes, mem_argumentMentions_iff h]
  | access object field => simp [isPlain] at h
  | choice condition whenTrue whenFalse =>
    rw [isPlain, Bool.and_eq_true, Bool.and_eq_true] at h
    simp only [mentions, probes, List.mem_append, mem_mentions_iff h.1.1, mem_mentions_iff h.1.2,
      mem_mentions_iff h.2, ← or_and_right]

theorem mem_argumentMentions_iff {args : List Expr} (h : argumentsPlain args) {x : String} :
    x ∈ argumentMentions args ↔ x ∈ argumentProbes args ∧ ¬isReserved x := by
  match args with
  | [] => simp [argumentMentions, argumentProbes]
  | e :: rest =>
    rw [argumentsPlain, Bool.and_eq_true] at h
    rw [argumentMentions, argumentProbes, List.mem_append, List.mem_append, mem_mentions_iff h.1,
      mem_argumentMentions_iff h.2, ← or_and_right]

end

mutual

theorem isLocalName_of_mem_probes {e : Expr} (h : e.isPlain) {x : String} (hx : x ∈ e.probes) :
    isLocalName x := by
  match e with
  | literal v => simp [probes] at hx
  | name id =>
    rw [isPlain] at h
    obtain rfl : x = id := by simpa [probes] using hx
    exact h
  | binary op left right =>
    rw [isPlain, Bool.and_eq_true] at h
    rw [probes, List.mem_append] at hx
    exact hx.elim (isLocalName_of_mem_probes h.1) (isLocalName_of_mem_probes h.2)
  | unary op operand =>
    rw [isPlain] at h
    rw [probes] at hx
    exact isLocalName_of_mem_probes h hx
  | call function args =>
    rw [isPlain] at h
    rw [probes] at hx
    exact isLocalName_of_mem_argumentProbes h hx
  | access object field => simp [isPlain] at h
  | choice condition whenTrue whenFalse =>
    rw [isPlain, Bool.and_eq_true, Bool.and_eq_true] at h
    rw [probes, List.mem_append, List.mem_append] at hx
    rcases hx with (hx | hx) | hx
    · exact isLocalName_of_mem_probes h.1.1 hx
    · exact isLocalName_of_mem_probes h.1.2 hx
    · exact isLocalName_of_mem_probes h.2 hx

theorem isLocalName_of_mem_argumentProbes {args : List Expr} (h : argumentsPlain args) {x : String}
    (hx : x ∈ argumentProbes args) : isLocalName x := by
  match args with
  | [] => simp [argumentProbes] at hx
  | e :: rest =>
    rw [argumentsPlain, Bool.and_eq_true] at h
    rw [argumentProbes, List.mem_append] at hx
    exact hx.elim (isLocalName_of_mem_probes h.1) (isLocalName_of_mem_argumentProbes h.2)

end

end LiveForm.Expr
