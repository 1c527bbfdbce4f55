import LiveForm.Proofs.Engine
import LiveForm.Proofs.Expr.Breakdown

/-! # What goes past an engine

Every text has an answer in every scope, be it a value or a message, but in two cases: a message needs
the ids of a text that nests too deeply to list them, or the reading or evaluation of the text breaks
off without a message. What the engine has been asked before does not matter. -/

namespace LiveForm.Engine

/-! ## What an engine is asked -/

/-- A request to an engine. -/
inductive Call where
  | evaluate (text : String) (scope : Scope)
  | dependencies (text : String)
  | validate (text : String)
  /-- Forgets everything remembered. -/
  | clear

def Call.perform (g : Engine) : Call → Engine
  | evaluate text scope => ((Engine.evaluate text scope).run g).2
  | dependencies text => ((Engine.dependencies text).run g).2
  | validate text => ((Engine.validate text).run g).2
  | clear => {}

/-- An engine that has been asked in this order, whatever it has answered. -/
def afterCalls (calls : List Call) : Engine := calls.foldl Call.perform {}

/-- What a text is found to be, read anew. -/
def verdict (text : String) : Except Abort Verdict :=
  match Expr.parse text with
  | .ok _ => .ok ⟨true, none⟩
  | .error (.badSyntax s) => .ok ⟨false, some (invalid s.message)⟩
  | .error .tooDeep => .ok ⟨false, some (invalid "nested too deeply")⟩
  | .error .tooLong => .error .domain

theorem answers_validate (text : String) : Answers (validate text) (verdict text) := by
  unfold validate verdict
  refine .bind (answers_tree text) ?_
  cases Expr.parse text with
  | ok e => exact .pure _
  | error f =>
    cases f with
    | badSyntax s => exact .pure _
    | tooDeep => exact .pure _
    | tooLong => exact .throw .domain

theorem Faithful.perform {g : Engine} (hg : g.Faithful) (call : Call) : (call.perform g).Faithful := by
  have hstep {α : Type} {action : Action α} {r : Except Abort α} (h : Answers action r) :
      (action.run g).2.Faithful := by
    obtain ⟨k, hk, hkf⟩ := h g hg
    rwa [hk]
  cases call with
  | evaluate text scope => exact hstep (answers_evaluate text scope)
  | dependencies text => exact hstep (answers_dependencies text)
  | validate text => exact hstep (answers_validate text)
  | clear => exact faithful_new

theorem faithful_afterCalls (calls : List Call) : (afterCalls calls).Faithful := by
  unfold afterCalls
  have hrun (g : Engine) (hg : g.Faithful) : (calls.foldl Call.perform g).Faithful := by
    induction calls generalizing g with
    | nil => exact hg
    | cons call calls ih => exact ih _ (hg.perform call)
  exact hrun {} faithful_new

/-- Whatever an engine has been asked before, it answers as one that remembers nothing. -/
theorem run_evaluate_afterCalls (calls : List Call) (text : String) (scope : Scope) :
    ((evaluate text scope).run (afterCalls calls)).1 = reply text scope := by
  obtain ⟨h, hr, -⟩ := answers_evaluate text scope (afterCalls calls) (faithful_afterCalls calls)
  rw [hr]

theorem run_dependencies_afterCalls (calls : List Call) (text : String) :
    ((dependencies text).run (afterCalls calls)).1 = mentionedIn text := by
  obtain ⟨h, hr, -⟩ := answers_dependencies text (afterCalls calls) (faithful_afterCalls calls)
  rw [hr]

/-! ## What it answers -/

/-- The value of a tree, or why it has none. -/
def result (scope : Scope) (e : Expr) : Except Fault Value :=
  (e.evaluateWithin depthLimit scope).outcome >>= finalize

/-- A whole number in the text has too many digits to be read, or an evaluation of the tree comes to
an operation that breaks off. -/
def BreaksOff (text : String) (scope : Scope) : Prop :=
  Expr.parse text = .error .tooLong ∨
    ∃ e, Expr.parse text = .ok e ∧ e.BreaksOff depthLimit scope

/-- Reading the text takes too much room; or its tree is too high for its ids to be listed, and has a
failure to be reported with them. -/
def TooDeep (text : String) (scope : Scope) : Prop :=
  Expr.parse text = .error .tooDeep ∨
    ∃ e f, Expr.parse text = .ok e ∧ depthLimit < e.height ∧ result scope e = .error f ∧
      ¬e.BreaksOff depthLimit scope

/-- The value of an expression without a message, or null with the message of its failure. -/
inductive Reports (text : String) (scope : Scope) : Answer → Prop where
  | value {e : Expr} {v : Value} {reads : List String} (hp : Expr.parse text = .ok e)
      (hv : result scope e = .ok v) : Reports text scope ⟨v, none, reads⟩
  | badSyntax {s : SyntaxError} {ids : List String} (hp : Expr.parse text = .error (.badSyntax s)) :
      Reports text scope ⟨.null, some (failed s.message), ids⟩
  | fault {e : Expr} {f : Fault} {message : String} {ids : List String}
      (hp : Expr.parse text = .ok e) (hf : result scope e = .error f) :
      Reports text scope ⟨.null, some (failed message), ids⟩

section Answers

variable {text : String} {scope : Scope} {e : Expr} {c : Abort}

theorem finalize_ne_abort {v : Value} : finalize v ≠ .error (.abort c) := by
  unfold finalize
  split
  · split
    · simp
    · split
      · simp
      · split <;> simp
  · simp
  · simp

/-- Only an evaluation that breaks off has no outcome. -/
theorem outcome_eq_error :
    outcome depthLimit scope e = .error c ↔ c = .domain ∧ e.BreaksOff depthLimit scope := by
  have hfinal {d : Abort} : result scope e = .error (.abort d) ↔
      (e.evaluateWithin depthLimit scope).outcome = .error (.abort d) := by
    unfold result
    cases h : (e.evaluateWithin depthLimit scope).outcome with
    | ok v => simpa [bind, Except.bind] using finalize_ne_abort
    | error f => simp [bind, Except.bind]
  constructor
  · intro h
    unfold outcome at h
    dsimp only at h
    split at h
    · cases h
    · cases h
    · cases h
    · rename_i d hdepth hrange ho
      obtain rfl := Except.error.inj h
      exact (Expr.outcome_eq_abort_iff (fun hd => hrange (hd ▸ rfl)) fun hd => hdepth (hd ▸ rfl)).mp
        (hfinal.mp ho)
    · cases h
  · rintro ⟨rfl, hb⟩
    have ho := hfinal.mpr ((Expr.outcome_eq_abort_iff (by simp) (by simp)).mpr ⟨rfl, hb⟩)
    unfold result at ho
    unfold outcome
    dsimp only
    rw [ho]

/-- The outcome of an evaluation that does not break off. -/
theorem outcome_eq_ok {o : Except String Value × List String}
    (h : outcome depthLimit scope e = .ok o) :
    match o.1 with
    | .ok v => result scope e = .ok v
    | .error _ => ∃ f, result scope e = .error f := by
  unfold outcome at h
  dsimp only at h
  split at h
  · rename_i ho
    obtain rfl := Except.ok.inj h
    exact ho
  · rename_i ho
    obtain rfl := Except.ok.inj h
    exact ⟨_, ho⟩
  · rename_i ho
    obtain rfl := Except.ok.inj h
    exact ⟨_, ho⟩
  · cases h
  · rename_i ho
    obtain rfl := Except.ok.inj h
    exact ⟨_, ho⟩

/-- The ids of a text are listed with its failure, unless its tree is too high. -/
theorem failedReply_of_parse (hp : Expr.parse text = .ok e) (message : String) :
    failedReply text message = if depthLimit < e.height then .error .depth
      else .ok ⟨.null, some (failed message), e.references⟩ := by
  unfold failedReply mentionedIn
  rw [hp, mentioned]
  split <;> rfl

theorem reply_of_breaksOff (h : BreaksOff text scope) : reply text scope = .error .domain := by
  unfold reply
  obtain hp | ⟨e, hp, hb⟩ := h
  · rw [hp]
  · rw [hp]
    dsimp only
    rw [outcome_eq_error.mpr ⟨rfl, hb⟩]

theorem reply_of_tooDeep (h : TooDeep text scope) : reply text scope = .error .depth := by
  unfold reply
  obtain hp | ⟨e, f, hp, hheight, hf, hb⟩ := h
  · simp only [hp, failedReply, mentionedIn, mentioned]
    rfl
  · rw [hp]
    dsimp only
    cases ho : outcome depthLimit scope e with
    | error c => exact absurd (outcome_eq_error.mp ho).2 hb
    | ok o =>
      have hr := outcome_eq_ok ho
      obtain ⟨message | v, reads⟩ := o
      · exact (failedReply_of_parse hp message).trans (if_pos hheight)
      · cases hf.symm.trans hr

theorem reply_of_neither (hd : ¬TooDeep text scope) (hb : ¬BreaksOff text scope) :
    ∃ a, reply text scope = .ok a ∧ Reports text scope a := by
  unfold reply
  cases hp : Expr.parse text with
  | error f =>
    cases f with
    | badSyntax s => exact ⟨_, by simp only [failedReply, mentionedIn, hp]; rfl, .badSyntax hp⟩
    | tooDeep => exact absurd (.inl hp) hd
    | tooLong => exact absurd (.inl hp) hb
  | ok e =>
    dsimp only
    cases ho : outcome depthLimit scope e with
    | error c => exact absurd (.inr ⟨e, hp, (outcome_eq_error.mp ho).2⟩) hb
    | ok o =>
      have hr := outcome_eq_ok ho
      obtain ⟨message | v, reads⟩ := o
      · obtain ⟨f, hf⟩ := hr
        have hbreaks : ¬e.BreaksOff depthLimit scope := fun h => hb (.inr ⟨e, hp, h⟩)
        have hheight : ¬depthLimit < e.height := fun h => hd (.inr ⟨e, f, hp, h, hf, hbreaks⟩)
        exact ⟨_, (failedReply_of_parse hp message).trans (if_neg hheight), .fault hp hf⟩
      · exact ⟨_, rfl, .value hp hr⟩

end Answers

/-- **What goes past an engine.** Whatever it has been asked before, an engine answers a text in a
scope with the value or with null and a message, unless the text is too deep or breaks off; only then,
and always then, does an abort go past it. -/
theorem evaluate_escapes (calls : List Call) (text : String) (scope : Scope) :
    let r := ((evaluate text scope).run (afterCalls calls)).1
    (r = .error .depth ↔ TooDeep text scope) ∧ (r = .error .domain ↔ BreaksOff text scope) ∧
      (r = .error .depth ∨ r = .error .domain ∨ ∃ a, r = .ok a ∧ Reports text scope a) := by
  dsimp only
  rw [run_evaluate_afterCalls]
  by_cases hd : TooDeep text scope
  · have hr : reply text scope = .error .depth := reply_of_tooDeep hd
    have hb : ¬BreaksOff text scope := fun hb => by simp [reply_of_breaksOff hb] at hr
    simp [hr, hd, hb]
  · by_cases hb : BreaksOff text scope
    · simp [reply_of_breaksOff hb, hd, hb]
    · obtain ⟨a, hr, ha⟩ := reply_of_neither hd hb
      simp [hr, hd, hb, ha]

/-- Two doubles without a remainder are not reported with a message. -/
theorem remainder_not_answered :
    ((evaluate "'inf' % 2" fun _ => none).run {}).1 = .error .domain := by
  let r := ((evaluate "'inf' % 2" fun _ => none).run {}).1
  have hr : (match r with
    | .error c => c == .domain
    | .ok _ => false) = true := by decide +kernel
  change r = .error .domain
  cases h : r with
  | ok a =>
    rw [h] at hr
    cases hr
  | error c =>
    rw [h] at hr
    rw [eq_of_beq hr]

end LiveForm.Engine
