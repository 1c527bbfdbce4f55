import LiveForm.Engine
import LiveForm.Proofs.Action
import LiveForm.Proofs.Expr.Locality
import LiveForm.Proofs.Table

/-! # What an engine remembers does not show

The tables of an engine hold, for some texts, what reading the text gives. An engine of which this
is true answers as one that remembers nothing, and stays so. What a text evaluates to is therefore a
function of the text and the scope, and it depends on the scope only through the tree. -/

namespace LiveForm.Engine

open LiveForm.Action

/-- The ids that a text mentions, read anew. -/
def mentionedIn (text : String) : Except Abort (List String) := mentioned (Expr.parse text)

def failedReply (text message : String) : Except Abort Answer :=
  (mentionedIn text).map fun ids => ⟨.null, some (failed message), ids⟩

/-- What a text evaluates to, read anew. -/
def reply (text : String) (scope : Scope) : Except Abort Answer :=
  match Expr.parse text with
  | .error (.badSyntax s) => failedReply text s.message
  | .error .tooDeep => failedReply text nestedTooDeeply
  | .error .tooLong => .error .domain
  | .ok e =>
    match outcome depthLimit scope e with
    | .error cause => .error cause
    | .ok (.ok v, reads) => .ok ⟨v, none, reads⟩
    | .ok (.error message, _) => failedReply text message

/-- Everything remembered is what reading the text gives. -/
structure Faithful (g : Engine) : Prop where
  trees : ∀ text r, g.trees.get? text = some r → Expr.parse text = r.mapError ParseFault.badSyntax
  references : ∀ text ids, g.references.get? text = some ids → mentionedIn text = .ok ids

/-- A computation that answers the same on every faithful engine and leaves it faithful. -/
def Answers {α : Type} (action : Action α) (r : Except Abort α) : Prop :=
  ∀ g : Engine, g.Faithful → ∃ h : Engine, action.run g = (r, h) ∧ h.Faithful

theorem faithful_new : Faithful {} :=
  ⟨fun text r h => by simp at h, fun text ids h => by simp at h⟩

theorem Faithful.insertTree {g : Engine} (hg : g.Faithful) {text : String}
    {r : Except SyntaxError Expr} (hr : Expr.parse text = r.mapError ParseFault.badSyntax) :
    Faithful { g with trees := g.trees.insert text r } := by
  refine ⟨fun t q h => ?_, hg.references⟩
  rw [Table.get?_insert] at h
  split at h
  · rename_i ht
    obtain rfl := eq_of_beq ht
    obtain rfl := Option.some.inj h
    exact hr
  · exact hg.trees t q h

theorem Faithful.insertReferences {g : Engine} (hg : g.Faithful) {text : String}
    {ids : List String} (hr : mentionedIn text = .ok ids) :
    Faithful { g with references := g.references.insert text ids } := by
  refine ⟨hg.trees, fun t js h => ?_⟩
  rw [Table.get?_insert] at h
  split at h
  · rename_i ht
    obtain rfl := eq_of_beq ht
    obtain rfl := Option.some.inj h
    exact hr
  · exact hg.references t js h

theorem tree_eq {g : Engine} (hg : g.Faithful) (text : String) :
    (tree text g).1 = Expr.parse text ∧ (tree text g).2.Faithful := by
  unfold tree
  cases h : g.trees.get? text with
  | some r => cases r <;> exact ⟨(hg.trees text _ h).symm, hg⟩
  | none =>
    cases hp : Expr.parse text with
    | ok e => exact ⟨rfl, hg.insertTree hp⟩
    | error f => cases f <;> first | exact ⟨rfl, hg⟩ | exact ⟨rfl, hg.insertTree hp⟩

/-! ## Computations -/

section Answers

variable {α β : Type} {x : Action α} {f : α → Action β} {r : Except Abort α} {a : α}

theorem Answers.pure (a : α) : Answers (Pure.pure a) (.ok a) := fun g hg => ⟨g, run_pure a g, hg⟩

theorem Answers.throw (c : Abort) : Answers (MonadExcept.throw c : Action α) (.error c) :=
  fun g hg => ⟨g, run_throw c g, hg⟩

theorem Answers.bind {q : Except Abort β} (hx : Answers x (.ok a)) (hf : Answers (f a) q) :
    Answers (x >>= f) q := by
  intro g hg
  obtain ⟨h, hr, hh⟩ := hx g hg
  obtain ⟨k, hk, hkf⟩ := hf h hh
  exact ⟨k, by rw [run_bind_ok hr, hk], hkf⟩

theorem Answers.bind_error {c : Abort} (hx : Answers x (.error c)) :
    Answers (x >>= f) (.error c) := by
  intro g hg
  obtain ⟨h, hr, hh⟩ := hx g hg
  exact ⟨h, run_bind_error hr, hh⟩

theorem answers_tree (text : String) : Answers (modifyGet (tree text)) (.ok (Expr.parse text)) := by
  intro g hg
  obtain ⟨hr, hh⟩ := tree_eq hg text
  exact ⟨_, by rw [run_modifyGet, hr], hh⟩

theorem answers_orAbort (r : Except Abort α) : Answers (liftM r : Action α) r := by
  intro g hg
  cases r <;> exact ⟨g, rfl, hg⟩

end Answers

theorem answers_dependencies (text : String) : Answers (dependencies text) (mentionedIn text) := by
  intro g hg
  unfold dependencies
  rw [run_bind_ok (run_get g)]
  cases h : g.references.get? text with
  | some ids => exact ⟨g, by rw [run_pure, hg.references text ids h], hg⟩
  | none =>
    obtain ⟨k, hk, hkf⟩ := answers_tree text g hg
    simp only [run_bind_ok hk]
    obtain ⟨l, hl, hlf⟩ := answers_orAbort (mentionedIn text) k hkf
    cases hm : mentionedIn text with
    | error c =>
      rw [hm] at hl
      exact ⟨l, run_bind_error (hm ▸ hl), hlf⟩
    | ok ids =>
      rw [hm] at hl
      exact ⟨{ l with references := l.references.insert text ids }, run_bind_ok (hm ▸ hl),
        hlf.insertReferences hm⟩

theorem answers_failure (text message : String) :
    Answers (failure text message) (failedReply text message) := by
  unfold failure failedReply
  have h := answers_dependencies text
  cases hm : mentionedIn text with
  | error c => exact .bind_error (hm ▸ h)
  | ok ids => exact .bind (hm ▸ h) (.pure _)

/-- **An engine answers as one that remembers nothing.** -/
theorem answers_evaluate (text : String) (scope : Scope) :
    Answers (evaluate text scope) (reply text scope) := by
  unfold evaluate reply
  refine .bind (answers_tree text) ?_
  cases Expr.parse text with
  | error f =>
    cases f with
    | badSyntax s => exact answers_failure text s.message
    | tooDeep => exact answers_failure text nestedTooDeeply
    | tooLong => exact .throw .domain
  | ok e =>
    dsimp only
    cases ho : outcome depthLimit scope e with
    | error c => exact .bind_error (ho ▸ answers_orAbort (outcome depthLimit scope e))
    | ok o =>
      refine .bind (ho ▸ answers_orAbort (outcome depthLimit scope e)) ?_
      obtain ⟨v | message, reads⟩ := o
      · exact answers_failure text _
      · exact .pure _

/-- A text evaluates to the same in scopes in which its tree does. -/
theorem reply_congr {text : String} {σ τ : Scope}
    (h : ∀ e, Expr.parse text = .ok e →
      e.evaluateWithin depthLimit τ = e.evaluateWithin depthLimit σ) :
    reply text τ = reply text σ := by
  unfold reply
  cases hp : Expr.parse text with
  | error f => cases f <;> rfl
  | ok e => simp only [outcome, h e hp]

/-- A failure is answered with null and a message. -/
theorem failed_of_failedReply {text message : String} {a : Answer}
    (h : failedReply text message = .ok a) : a.value = .null ∧ a.error.isSome := by
  unfold failedReply at h
  cases hids : mentionedIn text with
  | error c =>
    rw [hids] at h
    cases h
  | ok ids =>
    rw [hids] at h
    obtain rfl := Except.ok.inj h
    exact ⟨rfl, rfl⟩

/-- An expression that fails has no value. -/
theorem value_eq_null_of_reply {text : String} {σ : Scope} {a : Answer} (h : reply text σ = .ok a)
    (he : a.error.isSome) : a.value = .null := by
  unfold reply at h
  split at h
  · exact (failed_of_failedReply h).1
  · exact (failed_of_failedReply h).1
  · cases h
  · split at h
    · cases h
    · obtain rfl := Except.ok.inj h
      cases he
    · exact (failed_of_failedReply h).1

theorem reads_of_outcome {room : Nat} {σ : Scope} {e : Expr} {v : Value} {reads : List String}
    (h : outcome room σ e = .ok (.ok v, reads)) : reads = e.reads room σ := by
  unfold outcome at h
  dsimp only at h
  split at h
  · obtain ⟨-, rfl⟩ := Prod.mk.inj (Except.ok.inj h)
    rfl
  all_goals cases h

/-- An answer without a message is of a text that is an expression, and lists what its evaluation
read. -/
theorem reads_of_reply {text : String} {σ : Scope} {a : Answer} (h : reply text σ = .ok a)
    (hok : a.error = none) :
    ∃ e, Expr.parse text = .ok e ∧ a.dependencies = e.reads depthLimit σ := by
  have hfailed {message : String} : failedReply text message ≠ .ok a := by
    intro hf
    simpa [hok] using (failed_of_failedReply hf).2
  unfold reply at h
  split at h
  · exact absurd h hfailed
  · exact absurd h hfailed
  · cases h
  · rename_i e hp
    refine ⟨e, hp, ?_⟩
    split at h
    · cases h
    · rename_i v reads ho
      obtain rfl := Except.ok.inj h
      exact reads_of_outcome ho
    · exact absurd h hfailed

end LiveForm.Engine
