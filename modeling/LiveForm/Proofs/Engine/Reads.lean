import LiveForm.Proofs.Engine.Escape

/-! # What an answer depends on

The ids that an evaluation reports are all that it depends on: in a second scope that binds the same
names, every value that was not read may be another one. That a name is bound at all may matter
without a reading, since an access tries its dotted id before anything else. -/

namespace LiveForm

/-- The second scope binds the names that the first one binds, perhaps to other values. -/
def Scope.SameNames (σ τ : Scope) : Prop := ∀ x, (τ x).isSome = (σ x).isSome

namespace Expr

theorem evaluateWithin_congr_of_reads {σ τ : Scope} (room : Nat) (e : Expr) (hn : σ.SameNames τ)
    (h : ∀ x ∈ e.reads room σ, τ x = σ x) :
    e.evaluateWithin room τ = e.evaluateWithin room σ :=
  e.evaluateWithin_congr room (fun x _ => hn x) fun x hx => h x (List.mem_eraseDups.mpr hx)

end Expr

namespace Engine

/-- **What an evaluation does not report cannot change it.** Scopes that bind the same names, and
agree on those that a tree reads in the first of them, give the tree the same value or fault and the
same reads in the same order, whatever room there is. A text that is answered with a value is therefore
answered the same when only values change that the answer does not list, whatever each engine has been
asked before. -/
theorem unread_values_irrelevant {σ τ : Scope} (hn : σ.SameNames τ) :
    (∀ (room : Nat) (e : Expr), (∀ x ∈ e.reads room σ, τ x = σ x) →
      (e.evaluateWithin room τ).outcome = (e.evaluateWithin room σ).outcome ∧
        e.reads room τ = e.reads room σ) ∧
    ∀ (calls later : List Call) (text : String) (a : Answer),
      ((evaluate text σ).run (afterCalls calls)).1 = .ok a → a.error = none →
      (∀ x ∈ a.dependencies, τ x = σ x) →
      ((evaluate text τ).run (afterCalls later)).1 = .ok a := by
  constructor
  · intro room e h
    have he := e.evaluateWithin_congr_of_reads room hn h
    exact ⟨by rw [he], by rw [Expr.reads, he]; rfl⟩
  · intro calls later text a ha hok h
    rw [run_evaluate_afterCalls] at ha ⊢
    obtain ⟨e, hp, hreads⟩ := reads_of_reply ha hok
    rw [hreads] at h
    -- the text is the text of this tree only
    have htree : ∀ e', Expr.parse text = .ok e' →
        e'.evaluateWithin depthLimit τ = e'.evaluateWithin depthLimit σ := by
      intro e' hp'
      obtain rfl := Except.ok.inj (hp.symm.trans hp')
      exact e.evaluateWithin_congr_of_reads depthLimit hn h
    rw [reply_congr htree, ha]

/-- A condition that holds, and two branches. -/
def branches (whenTrue whenFalse : Value) : Scope := fun x =>
  if x = "flag" then some (.bool true)
  else if x = "a" then some whenTrue
  else if x = "b" then some whenFalse
  else none

/-- The branch that a choice leaves out may change. -/
theorem choice_left_out_irrelevant :
    branches (.int 1) (.int 2) "b" ≠ branches (.int 1) (.int 3) "b" ∧
      ((evaluate "flag ? a : b" (branches (.int 1) (.int 3))).run
          (afterCalls [.evaluate "flag ? a : b" (branches (.int 1) (.int 2))])).1 =
        .ok ⟨.int 1, none, ["flag", "a"]⟩ := by
  have hn : (branches (.int 1) (.int 2)).SameNames (branches (.int 1) (.int 3)) := by
    intro x
    unfold branches
    split_ifs <;> rfl
  have hagree : ∀ x ∈ ["flag", "a"],
      branches (.int 1) (.int 3) x = branches (.int 1) (.int 2) x := by
    intro x hx
    obtain rfl | rfl : x = "flag" ∨ x = "a" := by simpa using hx
    · rfl
    · rfl
  refine ⟨by simp [branches], ?_⟩
  exact (unread_values_irrelevant hn).2 [] _ _ ⟨.int 1, none, ["flag", "a"]⟩ rfl rfl hagree

end Engine

end LiveForm
