import LiveForm.Abort

/-! # Running computations that may abort

A computation on a state of type `σ` keeps its changes also when it aborts. Each lemma says what one
construct of such a computation answers and leaves. -/

namespace LiveForm.Action

variable {σ α β : Type} {x : ExceptT Abort (StateM σ) α} {f : α → ExceptT Abort (StateM σ) β}
  {s t u : σ} {a a' : α} {b : β} {c : Abort}

theorem run_pure (a : α) (s : σ) : (pure a : ExceptT Abort (StateM σ) α).run s = (.ok a, s) := rfl

theorem run_throw (c : Abort) (s : σ) :
    (throw c : ExceptT Abort (StateM σ) α).run s = (.error c, s) := rfl

theorem run_get (s : σ) : (get : ExceptT Abort (StateM σ) σ).run s = (.ok s, s) := rfl

theorem run_modify (g : σ → σ) (s : σ) :
    (modify g : ExceptT Abort (StateM σ) PUnit).run s = (.ok ⟨⟩, g s) := rfl

theorem run_modifyGet (g : σ → α × σ) (s : σ) :
    (modifyGet g : ExceptT Abort (StateM σ) α).run s = (.ok (g s).1, (g s).2) := rfl

theorem run_bind (x : ExceptT Abort (StateM σ) α) (f : α → ExceptT Abort (StateM σ) β) (s : σ) :
    (x >>= f).run s =
      match x.run s with
      | (.ok a, t) => (f a).run t
      | (.error c, t) => (.error c, t) := by
  show (ExceptT.bind x f).run s = _
  cases h : x.run s with
  | mk r t =>
    simp only [ExceptT.bind, ExceptT.run, ExceptT.mk] at h ⊢
    show (StateT.bind x (ExceptT.bindCont f)) s = _
    simp only [StateT.bind, h]
    cases r <;> rfl

theorem run_bind_ok (h : x.run s = (.ok a, t)) : (x >>= f).run s = (f a).run t := by
  rw [run_bind, h]

theorem run_bind_error (h : x.run s = (.error c, t)) : (x >>= f).run s = (.error c, t) := by
  rw [run_bind, h]

/-- A sequence that answers has an answer of its first part, from which the second goes on. -/
theorem bind_answers (h : (x >>= f).run s = (.ok b, u)) :
    ∃ a t, x.run s = (.ok a, t) ∧ (f a).run t = (.ok b, u) := by
  rw [run_bind] at h
  cases hx : x.run s with
  | mk r t =>
    rw [hx] at h
    cases r with
    | error c => cases h
    | ok a => exact ⟨a, t, rfl, h⟩

/-- A run that answers, which a decision can tell, has an answer and leaves a state. -/
theorem exists_of_isOk {r : Except Abort α × σ} (h : r.1.isOk) : ∃ a s, r = (.ok a, s) := by
  obtain ⟨outcome, s⟩ := r
  cases outcome with
  | error c => cases h
  | ok a => exact ⟨a, s, rfl⟩

theorem pure_answers (h : (pure a : ExceptT Abort (StateM σ) α).run s = (.ok a', u)) :
    a' = a ∧ u = s := by
  obtain ⟨ha, hu⟩ := Prod.mk.inj h
  exact ⟨(Except.ok.inj ha).symm, hu.symm⟩

theorem get_answers {f : σ → ExceptT Abort (StateM σ) β} (h : (get >>= f).run s = (.ok b, u)) :
    (f s).run s = (.ok b, u) := (run_bind_ok (run_get s)).symm.trans h

theorem modify_answers {g : σ → σ} {f : PUnit → ExceptT Abort (StateM σ) β}
    (h : (modify g >>= f).run s = (.ok b, u)) : (f ⟨⟩).run (g s) = (.ok b, u) :=
  (run_bind_ok (run_modify g s)).symm.trans h

end LiveForm.Action
