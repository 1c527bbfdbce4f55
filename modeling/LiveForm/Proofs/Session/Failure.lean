import LiveForm.Proofs.Session.Locality
import LiveForm.Proofs.Session.Wiring

/-! # Passes that fail

A pass writes its report at its end. One that aborts before, wherever that is, leaves the last report
and all that is declared of the fields as they were, and so everything that is shown of them. -/

namespace LiveForm

/-- What registrations have declared of a field, with the edges that lead to it. -/
def Node.declaration (n : Node) : Option String × Value × List String × List String :=
  (n.expression, n.default, n.dependencies, n.dependents)

theorem Graph.declaration_of_stable_eq {g h : Graph} (hs : g.stable = h.stable) (id : String) :
    (g.nodes.get? id).map Node.declaration = (h.nodes.get? id).map Node.declaration := by
  have hone (g : Graph) : (g.nodes.get? id).map Node.declaration =
      (g.stable.nodes.get? id).map Node.declaration := by
    rw [Graph.stable, Table.get?_mapValues, Option.map_map]
    rfl
  rw [hone g, hone h, hs]

namespace Session

variable {s t : Session}

/-- What is shown of a session: its last report, and what templates are rendered by. -/
structure SameReport (s t : Session) : Prop where
  settings : t.settings = s.settings
  errors : t.errors = s.errors
  lastResults : t.lastResults = s.lastResults
  computed : t.computed = s.computed

theorem Touched.sameReport (h : Touched s t) : SameReport s t := by
  induction h with
  | trans _ _ ih ih' =>
    exact ⟨ih'.settings.trans ih.settings, ih'.errors.trans ih.errors,
      ih'.lastResults.trans ih.lastResults, ih'.computed.trans ih.computed⟩
  | _ => exact ⟨rfl, rfl, rfl, rfl⟩

theorem displayValue_eq (h : SameReport s t) (hs : t.graph.stable = s.graph.stable) (id : String) :
    t.displayValue id = s.displayValue id := by
  have hd := Graph.declaration_of_stable_eq hs id
  unfold displayValue
  rw [h.errors, h.lastResults]
  cases ht : t.graph.nodes.get? id with
  | none =>
    rw [ht] at hd
    rw [Option.map_eq_none_iff.mp hd.symm]
  | some n =>
    rw [ht] at hd
    obtain ⟨m, hm, hmn⟩ := Option.map_eq_some_iff.mp hd.symm
    have hdefault : m.default = n.default := congrArg (fun q => q.2.1) hmn
    rw [hm]
    dsimp only
    rw [hdefault]

theorem processTemplate_eq (h : SameReport s t) (text : String) (calculated : Option Mapping)
    (metadata : Mapping) :
    t.processTemplate text none calculated metadata =
      s.processTemplate text none calculated metadata := by
  unfold processTemplate templateValues
  rw [h.settings, h.lastResults]

/-- **A pass that fails keeps the previous answer.** Whatever history a session has, and wherever in a
pass an abort comes from: the report, the declarations of all fields and the schedule are afterwards
what they were before, and with them what is displayed and what templates without entered values say. -/
theorem report_of_failed_pass (settings : Settings) (ops : List Operation) {now : Number}
    {offer : Offer} {c : Abort}
    (h : (evaluateAll now offer).run (after (create settings) ops) = (.error c, t)) :
    let s := after (create settings) ops
    t.errors = s.errors ∧ t.lastResults = s.lastResults ∧ t.computed = s.computed ∧
      (∀ id, (t.graph.nodes.get? id).map Node.declaration =
        (s.graph.nodes.get? id).map Node.declaration) ∧
      t.graph.order = s.graph.order ∧ t.graph.circular = s.graph.circular ∧
      (∀ id, t.displayValue id = s.displayValue id) ∧
      ∀ text calculated metadata, t.processTemplate text none calculated metadata =
        s.processTemplate text none calculated metadata := by
  intro s
  obtain ⟨E, hE⟩ := (wired_after (wired_create settings) ops).consistent
  have ht : Touched s t := by
    have htouched := run_evaluateAll hE.settled now offer
    rw [h] at htouched
    rcases htouched with ⟨c', u, hrun, hu⟩ | ⟨p, u, hrun, -⟩
    · rwa [(Prod.mk.inj hrun).2]
    · cases (Prod.mk.inj hrun).1
  have hreport := ht.sameReport
  have hstable := ht.kept.stable
  exact ⟨hreport.errors, hreport.lastResults, hreport.computed,
    Graph.declaration_of_stable_eq hstable, Graph.order_of_stable_eq hstable,
    Graph.circular_eq_of_stable_eq hstable, displayValue_eq hreport hstable,
    processTemplate_eq hreport⟩

/-- A fee of too many digits ends the pass in front of the sum, when the total has already been
evaluated. The bill of the pass before stays. -/
theorem report_of_failed_pass_longFee :
    let s := after (create {}) billed
    ∃ c t, (evaluateAll (.int 1) (bill (.int (Binary.tenTo digitLimit)))).run s = (.error c, t) ∧
      t.lastResults = s.lastResults ∧ t.displayValue "due" = s.displayValue "due" := by
  intro s
  have herror : ((evaluateAll (.int 1) (bill (.int (Binary.tenTo digitLimit)))).run s).1.isOk =
      false := by
    decide +kernel
  cases hrun : (evaluateAll (.int 1) (bill (.int (Binary.tenTo digitLimit)))).run s with
  | mk r t =>
    rw [hrun] at herror
    cases r with
    | ok results => cases herror
    | error c =>
      obtain ⟨-, hlast, -, -, -, -, hdisplay, -⟩ := report_of_failed_pass {} billed hrun
      exact ⟨c, t, rfl, hlast, hdisplay "due"⟩

end Session

end LiveForm
