import LiveForm.Proofs.Expr.Plain
import LiveForm.Proofs.Graph.Cycles
import LiveForm.Proofs.Row
import LiveForm.Proofs.Session.History

/-! # Sessions of simple fields

A registration first finds out the row of the id and the dependencies of the field, and aborts when
one of them cannot be read; then it enters the field.

A simple field is a field of the form itself with a plain expression and extracted dependencies. In a
session that only registers such fields, every name that an expression mentions is a dependency of
its node, no node has a reserved name, and nothing has been answered yet. -/

namespace LiveForm

namespace Engine

/-- The ids that a text mentions are those of its tree. -/
theorem mem_mentionedIn_iff {text : String} {ids : List String} (h : mentionedIn text = .ok ids)
    {x : String} : x ∈ ids ↔ ∃ e, Expr.parse text = .ok e ∧ x ∈ e.mentions := by
  unfold mentionedIn at h
  cases hp : Expr.parse text with
  | ok e =>
    rw [hp, mentioned] at h
    split at h
    · cases h
    · obtain rfl := Except.ok.inj h
      simp [Expr.references, List.mem_eraseDups]
  | error f =>
    rw [hp] at h
    cases f with
    | badSyntax s =>
      obtain rfl := Except.ok.inj h
      simp
    | _ => cases h

/-- A name that extraction finds in a text is mentioned by the tree of the text. -/
theorem exists_mentioning (text x : String)
    (h : (mentionedIn text).toOption.any fun ids => ids.contains x) :
    ∃ e, Expr.parse text = .ok e ∧ x ∈ e.mentions := by
  cases hids : mentionedIn text with
  | error c =>
    rw [hids] at h
    cases h
  | ok ids =>
    rw [hids] at h
    exact (mem_mentionedIn_iff hids).mp (by simpa [Except.toOption] using h)

end Engine

namespace Session

open LiveForm.Action

/-- Whether the tree of a text is plain; a text without a tree names nothing. -/
def isPlainText (text : String) : Bool := (Expr.parse text).toOption.all Expr.isPlain

/-- Whether an operation registers a simple field. -/
def Operation.isSimple : Operation → Bool
  | register id text none _ =>
    isLocalName id && !Expr.isReserved id && (expressionOf text).all isPlainText
  | _ => false

/-- The names that an expression mentions are among the dependencies of its node. -/
def Covered (n : Node) : Prop :=
  ∀ text e, n.expression = some text → Expr.parse text = .ok e →
    e.isPlain ∧ e.mentions ⊆ n.dependencies

/-- A session that has registered simple fields and has not evaluated them. -/
structure Registered (s : Session) : Prop where
  faithful : s.engine.Faithful
  consistent : ∃ E, s.graph.Consistent E
  unanswered : ∀ key e, ¬s.cache.Holds key e
  unlinked : s.rowLinks = .empty
  named : ∀ x ∈ s.graph.nodes.keys, isLocalName x ∧ ¬Expr.isReserved x
  covered : ∀ x n, s.graph.nodes.get? x = some n → Covered n

theorem registered_create (settings : Settings) : Registered (create settings) where
  faithful := Engine.faithful_new
  consistent := ⟨.empty, Graph.built_consistent []⟩
  unanswered _ _ := Cache.not_holds_new _
  unlinked := rfl
  named _ h := by cases h
  covered _ _ h := by cases h

/-- The ids that the expression of a field mentions, if it has one. -/
def mentionedBy (expression : Option String) : Except Abort (List String) :=
  expression.elim (.ok []) Engine.mentionedIn

section Register

variable {s : Session} {id : String} {text : Option String} {default : Value} {ids : List String}

theorem mem_mentionedBy_iff {expression : Option String} (h : mentionedBy expression = .ok ids)
    {x : String} : x ∈ ids ↔
      ∃ t e, expression = some t ∧ Expr.parse t = .ok e ∧ x ∈ e.mentions := by
  cases expression with
  | none =>
    obtain rfl := Except.ok.inj h
    simp
  | some t => simpa using Engine.mem_mentionedIn_iff h

/-- What the expression of a simple field mentions are names that fields can have. -/
theorem named_of_mentionedBy {expression : Option String} (hp : expression.all isPlainText)
    (h : mentionedBy expression = .ok ids) : ∀ x ∈ ids, isLocalName x ∧ ¬Expr.isReserved x := by
  intro x hx
  obtain ⟨t, e, rfl, he, hm⟩ := (mem_mentionedBy_iff h).mp hx
  have hplain : e.isPlain := by simpa [isPlainText, he, Except.toOption] using hp
  obtain ⟨hprobe, hr⟩ := (Expr.mem_mentions_iff hplain).mp hm
  exact ⟨Expr.isLocalName_of_mem_probes hplain hprobe, hr⟩

/-- What a registration finds out before it enters a field: the row of the id, and the dependencies
as they are before local names become ids of the row. -/
def reading (registered : List String) (id : String) (text : Option String)
    (declared : Option (List String)) : Except Abort (Option RowRef × List String) := do
  let references ← mentionedBy (expressionOf text)
  let extracted ← withHeads references registered
  let row ← RowRef.parse? id
  return (row, declared.getD extracted)

theorem reading_eq_ok {registered : List String} {id : String} {text : Option String}
    {declared : Option (List String)} {row : Option RowRef} {ids : List String}
    (h : reading registered id text declared = .ok (row, ids)) :
    ∃ references extracted, mentionedBy (expressionOf text) = .ok references ∧
      withHeads references registered = .ok extracted ∧ RowRef.parse? id = .ok row ∧
      ids = declared.getD extracted := by
  obtain ⟨references, href, h⟩ := bind_eq_ok h
  obtain ⟨extracted, hext, h⟩ := bind_eq_ok h
  obtain ⟨row', hrow, h⟩ := bind_eq_ok h
  obtain ⟨rfl, rfl⟩ := Prod.mk.inj (Except.ok.inj h)
  exact ⟨references, extracted, href, hext, hrow, rfl⟩

/-- A registration enters the field with what it has found out, or aborts and enters nothing. -/
theorem run_register_eq {s : Session} (hs : s.engine.Faithful) (id : String) (text : Option String)
    (declared : Option (List String)) (default : Value) :
    ∃ g : Engine, g.Faithful ∧ (register id text declared default).run s =
      match reading s.graph.nodes.keys id text declared with
      | .ok (row, ids) => (.ok ⟨⟩, ({ s with engine := g } : Session).enter id row
          (expressionOf text) ids default)
      | .error c => (.error c, { s with engine := g }) := by
  unfold register reading
  generalize expressionOf text = expression
  have hrest (references : List String) (t : Session) :
      (do
        let extracted ← orAbort (withHeads references (← get).graph.nodes.keys)
        let row ← orAbort (RowRef.parse? id)
        modify fun s => s.enter id row expression (declared.getD extracted) default :
          Action Unit).run t =
      match (do
        let extracted ← withHeads references t.graph.nodes.keys
        let row ← RowRef.parse? id
        return (row, declared.getD extracted) : Except Abort _) with
      | .ok (row, ids) => (.ok ⟨⟩, t.enter id row expression ids default)
      | .error c => (.error c, t) := by
    rw [run_bind_ok (run_get t), run_bind, run_orAbort]
    cases hext : withHeads references t.graph.nodes.keys with
    | error c => rfl
    | ok extracted =>
      dsimp only
      rw [run_bind, run_orAbort]
      cases RowRef.parse? id <;> rfl
  cases expression with
  | none => exact ⟨s.engine, hs, hrest [] s⟩
  | some e =>
    obtain ⟨g, hg, hr⟩ := run_onEngine (Engine.answers_dependencies e) hs
    refine ⟨g, hg, ?_⟩
    have hm : mentionedBy (some e) = Engine.mentionedIn e := rfl
    rw [hm]
    cases hids : Engine.mentionedIn e with
    | error c => exact run_bind_error (hr.trans (congrArg (·, _) hids))
    | ok ids => exact (run_bind_ok (hr.trans (congrArg (·, _) hids))).trans (hrest ids _)

/-- A simple field has no row, and depends on what its expression mentions. -/
theorem reading_of_isPlainText (hid : isLocalName id) (hp : (expressionOf text).all isPlainText)
    (registered : List String) :
    reading registered id text none =
      (mentionedBy (expressionOf text)).map fun ids => (none, ids.eraseDups) := by
  unfold reading
  cases hm : mentionedBy (expressionOf text) with
  | error c => rfl
  | ok ids =>
    have hlocal : ∀ x ∈ ids, isLocalName x := fun x hx => (named_of_mentionedBy hp hm x hx).1
    simp only [withHeads_of_isLocalName hlocal, RowRef.parse?_of_isLocalName hid, bind, Except.bind]
    rfl

/-- A registration of a simple field aborts when its expression cannot be read in full, and otherwise
enters what it mentions as dependencies. -/
theorem run_register (hs : s.engine.Faithful) (hid : isLocalName id)
    (hp : (expressionOf text).all isPlainText) (default : Value) :
    ∃ g : Engine, g.Faithful ∧ (register id text none default).run s =
      match mentionedBy (expressionOf text) with
      | .ok ids => (.ok ⟨⟩, ({ s with engine := g } : Session).enter id none (expressionOf text)
          ids.eraseDups default)
      | .error c => (.error c, { s with engine := g }) := by
  obtain ⟨g, hg, hr⟩ := run_register_eq hs id text none default
  refine ⟨g, hg, hr.trans ?_⟩
  rw [reading_of_isPlainText hid hp]
  cases mentionedBy (expressionOf text) <;> rfl

theorem edges_of_unlinked (h : s.rowLinks = .empty) : s.edges id none ids = ids := by
  simp [edges, qualified, h]

/-- A placeholder has no expression to cover. -/
theorem Registered.covered_nodeAt (h : Registered s) (x : String) :
    Covered (Graph.nodeAt s.graph.nodes x) := by
  cases hx : s.graph.nodes.get? x with
  | some n =>
    rw [Graph.nodeAt_eq hx]
    exact h.covered x n hx
  | none =>
    intro t e ht
    simp [Graph.nodeAt, hx] at ht

/-- Registration covers the field itself, and the other nodes keep expression and dependencies. -/
theorem Registered.covered_registered (h : Registered s) (hp : (expressionOf text).all isPlainText)
    (hm : mentionedBy (expressionOf text) = .ok ids) (x : String) :
    Covered (Graph.registered s.graph.nodes id (expressionOf text) ids.eraseDups default x) := by
  intro t e ht he
  rw [Graph.registered_expression] at ht
  rw [Graph.registered_dependencies]
  split at ht
  · rename_i hx
    have hplain : e.isPlain := by simpa [ht, isPlainText, he, Except.toOption] using hp
    refine ⟨hplain, fun y hy => ?_⟩
    rw [if_pos hx, List.mem_eraseDups, List.mem_eraseDups]
    exact (mem_mentionedBy_iff hm).mpr ⟨t, e, ht, he, hy⟩
  · rename_i hx
    rw [if_neg hx]
    exact h.covered_nodeAt x t e ht he

/-- An entered field keeps the invariant, whatever placeholders come with it. -/
theorem Registered.enter (h : Registered s) (hid : isLocalName id ∧ ¬Expr.isReserved id)
    (hp : (expressionOf text).all isPlainText) (hm : mentionedBy (expressionOf text) = .ok ids) :
    Registered (s.enter id none (expressionOf text) ids.eraseDups default) := by
  obtain ⟨E, hE⟩ := h.consistent
  have hgraph : (s.enter id none (expressionOf text) ids.eraseDups default).graph =
      s.graph.register id (expressionOf text) ids.eraseDups default := by
    simp only [Session.enter, edges_of_unlinked h.unlinked]
  have hnode (x : String) := Graph.get?_register s.graph id (expressionOf text) ids.eraseDups default x
  refine ⟨h.faithful, ⟨E.register id ids.eraseDups, ?_⟩, ?_, h.unlinked, fun x hx => ?_,
    fun x n hn => ?_⟩
  · rw [hgraph]
    exact ⟨hE.mirrors.register id _ _ _, Graph.settled_rebuild _⟩
  · intro key e hk
    exact h.unanswered key e hk.of_discard.1
  · rw [hgraph, ← Table.get?_isSome_iff, hnode] at hx
    split at hx
    · rename_i hmem
      rcases hmem with hk | rfl | hd
      · exact h.named x hk
      · exact hid
      · exact named_of_mentionedBy hp hm x (List.mem_eraseDups.mp hd)
    · cases hx
  · rw [hgraph, hnode] at hn
    split at hn
    · obtain rfl := Option.some.inj hn
      exact h.covered_registered hp hm x
    · cases hn

theorem Registered.perform (h : Registered s) {op : Operation} (hop : op.isSimple) :
    Registered (op.perform s) := by
  cases op with
  | register id text declared default =>
    cases declared with
    | some _ => cases hop
    | none =>
      simp only [Operation.isSimple, Bool.and_eq_true, Bool.not_eq_true'] at hop
      obtain ⟨⟨hid, hres⟩, hp⟩ := hop
      obtain ⟨g, hg, hr⟩ := run_register h.faithful hid hp default
      have hlearned : Registered { s with engine := g } :=
        ⟨hg, h.consistent, h.unanswered, h.unlinked, h.named, h.covered⟩
      rw [Operation.perform, hr]
      cases hm : mentionedBy (expressionOf text) with
      | error c => exact hlearned
      | ok ids => exact hlearned.enter ⟨hid, by simp [hres]⟩ hp hm
  | _ => cases hop

end Register

/-- The invariant holds after every history of simple registrations. -/
theorem registered_after (settings : Settings) {ops : List Operation}
    (h : ∀ op ∈ ops, op.isSimple) : Registered (after (create settings) ops) := by
  suffices hs : ∀ s, Registered s → Registered (after s ops) from hs _ (registered_create settings)
  induction ops with
  | nil => exact fun s hs => hs
  | cons op rest ih =>
    intro s hs
    exact ih (fun o ho => h o (List.mem_cons_of_mem op ho)) _ (hs.perform (h op List.mem_cons_self))

end Session

end LiveForm
