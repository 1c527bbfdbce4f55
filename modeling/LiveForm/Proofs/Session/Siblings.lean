import LiveForm.Proofs.RowScope
import LiveForm.Proofs.Session.Binding
import LiveForm.Proofs.Session.Wiring

/-! # Siblings

A local name in the expression of a row field is taken for a sibling when the field is registered: if
it is a declared child of the array, or, when no children are declared, if no field has the name then.
What it is taken for is what the field depends on from then on. The scope of the row, on the other
hand, is made when the field is evaluated, and binds every cell that the row has by then; so a field
may read a sibling that it does not wait for. -/

namespace LiveForm.Session

open LiveForm.Action

/-- Whether a registration takes a local name in a row for a sibling. -/
def TakesForSibling (s : Session) (r : RowRef) (n : String) : Prop :=
  match s.schemas.get? r.array with
  | some names => n ∈ names
  | none => n ∉ s.graph.nodes.keys

section Taken

variable {s t : Session} {op : Operation} {r : RowRef} {n id d : String} {ids : List String}

theorem mem_qualified_of_sibling (h : TakesForSibling s r n) (hn : isLocalName n) (hm : n ∈ ids) :
    r.qualify n ∈ s.qualified (some r) ids := by
  unfold qualified RowRef.qualifyDependencies
  unfold TakesForSibling at h
  refine List.mem_eraseDups.mpr (List.mem_map.mpr ⟨n, hm, ?_⟩)
  cases hnames : s.schemas.get? r.array with
  | some names =>
    rw [hnames] at h
    simp [hn, h]
  | none =>
    rw [hnames] at h
    simp [hn, h]

theorem mem_qualified_of_not_sibling (h : ¬TakesForSibling s r n) (hn : isLocalName n)
    (hm : n ∈ ids) : n ∈ s.qualified (some r) ids := by
  unfold qualified RowRef.qualifyDependencies
  unfold TakesForSibling at h
  refine List.mem_eraseDups.mpr (List.mem_map.mpr ⟨n, hm, ?_⟩)
  cases hnames : s.schemas.get? r.array with
  | some names =>
    rw [hnames] at h
    simp [hn, h]
  | none =>
    rw [hnames] at h
    simp [hn, not_not.mp h]

/-! ## What is registered later -/

theorem Does.expressionAt_of_isRegistration (h : Wired s) (hdo : Does s t op)
    (hop : op.isRegistration) (hne : op.entered? ≠ some id) :
    t.graph.expressionAt id = s.graph.expressionAt id := by
  obtain ⟨E, hE⟩ := h.consistent
  cases hdo with
  | enters g hg hr =>
    have hE' : ({ s with engine := g } : Session).graph.Consistent E := hE
    rw [entered?_eq_some hr] at hne
    rw [expressionAt_enter hE', if_neg fun heq => hne (congrArg some heq.symm)]
  | removes => cases hop
  | closes => cases hop
  | keeps _ _ hk => exact Graph.expressionAt_of_stable_eq hk.stable id

/-- Registrations of other fields leave a computed field its dependencies. -/
theorem dependsOn_after (hs : Wired s) {later : List Operation}
    (hops : ∀ op ∈ later, op.isRegistration) (hlater : ∀ op ∈ later, op.entered? ≠ some id)
    (hx : (s.graph.expressionAt id).isSome) (hd : s.graph.DependsOn id d) :
    (after s later).graph.DependsOn id d := by
  induction later generalizing s with
  | nil => exact hd
  | cons op rest ih =>
    have hdo := hs.does op
    have hop := hops op List.mem_cons_self
    have hne := hlater op List.mem_cons_self
    have hsame := hdo.expressionAt_of_isRegistration hs hop hne
    refine ih (hs.perform op) (fun o ho => hops o (List.mem_cons_of_mem op ho))
      (fun o ho => hlater o (List.mem_cons_of_mem op ho)) (by rwa [hsame]) ?_
    refine hdo.dependsOn hs hne (by rwa [hsame]) ?_ hd
    rintro rfl
    cases hop

/-- What a registration takes a local name for is among the edges of the field. -/
theorem dependsOn_of_enters (hs : Wired s) {text : Option String} {default : Value} {t' : String}
    {e : Expr} (hdo : Does s t (.register id text none default))
    (hentered : (Operation.register id text none default).entered? = some id)
    (hr : RowRef.parse? id = .ok (some r)) (ht : expressionOf text = some t')
    (he : Expr.parse t' = .ok e) (hn : isLocalName n)
    (hm : n ∈ e.mentions ∨ ∃ d ∈ e.mentions, d ∉ s.graph.nodes.keys ∧
      dottedHead? d = .ok (some n)) :
    t.graph.expressionAt id = some t' ∧
      (TakesForSibling s r n → t.graph.DependsOn id (r.qualify n)) ∧
      (¬TakesForSibling s r n → t.graph.DependsOn id n) := by
  obtain ⟨E, hE⟩ := hs.consistent
  cases hdo with
  | @enters _ _ _ _ row ids g hg hread =>
    have hE' : ({ s with engine := g } : Session).graph.Consistent E := hE
    obtain ⟨references, extracted, href, hext, hrow, rfl⟩ := reading_eq_ok hread
    obtain rfl : some r = row := Except.ok.inj (hr.symm.trans hrow)
    have hmentioned {d : String} (hd : d ∈ e.mentions) : d ∈ references :=
      (mem_mentionedBy_iff href).mpr ⟨t', e, ht, he, hd⟩
    have hmem : n ∈ ids := by
      rcases hm with hm | ⟨d, hd, hfree, hhead⟩
      · exact mem_withHeads hext (hmentioned hm)
      · exact head_mem_withHeads hext (hmentioned hd) hfree hhead
    refine ⟨by rw [expressionAt_enter hE', if_pos rfl, ht], fun htaken => ?_, fun htaken => ?_⟩
    · refine (dependsOn_enter hE').mpr (.inl ⟨rfl, List.mem_append_left _ ?_⟩)
      exact mem_qualified_of_sibling (s := { s with engine := g }) htaken hn hmem
    · refine (dependsOn_enter hE').mpr (.inl ⟨rfl, List.mem_append_left _ ?_⟩)
      exact mem_qualified_of_not_sibling (s := { s with engine := g }) htaken hn hmem
  | keeps hnone => exact absurd (hnone.symm.trans hentered) (by simp)

end Taken

/-- The total of an item, of which no children are declared, and then its unit price. -/
def totalFirst : List Operation :=
  [.register "items[0].total" (some "unitPrice * 2") none .null,
    .register "items[0].unitPrice" (some "cost + 1") none .null]

/-- A pass evaluates a row field in a scope that binds a local name, which its expression may look up,
from a cell of the row, and the field does not depend on that cell. -/
structure ReadsUnscheduled (ops : List Operation) (offer : Offer) (id : String) (r : RowRef)
    (n : String) : Prop where
  registrations : ∀ op ∈ ops, op.isRegistration
  row : RowRef.parse? id = .ok (some r)
  looksUp : ((after (create {}) ops).graph.expressionAt id).any fun text =>
    (Expr.parse text).toOption.any fun e => e.probes.contains n
  named : isLocalName n ∧ Builtin.ofName? n = none
  cell : ∃ p s, (arriving (.int 0) offer id).run (after (create {}) ops) = (.ok p, s) ∧
    (r.cell? p.working n).isSome
  edge : ¬(after (create {}) ops).graph.DependsOn id (r.qualify n)

theorem exists_cell {ops : List Operation} {offer : Offer} {id n : String} {r : RowRef}
    (h : ((arriving (.int 0) offer id).run (after (create {}) ops)).1.toOption.any fun p =>
      (r.cell? p.working n).isSome) :
    ∃ p s, (arriving (.int 0) offer id).run (after (create {}) ops) = (.ok p, s) ∧
      (r.cell? p.working n).isSome := by
  cases hrun : (arriving (.int 0) offer id).run (after (create {}) ops) with
  | mk outcome s =>
    rw [hrun] at h
    cases outcome with
    | error c => cases h
    | ok p => exact ⟨p, s, rfl, h⟩

/-- One item with the given cells, and entries of the form. -/
def oneItem (cells : List (Key × Value)) (entries : List (Key × Value)) : Offer :=
  { raw := ⟨(.text "items", .list [.mapping cells]) :: entries⟩ }

/-- The price of the form is registered first; then the total of an item reads the price of the item,
which is computed after it. -/
def priceFirst : List Operation :=
  [.register "price" none none .null, .register "items[0].total" (some "price + 0") none .null,
    .register "items[0].price" (some "cost * 2") none .null]

/-- Children are declared, but not the price. -/
def priceUndeclared : List Operation :=
  [.registerArray "items" ["total"], .register "items[0].total" (some "price + 0") none .null]

/-- The name of the cell is reserved, though no function has it. -/
def cellReserved : List Operation := [.register "items[0].total" (some "Math + 0") none .null]

/-- The name of the cell is the head of a dotted id that is a field itself. -/
def netFirst : List Operation :=
  [.register "price.net" none none .null,
    .register "items[0].total" (some "price.net + 0") none .null]

end LiveForm.Session
