import LiveForm.Proofs.Session.Answer

/-! # Histories of a session

A history is a list of operations; an operation that aborts keeps what it has changed, and the
history goes on. What a history shows is the report of each of its passes. Its consultations are the
points at which a pass asks for the answer of a computed field. -/

namespace LiveForm.Session

inductive Operation where
  | register (id : String) (text : Option String) (declared : Option (List String))
    (default : Value)
  | registerArray (array : String) (children : List String)
  | unregister (id : String)
  | evaluateAll (now : Number) (offer : Offer)
  | evaluateOnce (text : String) (scope : Scope)
  | clearCache
  | close

/-- What a pass shows: its results or why it aborted, and the errors that stand afterwards. -/
structure Report where
  outcome : Except Abort Context
  errors : Table String String

/-- What a step asks for, when its field is computed and can be consulted at all. -/
def consultation? (now : Number) (p : Pass) (id : String) (s : Session) : Option Consultation :=
  match s.graph.nodes.get? id with
  | none => none
  | some n =>
    match n.expression with
    | none => none
    | some expression => (consult now n expression p.working).toOption

/-- The consultations of the steps of a pass, up to the one that aborts. -/
def stepConsultations (now : Number) (raw : Context) :
    List String → Pass → Session → List Consultation
  | [], _, _ => []
  | id :: rest, p, s =>
    (consultation? now p id s).toList ++
      match (step now raw p id).run s with
      | (.ok p, s) => stepConsultations now raw rest p s
      | (.error _, _) => []

namespace Operation

/-- The session that an operation leaves. -/
def perform (op : Operation) (s : Session) : Session :=
  match op with
  | register id text declared default => ((Session.register id text declared default).run s).2
  | registerArray array children => s.registerArray array children
  | unregister id => ((Session.unregister id).run s).2
  | evaluateAll now offer => ((Session.evaluateAll now offer).run s).2
  | evaluateOnce text scope => ((Session.evaluateOnce text scope).run s).2
  | clearCache => s.clearCache
  | close => s.close

def report? (op : Operation) (s : Session) : Option Report :=
  match op with
  | evaluateAll now offer =>
    let r := (Session.evaluateAll now offer).run s
    some ⟨r.1, r.2.errors⟩
  | _ => none

/-- The reading of the clock that an operation takes. -/
def time? : Operation → Option Number
  | evaluateAll now _ => some now
  | _ => none

def consultations (op : Operation) (s : Session) : List Consultation :=
  match op with
  | evaluateAll now offer =>
    match (opening offer).run s with
    | (.ok (raw, start), s) => stepConsultations now raw s.graph.order start s
    | (.error _, _) => []
  | _ => []

theorem consultations_evaluateAll (now : Number) (offer : Offer) (s : Session) :
    (evaluateAll now offer).consultations s =
      match (opening offer).run s with
      | (.ok (raw, start), s) => stepConsultations now raw s.graph.order start s
      | (.error _, _) => [] := rfl

end Operation

/-- The session after a history. -/
def after (s : Session) (ops : List Operation) : Session := ops.foldl (fun s op => op.perform s) s

/-- The reports of a history, in order. -/
def reports : List Operation → Session → List Report
  | [], _ => []
  | op :: rest, s => (op.report? s).toList ++ reports rest (op.perform s)

/-- The consultations of a history, in order. -/
def consultations : List Operation → Session → List Consultation
  | [], _ => []
  | op :: rest, s => op.consultations s ++ consultations rest (op.perform s)

/-! ## When a consultation takes place -/

theorem consultation?_eq_some {now : Number} {p : Pass} {id : String} {s : Session}
    {q : Consultation} (h : consultation? now p id s = some q) :
    ∃ n expression, s.graph.nodes.get? id = some n ∧ n.expression = some expression ∧
      consult now n expression p.working = .ok q := by
  unfold consultation? at h
  cases hn : s.graph.nodes.get? id with
  | none => simp [hn] at h
  | some n =>
    cases he : n.expression with
    | none => simp [hn, he] at h
    | some expression =>
      cases hc : consult now n expression p.working with
      | error c => simp [hn, he, hc, Except.toOption] at h
      | ok b =>
        obtain rfl : b = q := by simpa [hn, he, hc, Except.toOption] using h
        exact ⟨n, expression, rfl, he, hc⟩

theorem stepConsultations_time {now : Number} {raw : Context} {ids : List String} {p : Pass}
    {s : Session} : ∀ q ∈ stepConsultations now raw ids p s, q.time = now := by
  induction ids generalizing p s with
  | nil => simp [stepConsultations]
  | cons id rest ih =>
    intro q hq
    rw [stepConsultations, List.mem_append] at hq
    rcases hq with hq | hq
    · obtain ⟨n, expression, -, -, hc⟩ := consultation?_eq_some (by simpa using hq)
      exact (consult_eq_ok hc).2.1
    · split at hq
      · exact ih q hq
      · cases hq

theorem Operation.time?_of_consultations {op : Operation} {s : Session} {q : Consultation}
    (h : q ∈ op.consultations s) : op.time? = some q.time := by
  cases op with
  | evaluateAll now offer =>
    rw [consultations_evaluateAll] at h
    split at h
    · rw [time?, stepConsultations_time q h]
    · cases h
  | _ => cases h

theorem time_mem_of_consultations {ops : List Operation} {s : Session} {q : Consultation}
    (h : q ∈ consultations ops s) : q.time ∈ ops.filterMap Operation.time? := by
  induction ops generalizing s with
  | nil => cases h
  | cons op rest ih =>
    rw [consultations, List.mem_append] at h
    rw [List.mem_filterMap]
    rcases h with h | h
    · exact ⟨op, by simp, Operation.time?_of_consultations h⟩
    · obtain ⟨op', hop, ht⟩ := List.mem_filterMap.mp (ih h)
      exact ⟨op', by simp [hop], ht⟩

end LiveForm.Session
