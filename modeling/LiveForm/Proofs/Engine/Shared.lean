import LiveForm.Proofs.Engine.Escape
import LiveForm.Proofs.Store

/-! # An engine and the lists that it gives away

A list of ids is a value here, so what a caller does to it can not show in the engine. Where lists are
objects, an engine keeps the list of a text under an address of its own and gives away copies, which
their callers may write over at any time. Such an engine mirrors one that remembers values, and each
response of either is the response of a new engine. -/

namespace LiveForm.Engine

/-! ## Requests and responses -/

inductive Response where
  | answer (r : Except Abort Answer)
  | references (r : Except Abort (List String))
  | verdict (r : Except Abort Verdict)
  | cleared

def Call.respond (g : Engine) : Call → Response
  | evaluate text scope => .answer ((Engine.evaluate text scope).run g).1
  | dependencies text => .references ((Engine.dependencies text).run g).1
  | validate text => .verdict ((Engine.validate text).run g).1
  | clear => .cleared

/-- The responses of an engine to requests, one after the other. -/
def responses : List Call → Engine → List Response
  | [], _ => []
  | call :: calls, g => call.respond g :: responses calls (call.perform g)

theorem Answers.run_fst {α : Type} {action : Action α} {r : Except Abort α} (h : Answers action r)
    {g : Engine} (hg : g.Faithful) : (action.run g).1 = r := by
  obtain ⟨k, hk, -⟩ := h g hg
  rw [hk]

/-- What an engine remembers makes no difference to its response. -/
theorem respond_eq_new {g : Engine} (hg : g.Faithful) (call : Call) :
    call.respond g = call.respond {} := by
  have hsame {α : Type} {action : Action α} {r : Except Abort α} (h : Answers action r) :
      (action.run g).1 = (action.run {}).1 := (h.run_fst hg).trans (h.run_fst faithful_new).symm
  cases call with
  | evaluate text scope => exact congrArg Response.answer (hsame (answers_evaluate text scope))
  | dependencies text => exact congrArg Response.references (hsame (answers_dependencies text))
  | validate text => exact congrArg Response.verdict (hsame (answers_validate text))
  | clear => rfl

theorem responses_eq_new {g : Engine} (hg : g.Faithful) (calls : List Call) :
    responses calls g = calls.map fun call => call.respond {} := by
  induction calls generalizing g with
  | nil => rfl
  | cons call calls ih => rw [responses, List.map_cons, respond_eq_new hg, ih (hg.perform call)]

/-! ## Lists as objects -/

/-- An engine whose lists of ids are objects. -/
structure Shared where
  trees : Table String (Except SyntaxError Expr) := .empty
  /-- The address of the list that is kept for a text. -/
  references : Table String Address := .empty
  /-- Every list that was made, by address. -/
  lists : List (List String) := []
  /-- The addresses that callers have been given, in this order. -/
  given : List Address := []

/-- An answer whose ids are a list of the caller's. -/
structure Handout where
  value : Value
  error : Option String
  dependencies : Address

namespace Shared

abbrev Action := ExceptT Abort (StateM Shared)

def contents (s : Shared) (a : Address) : List String := (s.lists[a]?).getD []

/-- A new list, which nobody else has. -/
def make (ids : List String) (s : Shared) : Address × Shared :=
  (s.lists.length, { s with lists := s.lists ++ [ids] })

/-- A new list for the caller. -/
def give (ids : List String) (s : Shared) : Address × Shared :=
  let (a, t) := s.make ids
  (a, { t with given := t.given ++ [a] })

/-- A copy of a list for the caller. -/
def copy (a : Address) : Action Address := modifyGet fun s => s.give (s.contents a)

def keep (text : String) (a : Address) (s : Shared) : Shared :=
  { s with references := s.references.insert text a }

def tree (text : String) (s : Shared) : Except ParseFault Expr × Shared :=
  let (r, g) := Engine.tree text { trees := s.trees }
  (r, { s with trees := g.trees })

def dependencies (text : String) : Action Address := do
  match (← get).references.get? text with
  | some a => copy a
  | none =>
    let tree ← modifyGet (tree text)
    let ids ← mentioned tree
    let a ← modifyGet (make ids)
    modify (keep text a)
    copy a

def failure (text message : String) : Action Handout := do
  return ⟨.null, some (failed message), ← dependencies text⟩

def evaluate (text : String) (scope : Scope) : Action Handout := do
  match ← modifyGet (tree text) with
  | .error (.badSyntax s) => failure text s.message
  | .error .tooDeep => failure text nestedTooDeeply
  | .error .tooLong => throw .domain
  | .ok e =>
    match ← outcome depthLimit scope e with
    | (.ok v, reads) => return ⟨v, none, ← modifyGet (give reads)⟩
    | (.error message, _) => failure text message

def validate (text : String) : Action Verdict := do
  match ← modifyGet (tree text) with
  | .ok _ => return ⟨true, none⟩
  | .error (.badSyntax s) => return ⟨false, some (invalid s.message)⟩
  | .error .tooDeep => return ⟨false, some (invalid "nested too deeply")⟩
  | .error .tooLong => throw .domain

def clear (s : Shared) : Shared := { s with trees := .empty, references := .empty }

/-- An answer as its caller finds it. -/
def read (s : Shared) (h : Handout) : Answer := ⟨h.value, h.error, s.contents h.dependencies⟩

/-- The response to a request, read at once, and the engine after it. -/
def respond (s : Shared) : Call → Response × Shared
  | .evaluate text scope =>
    let (r, t) := (evaluate text scope).run s
    (.answer (r.map t.read), t)
  | .dependencies text =>
    let (r, t) := (dependencies text).run s
    (.references (r.map t.contents), t)
  | .validate text =>
    let (r, t) := (validate text).run s
    (.verdict r, t)
  | .clear => (.cleared, s.clear)

/-- Writes over the list that was given `i`-th. -/
def edit (s : Shared) (i : Nat) (ids : List String) : Shared :=
  match s.given[i]? with
  | some a => { s with lists := s.lists.set a ids }
  | none => s

end Shared

/-- What callers do: they make requests, and write whatever they like over lists that they were
given. -/
inductive Event where
  | call (c : Call)
  | edit (i : Nat) (ids : List String)

def Event.call? : Event → Option Call
  | call c => some c
  | edit _ _ => none

namespace Shared

/-- The responses to the requests among some events. -/
def transcript : List Event → Shared → List Response
  | [], _ => []
  | .call c :: events, s => (s.respond c).1 :: transcript events (s.respond c).2
  | .edit i ids :: events, s => transcript events (s.edit i ids)

/-! ## Mirroring an engine of values -/

/-- Both remember the same, and no caller has been given a list that is kept. -/
structure Mirrors (s : Shared) (g : Engine) : Prop where
  trees : s.trees = g.trees
  references : ∀ text, g.references.get? text = (s.references.get? text).map s.contents
  kept : ∀ text a, s.references.get? text = some a → a < s.lists.length ∧ a ∉ s.given
  given : ∀ a ∈ s.given, a < s.lists.length

section Mirrors

variable {s : Shared} {g : Engine} {text : String} {ids : List String} {a : Address}

theorem mirrors_new : Mirrors {} {} where
  trees := rfl
  references _ := rfl
  kept _ _ h := by cases h
  given _ h := by cases h

theorem contents_make_self (s : Shared) (ids : List String) :
    (s.make ids).2.contents (s.make ids).1 = ids := by
  simp [make, contents]

theorem contents_make_of_lt (h : a < s.lists.length) : (s.make ids).2.contents a = s.contents a := by
  simp [make, contents, List.getElem?_append_left h]

/-- The kept lists stay as they are when other lists change. -/
theorem Mirrors.of_contents {t : Shared} (h : Mirrors s g) (htrees : t.trees = s.trees)
    (hreferences : t.references = s.references) (hlength : s.lists.length ≤ t.lists.length)
    (hcontents : ∀ a, a < s.lists.length → a ∉ s.given → t.contents a = s.contents a)
    (hgiven : ∀ a ∈ t.given, a ∈ s.given ∨ s.lists.length ≤ a ∧ a < t.lists.length) :
    Mirrors t g where
  trees := htrees.trans h.trees
  references text := by
    rw [h.references, hreferences]
    cases ha : s.references.get? text with
    | none => rfl
    | some a =>
      obtain ⟨hlt, hfree⟩ := h.kept text a ha
      exact congrArg some (hcontents a hlt hfree).symm
  kept text a ha := by
    rw [hreferences] at ha
    obtain ⟨hlt, hfree⟩ := h.kept text a ha
    refine ⟨Nat.lt_of_lt_of_le hlt hlength, fun hmem => ?_⟩
    obtain hmem | ⟨hle, -⟩ := hgiven a hmem
    · exact hfree hmem
    · exact Nat.not_lt.mpr hle hlt
  given a ha := by
    obtain hmem | ⟨-, hlt⟩ := hgiven a ha
    · exact Nat.lt_of_lt_of_le (h.given a hmem) hlength
    · exact hlt

theorem Mirrors.make (h : Mirrors s g) (ids : List String) : Mirrors (s.make ids).2 g :=
  h.of_contents rfl rfl (by simp [Shared.make]) (fun _ hlt _ => contents_make_of_lt hlt)
    fun _ ha => .inl ha

theorem Mirrors.give (h : Mirrors s g) (ids : List String) : Mirrors (s.give ids).2 g := by
  refine h.of_contents rfl rfl (by simp [Shared.give, Shared.make])
    (fun _ hlt _ => contents_make_of_lt hlt) fun a ha => ?_
  have hmem : a ∈ s.given ++ [s.lists.length] := ha
  refine (List.mem_append.mp hmem).imp id fun hnew => ?_
  obtain rfl := List.mem_singleton.mp hnew
  simp [Shared.give, Shared.make]

/-- **A caller can not reach what is kept.** -/
theorem Mirrors.edit (h : Mirrors s g) (i : Nat) (ids : List String) : Mirrors (s.edit i ids) g := by
  unfold Shared.edit
  cases ha : s.given[i]? with
  | none => exact h
  | some a =>
    refine h.of_contents rfl rfl (by simp) (fun b _ hfree => ?_) fun _ hb => .inl hb
    have hne : a ≠ b := fun heq => hfree (heq ▸ List.mem_of_getElem? ha)
    simp [contents, List.getElem?_set_ne hne]

theorem Mirrors.clear (h : Mirrors s g) : Mirrors s.clear {} where
  trees := rfl
  references _ := rfl
  kept _ _ ha := by cases ha
  given := h.given

/-- A list that nobody was given is kept for a text. -/
theorem Mirrors.keep (h : Mirrors s g) (hlt : a < s.lists.length) (hfree : a ∉ s.given)
    (hids : s.contents a = ids) (text : String) :
    Mirrors (s.keep text a) { g with references := g.references.insert text ids } where
  trees := h.trees
  references t := by
    show (g.references.insert text ids).get? t = ((s.references.insert text a).get? t).map s.contents
    rw [Table.get?_insert, Table.get?_insert]
    split
    · exact congrArg some hids.symm
    · exact h.references t
  kept t b hb := by
    have hb : (s.references.insert text a).get? t = some b := hb
    rw [Table.get?_insert] at hb
    split at hb
    · obtain rfl := Option.some.inj hb
      exact ⟨hlt, hfree⟩
    · exact h.kept t b hb
  given := h.given

end Mirrors

/-! ## Computations -/

section Simulates

open LiveForm.Action

variable {α β γ δ : Type} {R : Shared → α → β → Prop} {Q : Shared → γ → δ → Prop}
  {x : Shared.Action α} {y : Engine.Action β}

/-- Both abort for one cause or answer what is related in the state of the first, and the states mirror
each other. -/
inductive Alike (R : Shared → α → β → Prop) :
    Except Abort α × Shared → Except Abort β × Engine → Prop
  | answer {a : α} {b : β} {s : Shared} {g : Engine} (hs : Mirrors s g) (h : R s a b) :
      Alike R (.ok a, s) (.ok b, g)
  | abort {s : Shared} {g : Engine} (hs : Mirrors s g) (c : Abort) : Alike R (.error c, s) (.error c, g)

def Simulates (R : Shared → α → β → Prop) (x : Shared.Action α) (y : Engine.Action β) : Prop :=
  ∀ s g, Mirrors s g → Alike R (x.run s) (y.run g)

/-- The caller's list holds these ids. -/
def HoldsIds (s : Shared) (a : Address) (ids : List String) : Prop := s.contents a = ids

/-- The caller finds this answer. -/
def HoldsAnswer (s : Shared) (h : Handout) (a : Answer) : Prop := s.read h = a

theorem Simulates.pure {a : α} {b : β} (h : ∀ s, R s a b) :
    Simulates R (Pure.pure a) (Pure.pure b) := fun s _ hs => .answer hs (h s)

theorem Simulates.throw (c : Abort) :
    Simulates R (MonadExcept.throw c) (MonadExcept.throw c) := fun _ _ hs => .abort hs c

theorem Simulates.bind {x : Shared.Action α} {y : Engine.Action α} {f : α → Shared.Action γ}
    {k : α → Engine.Action δ} (hx : Simulates (fun _ => Eq) x y)
    (hf : ∀ a, Simulates Q (f a) (k a)) : Simulates Q (x >>= f) (y >>= k) := by
  intro s g hs
  have h := hx s g hs
  rw [run_bind, run_bind]
  generalize x.run s = p at h ⊢
  generalize y.run g = q at h ⊢
  cases h with
  | answer ht heq => exact heq ▸ hf _ _ _ ht
  | abort ht c => exact .abort ht c

theorem Simulates.map {F : α → γ} {G : β → δ} (hx : Simulates R x y)
    (hmap : ∀ s a b, R s a b → Q s (F a) (G b)) :
    Simulates Q (do return F (← x)) (do return G (← y)) := by
  intro s g hs
  have h := hx s g hs
  rw [run_bind, run_bind]
  generalize x.run s = p at h ⊢
  generalize y.run g = q at h ⊢
  cases h with
  | answer ht h => exact .answer ht (hmap _ _ _ h)
  | abort ht c => exact .abort ht c

theorem simulates_orAbort (r : Except Abort α) :
    Simulates (fun _ => Eq) (liftM r : Shared.Action α) (liftM r : Engine.Action α) := by
  intro s g hs
  cases r with
  | ok a => exact .answer hs rfl
  | error c => exact .abort hs c

/-- Only trees are looked at when a text is read, and only trees are remembered. -/
theorem tree_eq_of_trees (text : String) (g : Engine) :
    Engine.tree text g = ((Engine.tree text { trees := g.trees }).1,
      { g with trees := (Engine.tree text { trees := g.trees }).2.trees }) := by
  unfold Engine.tree
  cases g.trees.get? text with
  | some r => cases r <;> rfl
  | none =>
    cases Expr.parse text with
    | ok e => rfl
    | error f => cases f <;> rfl

theorem simulates_tree (text : String) :
    Simulates (fun _ => Eq) (modifyGet (tree text)) (modifyGet (Engine.tree text)) := by
  intro s g hs
  rw [run_modifyGet, run_modifyGet, tree_eq_of_trees, tree, hs.trees]
  exact .answer ⟨rfl, hs.references, hs.kept, hs.given⟩ rfl

theorem simulates_give (ids : List String) :
    Simulates HoldsIds (modifyGet (give ids)) (Pure.pure ids) :=
  fun s _ hs => .answer (hs.give ids) (contents_make_self s ids)

theorem simulates_dependencies (text : String) :
    Simulates HoldsIds (dependencies text) (Engine.dependencies text) := by
  intro s g hs
  unfold dependencies Engine.dependencies
  rw [run_bind_ok (run_get s), run_bind_ok (run_get g), hs.references text]
  cases ha : s.references.get? text with
  | some a => exact simulates_give (s.contents a) s g hs
  | none =>
    refine Simulates.bind (simulates_tree text) (fun tree => ?_) s g hs
    refine Simulates.bind (simulates_orAbort (mentioned tree)) fun ids => ?_
    intro t l ht
    -- The list that is kept is made here and only a copy of it is given: no caller can edit it later.
    have hnew : (t.make ids).1 ∉ t.given := fun hmem => Nat.lt_irrefl _ (ht.given _ hmem)
    have hids : (t.make ids).2.contents (t.make ids).1 = ids := contents_make_self t ids
    have hkeep := (ht.make ids).keep (by simp [make]) hnew hids text
    exact .answer (hkeep.give _) ((contents_make_self _ _).trans hids)

theorem simulates_failure (text message : String) :
    Simulates HoldsAnswer (failure text message) (Engine.failure text message) :=
  (simulates_dependencies text).map fun _ _ _ h => congrArg (Answer.mk _ _) h

theorem simulates_evaluate (text : String) (scope : Scope) :
    Simulates HoldsAnswer (evaluate text scope) (Engine.evaluate text scope) := by
  refine .bind (simulates_tree text) fun r => ?_
  cases r with
  | error f =>
    cases f with
    | badSyntax s => exact simulates_failure text s.message
    | tooDeep => exact simulates_failure text nestedTooDeeply
    | tooLong => exact .throw .domain
  | ok e =>
    refine .bind (simulates_orAbort (outcome depthLimit scope e)) fun o => ?_
    obtain ⟨v | message, reads⟩ := o
    · exact simulates_failure text _
    · exact (simulates_give reads).map fun _ _ _ h => congrArg (Answer.mk _ _) h

theorem simulates_validate (text : String) :
    Simulates (fun _ => Eq) (validate text) (Engine.validate text) := by
  refine .bind (simulates_tree text) fun r => ?_
  cases r with
  | ok e => exact .pure fun _ => rfl
  | error f =>
    cases f with
    | badSyntax s => exact .pure fun _ => rfl
    | tooDeep => exact .pure fun _ => rfl
    | tooLong => exact .throw .domain

end Simulates

/-! ## Whole runs -/

theorem Alike.map_eq {α β : Type} {f : Shared → α → β} {p : Except Abort α × Shared}
    {q : Except Abort β × Engine} (h : Alike (fun s a b => f s a = b) p q) :
    p.1.map (f p.2) = q.1 ∧ Mirrors p.2 q.2 := by
  cases h with
  | answer hs h => exact ⟨congrArg Except.ok h, hs⟩
  | abort hs c => exact ⟨rfl, hs⟩

theorem Mirrors.respond {s : Shared} {g : Engine} (h : Mirrors s g) (call : Call) :
    (s.respond call).1 = call.respond g ∧ Mirrors (s.respond call).2 (call.perform g) := by
  cases call with
  | evaluate text scope =>
    exact (simulates_evaluate text scope s g h).map_eq.imp (congrArg Response.answer) id
  | dependencies text =>
    exact (simulates_dependencies text s g h).map_eq.imp (congrArg Response.references) id
  | validate text =>
    obtain ⟨hr, ht⟩ := (simulates_validate text s g h).map_eq (f := fun _ => id)
    exact ⟨congrArg Response.verdict ((congrFun Except.map_id _).symm.trans hr), ht⟩
  | clear => exact ⟨rfl, h.clear⟩

theorem transcript_eq_responses {s : Shared} {g : Engine} (h : Mirrors s g) (events : List Event) :
    transcript events s = responses (events.filterMap Event.call?) g := by
  induction events generalizing s g with
  | nil => rfl
  | cons event events ih =>
    cases event with
    | call c =>
      obtain ⟨hr, ht⟩ := h.respond c
      show (s.respond c).1 :: transcript events (s.respond c).2 = c.respond g :: _
      rw [hr, ih ht]
    | edit i ids => exact ih (h.edit i ids)

end Shared

/-- **What an engine remembers does not show.** Whatever an engine has been asked, and whatever callers
have written over the lists that it gave them, each response is that of a new engine to the same
request, be the lists objects or values. -/
theorem responses_as_new (events : List Event) :
    let calls := events.filterMap Event.call?
    Shared.transcript events {} = (calls.map fun call => (Shared.respond {} call).1) ∧
      responses calls {} = (calls.map fun call => call.respond {}) ∧
      Shared.transcript events {} = responses calls {} := by
  intro calls
  have htranscript := Shared.transcript_eq_responses Shared.mirrors_new events
  have hresponses := responses_eq_new faithful_new calls
  refine ⟨?_, hresponses, htranscript⟩
  rw [htranscript, hresponses]
  exact List.map_congr_left fun call _ => (Shared.mirrors_new.respond call).1.symm

end LiveForm.Engine
