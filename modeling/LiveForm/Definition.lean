import LiveForm.Document
import LiveForm.Session

/-! Form definitions and settings as documents. A definition lists the fields of a form with the
arrays, templates, values and cases that go with it; its fields may also be a mapping from ids to
expressions or to what describes a field. A document with settings of its own may stand in for
settings. -/

namespace LiveForm

/-- Why a document gives no definition or settings. -/
inductive LoadFault where
  | missingFile (path : String)
  /-- The text is no document. -/
  | malformed
  | notAMapping (origin what : String)
  | invalid
  /-- The document has a shape that cannot even be offered for validation, or is too large. -/
  | abort (cause : Abort)
deriving Repr, DecidableEq

namespace LoadFault

def ofRead : ReadFault → LoadFault
  | .malformed => malformed
  | .abort cause => abort cause

/-- The message, where the wording is this library's own. -/
def message? : LoadFault → Option String
  | missingFile path => some (path ++ ": No such file or directory")
  | notAMapping origin what => some (origin ++ ": " ++ what ++ " must be a mapping")
  | _ => none

end LoadFault

/-- The value of a document that is given as text. -/
def loadDocument (text : String) : Except LoadFault Value :=
  match Document.read text with
  | .ok v => .ok v
  | .error fault => .error (.ofRead fault)

structure FieldSpec where
  id : String
  expression : Option String
  /-- When missing, they are taken from the expression. -/
  dependencies : Option (List String)
  default : Value

structure CaseSpec where
  name : String
  inputs : Context
  expect : Context
  /-- Expected renderings by template name. -/
  templates : Table String String

structure Definition where
  path : String := ""
  settings : Settings := {}
  arrays : Table String (List String) := .empty
  fields : List FieldSpec := []
  templates : Table String String := .empty
  values : Context := .empty
  cases : List CaseSpec := []

/-- Null, false, zero and what is empty. -/
def Value.isBlank : Value → Bool
  | .list items => items.isEmpty
  | .mapping entries => entries.isEmpty
  | .float x => x == 0.0
  | v => !v.truthy

/-- The mapping that a document offers, with names for keys. -/
def namedMapping (origin what : String) : Value → Except LoadFault Mapping
  | .mapping entries => .ok ⟨entries⟩
  | _ => .error (.notAMapping origin what)

def orInvalid {α : Type} : Option α → Except LoadFault α
  | some a => .ok a
  | none => .error .invalid

def hasTextKeys (m : Mapping) : Bool := m.keys.all fun k => k.text?.isSome

namespace Settings

/-- Settings from a document; a blank one gives the defaults, and a mapping under the key `settings`
takes the place of the document. -/
def ofDocument (origin : String) (document : Value) : Except LoadFault Settings := do
  let m ← if document.isBlank then .ok .empty else namedMapping origin "settings" document
  let m : Mapping := match m.get? (.text "settings") with
    | some (.mapping entries) => ⟨entries⟩
    | _ => m
  if hasTextKeys m then orInvalid (ofMapping? m) else .error (.abort .mismatch)

end Settings

namespace FieldSpec

def names : List String := ["id", "expression", "dependencies", "default"]

def ofValue? (v : Value) : Option FieldSpec := do
  let m ← Schema.mapping? v
  if Schema.hasOnly names m then
    return {
      id := ← Schema.required? m "id" Schema.text?
      expression := ← Schema.field? m "expression" none (Schema.optional? Schema.text?)
      dependencies :=
        ← Schema.field? m "dependencies" none (Schema.optional? (Schema.list? Schema.text?))
      default := ← Schema.field? m "default" .null some }
  else none

end FieldSpec

namespace CaseSpec

def names : List String := ["name", "inputs", "expect", "templates"]

def ofValue? (v : Value) : Option CaseSpec := do
  let m ← Schema.mapping? v
  if Schema.hasOnly names m then
    return {
      name := ← Schema.required? m "name" Schema.text?
      inputs := ← Schema.field? m "inputs" .empty (Schema.table? some)
      expect := ← Schema.field? m "expect" .empty (Schema.table? some)
      templates := ← Schema.field? m "templates" .empty (Schema.table? Schema.text?) }
  else none

end CaseSpec

namespace Definition

def names : List String := ["settings", "arrays", "fields", "templates", "values", "cases"]

/-- A field under its id: text or null is its expression, and a mapping describes it. -/
def fieldEntry : Key × Value → Except LoadFault Value
  | (k, .mapping entries) =>
    .ok (.ofMapping ((Table.empty.insert (.text "id") k.toValue).merge ⟨entries⟩))
  | (k, .null) => .ok (.mapping [(.text "id", k.toValue), (.text "expression", .null)])
  | (k, .text s) => .ok (.mapping [(.text "id", k.toValue), (.text "expression", .text s)])
  | _ => .error (.abort .mismatch)

/-- Fields given as a mapping become a list. -/
def listFields (m : Mapping) : Except LoadFault Mapping :=
  match m.get? (.text "fields") with
  | some (.mapping entries) =>
    return m.insert (.text "fields") (.list (← entries.mapM fieldEntry))
  | _ => .ok m

def ofMapping? (path : String) (m : Mapping) : Option Definition :=
  if Schema.hasOnly names m then do
    return {
      path := path
      settings := ← Schema.field? m "settings" {} fun v =>
        (Schema.mapping? v).bind Settings.ofMapping?
      arrays := ← Schema.field? m "arrays" .empty (Schema.table? (Schema.list? Schema.text?))
      fields := ← Schema.field? m "fields" [] (Schema.list? FieldSpec.ofValue?)
      templates := ← Schema.field? m "templates" .empty (Schema.table? Schema.text?)
      values := ← Schema.field? m "values" .empty (Schema.table? some)
      cases := ← Schema.field? m "cases" [] (Schema.list? CaseSpec.ofValue?) }
  else none

/-- What a definition without a file is called in messages. -/
def origin (path : String) : String := if path.isEmpty then "<string>" else path

/-- A definition from a document; an empty document defines an empty form. -/
def ofDocument (path : String) (document : Value) : Except LoadFault Definition := do
  let m ← if document.isNull then .ok .empty
    else namedMapping (origin path) "form definition" document
  if !hasTextKeys m || m.contains (.text "path") then .error (.abort .mismatch)
  else orInvalid (ofMapping? path (← listFields m))

/-- Registers the arrays and then the fields of a definition. -/
def register (d : Definition) : Session.Action Unit := do
  modify fun s => d.arrays.entries.foldl (fun s (id, children) => s.registerArray id children) s
  d.fields.forM fun f => Session.register f.id f.expression f.dependencies f.default

/-- A computation on a new session that holds the fields of the definition. -/
def onSession {α : Type} (d : Definition) (action : Session.Action α) : Except Abort α :=
  ((do d.register; action).run (Session.create d.settings)).1

end Definition

end LiveForm
