import LiveForm.Schema

/-! The settings of a session. -/

namespace LiveForm

structure Settings where
  /-- For how many seconds an answer stays fresh. -/
  stalenessWindow : Float := 0.1
  /-- What a template shows for a token that resolves to nothing. -/
  emptyPlaceholder : String := "-"
  /-- Whether templates may call helpers. -/
  templateFunctions : Bool := true
  /-- Whether the last part of a dotted id is bound as a name of its own. -/
  aliasLeafNames : Bool := true

namespace Settings

def names : List String :=
  ["staleness_window", "empty_placeholder", "template_functions", "alias_leaf_names"]

/-- A staleness window is a number that is not negative. -/
def window? (v : Value) : Option Float := (Schema.float? v).filter (0.0 ≤ ·)

/-- Reads settings from a mapping with these names and no others. -/
def ofMapping? (m : Mapping) : Option Settings :=
  if Schema.hasOnly names m then do
    return {
      stalenessWindow := ← Schema.field? m "staleness_window" 0.1 window?
      emptyPlaceholder := ← Schema.field? m "empty_placeholder" "-" Schema.text?
      templateFunctions := ← Schema.field? m "template_functions" true Schema.bool?
      aliasLeafNames := ← Schema.field? m "alias_leaf_names" true Schema.bool? }
  else none

end Settings

end LiveForm
