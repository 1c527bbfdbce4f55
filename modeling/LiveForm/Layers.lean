import LiveForm.Abort
import LiveForm.Value

/-! The values that expressions can read come in three layers: what the user entered, what was
computed, and fixed metadata. In the merged view computed values win over entered ones, and metadata
only fills gaps. Every key of a layer has to be a name. -/

namespace LiveForm

structure Layers where
  raw : Context := .empty
  calculated : Context := .empty
  metadata : Context := .empty

/-- The layers as they are offered, before their keys are known to be names. -/
structure Offer where
  raw : Mapping := .empty
  calculated : Mapping := .empty
  metadata : Mapping := .empty

namespace Layers

def named (m : Mapping) : Except Abort Context :=
  match m.context? with
  | some c => .ok c
  | none => .error .context

def ofOffer (o : Offer) : Except Abort Layers :=
  return {
    raw := ← named o.raw
    calculated := ← named o.calculated
    metadata := ← named o.metadata }

def merged (l : Layers) : Context := (l.metadata.merge l.raw).merge l.calculated

end Layers

end LiveForm
