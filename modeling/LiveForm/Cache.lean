import LiveForm.Engine

/-! A short memory of answers. An entry belongs to a field and is found by the field, its expression
text and a snapshot of the values it depends on, while it is younger than the staleness window. A
field has at most one entry, so a changed value needs no invalidation. -/

namespace LiveForm

structure CacheKey where
  field : String
  expression : String
  snapshot : String
deriving Repr, BEq, ReflBEq, LawfulBEq, DecidableEq

structure CacheEntry (α : Type) where
  result : α
  time : Number

/-- Times are seconds on the clock that the caller reads. -/
structure Cache (α : Type) where
  window : Number := .float 0.1
  entries : Table CacheKey (CacheEntry α) := .empty

namespace Cache

variable {α : Type}

def size (c : Cache α) : Nat := c.entries.size

/-- An entry is stale once its age has reached the window. -/
def isStale (c : Cache α) (now : Number) (e : CacheEntry α) : Bool :=
  match now.sub e.time with
  | .ok age => age.ge c.window
  | .error _ => true

/-- The remembered result, if it is fresh; a stale entry is forgotten. -/
def get (c : Cache α) (now : Number) (key : CacheKey) : Option α × Cache α :=
  match c.entries.get? key with
  | none => (none, c)
  | some e =>
    if c.isStale now e then (none, { c with entries := c.entries.erase key })
    else (some e.result, c)

def belongsTo (field : String) (e : CacheKey × CacheEntry α) : Bool := e.1.field == field

/-- Forgets what belongs to a field, and says how many entries that were. -/
def discard (c : Cache α) (field : String) : Nat × Cache α :=
  (c.entries.entries.countP (belongsTo field),
   { c with entries := ⟨c.entries.entries.filter fun e => !belongsTo field e⟩ })

/-- Remembers a result in place of any other of the field. -/
def set (c : Cache α) (now : Number) (key : CacheKey) (result : α) : Cache α :=
  let c := (c.discard key.field).2
  { c with entries := c.entries.insert key ⟨result, now⟩ }

def clear (c : Cache α) : Cache α := { c with entries := .empty }

end Cache

end LiveForm
