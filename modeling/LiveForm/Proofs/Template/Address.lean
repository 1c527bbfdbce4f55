import LiveForm.Proofs.Row.Ids
import LiveForm.Proofs.Template

/-! # Paths that spell out an address

An address leads to a value through keys of mappings and indices of lists. A path that writes it out is
split into just these keys and indices, and each of them is found as what it is: of a mapping, the key
itself before any other kind of match, and of a list, the item. -/

namespace LiveForm.Template

/-! ## Addresses and their paths -/

def isSeparator (c : Char) : Bool := c == '.' || c == '[' || c == ']'

/-- A key that a path can name. -/
structure PathKey where
  text : String
  nonempty : text ≠ ""
  plain : text.toList.any isSeparator = false

/-- A step of an address. An index is one that can be written. -/
inductive Segment where
  | key (k : PathKey)
  | index (i : Nat) (writable : isWritable i)

namespace Segment

/-- The part of a path that stands for the step. -/
def name : Segment → List Char
  | key k => k.text.toList
  | index i _ => Decimal.naturalDigits i

/-- The step as it is written behind another. -/
def written : Segment → List Char
  | key k => '.' :: k.text.toList
  | index i _ => '[' :: Decimal.naturalDigits i ++ [']']

def enter? : Segment → Value → Option Value
  | key k, .mapping cells => cells.lookup (.text k.text)
  | index i _, .list items => items[i]?
  | _, _ => none

end Segment

/-- The value at the end of an address. -/
def follow : List Segment → Value → Option Value
  | [], v => some v
  | s :: rest, v => (s.enter? v).bind (follow rest)

/-- The path of an address that starts with a key. -/
def path (first : PathKey) (rest : List Segment) : String :=
  String.ofList (first.text.toList ++ rest.flatMap Segment.written)

/-! ## Splitting a path -/

/-- The parts of a path that count. -/
def parts (cs : List Char) : List (List Char) := (splitFrom [] cs).filter fun part => !part.isEmpty

theorem splitPath_ofList (cs : List Char) :
    splitPath (String.ofList cs) = (parts cs).map String.ofList := by
  rw [splitPath, String.toList_ofList, parts]

section Splitting

variable {cs rest current : List Char} {c : Char}

theorem splitFrom_append (h : ∀ c ∈ cs, isSeparator c = false) :
    splitFrom current (cs ++ rest) = splitFrom (cs.reverse ++ current) rest := by
  induction cs generalizing current with
  | nil => rfl
  | cons c cs ih =>
    obtain ⟨hc, hcs⟩ := List.forall_mem_cons.mp h
    have hseparator : (c == '.' || c == '[' || c == ']') = false := hc
    rw [List.cons_append, splitFrom, hseparator, if_neg Bool.false_ne_true, ih hcs]
    simp

theorem splitFrom_cons (h : isSeparator c) :
    splitFrom current (c :: rest) = current.reverse :: splitFrom [] rest := by
  rw [splitFrom, if_pos (show (c == '.' || c == '[' || c == ']') = true from h)]

theorem parts_cons (h : isSeparator c) : parts (c :: rest) = parts rest := by
  rw [parts, splitFrom_cons h]
  rfl

/-- Where a part of a path ends: the path does, or a separator follows. -/
def Ends (rest : List Char) : Prop := ∀ c ∈ rest.head?, isSeparator c

theorem parts_append (hcs : ∀ c ∈ cs, isSeparator c = false) (hne : cs ≠ []) (hrest : Ends rest) :
    parts (cs ++ rest) = cs :: parts rest := by
  rw [parts, splitFrom_append hcs, List.append_nil]
  cases rest with
  | nil => simp [splitFrom, parts, hne]
  | cons c rest =>
    rw [splitFrom_cons (hrest c rfl), parts_cons (hrest c rfl), List.reverse_reverse,
      List.filter_cons_of_pos (by simpa using hne)]
    rfl

end Splitting

theorem PathKey.not_isSeparator {k : PathKey} {c : Char} (h : c ∈ k.text.toList) :
    isSeparator c = false := by
  simpa using List.any_eq_false.mp k.plain c h

theorem PathKey.toList_ne_nil (k : PathKey) : k.text.toList ≠ [] :=
  fun h => k.nonempty (String.toList_eq_nil_iff.mp h)

theorem isSeparator_of_mem_naturalDigits {c : Char} {n : Nat} (h : c ∈ Decimal.naturalDigits n) :
    isSeparator c = false := by
  have hdigit := Decimal.isDigit_of_mem_naturalDigits h
  have hne {d : Char} (hd : d.isDigit = false) : c ≠ d := by
    rintro rfl
    rw [hdigit] at hd
    cases hd
  simp [isSeparator, hne (d := '.') (by decide), hne (d := '[') (by decide),
    hne (d := ']') (by decide)]

theorem ends_written (rest : List Segment) : Ends (rest.flatMap Segment.written) := by
  intro c hc
  cases rest with
  | nil => cases hc
  | cons s rest =>
    cases s with
    | key k =>
      obtain rfl : '.' = c := Option.some.inj hc
      rfl
    | index i hi =>
      obtain rfl : '[' = c := Option.some.inj hc
      rfl

/-- What is written is split into what was written. -/
theorem parts_written (rest : List Segment) :
    parts (rest.flatMap Segment.written) = rest.map Segment.name := by
  induction rest with
  | nil => rfl
  | cons s rest ih =>
    rw [List.flatMap_cons, List.map_cons]
    cases s with
    | key k =>
      rw [Segment.written, List.cons_append, parts_cons (by decide),
        parts_append (fun _ => PathKey.not_isSeparator) k.toList_ne_nil (ends_written rest), ih]
      rfl
    | index i hi =>
      have hdigits : Decimal.naturalDigits i ≠ [] := by simp [Decimal.naturalDigits]
      rw [Segment.written, List.cons_append, List.cons_append, parts_cons (by decide),
        List.append_assoc, List.singleton_append,
        parts_append (fun _ => isSeparator_of_mem_naturalDigits) hdigits (fun c hc => ?_),
        parts_cons (by decide), ih]
      · rfl
      · obtain rfl : ']' = c := Option.some.inj hc
        rfl

theorem splitPath_path (first : PathKey) (rest : List Segment) :
    splitPath (path first rest) =
      (Segment.key first :: rest).map fun s => String.ofList s.name := by
  rw [path, splitPath_ofList, parts_append (fun _ => PathKey.not_isSeparator)
    first.toList_ne_nil (ends_written rest), parts_written, List.map_cons, List.map_cons, List.map_map]
  rfl

/-! ## Following an address -/

theorem index?_naturalDigits {i : Nat} (h : isWritable i) :
    index? (String.ofList (Decimal.naturalDigits i)) = .ok (some i) := by
  have hne : (Decimal.naturalDigits i).isEmpty = false := by simp [Decimal.naturalDigits]
  have hdecimal : (Decimal.naturalDigits i).all Text.isDecimal :=
    List.all_eq_true.mpr fun c hc => isDecimal_of_mem_naturalDigits hc
  have hdigitLike : (Decimal.naturalDigits i).all Text.isDigitLike := by
    refine List.all_eq_true.mpr fun c hc => ?_
    have hdigit := isDigit_iff.mp (Decimal.isDigit_of_mem_naturalDigits hc)
    have hlt : c.toNat < 128 := Nat.lt_of_le_of_lt hdigit.2 (by decide)
    simpa [Text.isDigitLike, hlt] using hdigit
  rw [index?, String.toList_ofList]
  simp only [hne, hdigitLike, hdecimal, Bool.not_true, Bool.or_self, Bool.false_eq_true, if_false,
    if_true, whole_naturalDigits, h]
  rfl

/-- A step that an address takes is taken under its name, whatever other keys would match. -/
theorem step_of_enter? {s : Segment} {v w : Value} (h : s.enter? v = some w) :
    step v (String.ofList s.name) = .ok (some w) := by
  cases s with
  | key k =>
    cases v with
    | mapping cells =>
      rw [Segment.name, String.ofList_toList]
      exact step_of_lookupKey? (m := ⟨cells⟩) (lookupKey?_of_get? h) h
    | _ => cases h
  | index i hi =>
    cases v with
    | list items =>
      have hindex := index?_naturalDigits hi
      rw [Segment.name, step, if_neg (ne_length_of_index? hindex), hindex]
      exact congrArg Except.ok h
    | _ => cases h

theorem walk_of_follow {segments : List Segment} {v w : Value} (h : follow segments v = some w) :
    walk (segments.map fun s => String.ofList s.name) v = .ok (some w) := by
  induction segments generalizing v with
  | nil =>
    obtain rfl := Option.some.inj h
    rfl
  | cons s rest ih =>
    obtain ⟨next, hnext, hrest⟩ := Option.bind_eq_some_iff.mp h
    rw [List.map_cons, walk, step_of_enter? hnext]
    exact ih hrest

/-- **A path that spells out an address leads there.** Unless the path of more than one step is a key
itself, its value is the one at the address, whatever else its parts would match. -/
theorem resolvePath_path (m : Mapping) (first : PathKey) (rest : List Segment) {v : Value}
    (hv : follow (.key first :: rest) (.ofMapping m) = some v)
    (hpath : rest ≠ [] → m.get? (.text (path first rest)) = none) :
    resolvePath (path first rest) m = .ok (some v) := by
  have hwalk : walk (splitPath (path first rest)) (.ofMapping m) = .ok (some v) := by
    rw [splitPath_path]
    exact walk_of_follow hv
  rw [resolvePath]
  cases rest with
  | nil =>
    have hname : path first [] = first.text := by simp [path, String.ofList_toList]
    have hkey : m.get? (.text first.text) = some v := by
      obtain ⟨w, hw, hrest⟩ := Option.bind_eq_some_iff.mp hv
      obtain rfl := Option.some.inj hrest
      exact hw
    rw [hname, hkey]
  | cons s rest =>
    rw [hpath (List.cons_ne_nil s rest)]
    exact hwalk

/-- Keys that look like an index or are named as a length is, in nested lists, with other keys around
them that match in other ways. -/
def parcels : Mapping :=
  ⟨[(.text "ORDER", .int 1), (.text "order", .mapping [
    (.text "Items", .int 2), (.text "my_items", .int 3),
    (.text "items", .list [.list [], .list [.mapping [(.text "LENGTH", .int 4),
      (.text "length", .mapping [(.text "10", .int 5), (.text "1", .int 6), (.text "0", .int 7)])]]])])]⟩

def orderKey : PathKey := ⟨"order", by decide, by decide⟩

def parcelSteps : List Segment :=
  [.key ⟨"items", by decide, by decide⟩, .index 1 (by decide +kernel),
    .index 0 (by decide +kernel), .key ⟨"length", by decide, by decide⟩,
    .key ⟨"0", by decide, by decide⟩]

theorem resolvePath_path_parcels :
    resolvePath "order.items[1][0].length.0" parcels = .ok (some (.int 7)) := by
  have hpath : path orderKey parcelSteps = "order.items[1][0].length.0" := by decide +kernel
  have hfree : (parcels.get? (.text "order.items[1][0].length.0")).isNone := by decide +kernel
  rw [← hpath] at hfree ⊢
  exact resolvePath_path parcels orderKey parcelSteps rfl fun _ =>
    Option.isNone_iff_eq_none.mp hfree

end LiveForm.Template
