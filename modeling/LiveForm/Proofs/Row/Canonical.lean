import LiveForm.Proofs.Row.Isolation

/-! # How an id spells its index

The index of a row is read from decimal digits of any script, with any number of zeros before them, and
it is written in one way. So `items[00].price` is read as the price of item 0, whose own id is
`items[0].price`: the two are one cell under two ids, and all that is made from the cell (the names of
siblings in the scope of a row, the ids that local names are rewritten to) comes to the second. An id
can be made from a cell exactly when it spells its index as numbers are written. -/

namespace LiveForm

/-! ## Digits as numbers are written -/

/-- ASCII digits, none of them a zero in front of others. -/
def IsPlain (digits : List Char) : Prop :=
  digits = ['0'] ∨ digits ≠ [] ∧ digits.head? ≠ some '0' ∧ ∀ c ∈ digits, c.isDigit

instance (digits : List Char) : Decidable (IsPlain digits) :=
  inferInstanceAs (Decidable (_ ∨ _))

section Digits

variable {digits : List Char} {n : Nat}

theorem head?_naturalDigits (h : 0 < n) : (Decimal.naturalDigits n).head? ≠ some '0' := by
  induction n using Nat.strongRecOn with
  | ind n ih =>
    unfold Decimal.naturalDigits at ih ⊢
    rw [Nat.toDigits_eq_if (by decide)]
    by_cases hlt : n < 10
    · rw [if_pos hlt, List.head?_cons, ne_eq, Option.some.injEq, Nat.digitChar_eq_zero]
      exact Nat.ne_of_gt h
    · rw [if_neg hlt, List.head?_append_of_ne_nil _ Nat.toDigits_ne_nil]
      exact ih (n / 10) (Nat.div_lt_self h (by decide)) (Nat.div_pos (Nat.le_of_not_lt hlt) (by decide))

theorem isPlain_naturalDigits (n : Nat) : IsPlain (Decimal.naturalDigits n) := by
  cases n with
  | zero => exact .inl (Nat.toDigits_zero 10)
  | succ n =>
    exact .inr ⟨Nat.toDigits_ne_nil, head?_naturalDigits n.succ_pos,
      fun c hc => Decimal.isDigit_of_mem_naturalDigits hc⟩

theorem digitsValue_concat (digits : List Char) (c : Char) :
    Numeral.digitsValue (digits ++ [c]) = 10 * Numeral.digitsValue digits + Text.decimalValue c := by
  rw [Numeral.digitsValue, List.foldl_append]
  rfl

theorem naturalDigits_of_isDigit {c : Char} (h : c.isDigit) :
    Decimal.naturalDigits (Text.decimalValue c) = [c] := by
  obtain ⟨hlow, hhigh⟩ := isDigit_iff.mp h
  have hlt : c.toNat - 48 < 10 := by omega
  rw [decimalValue_of_isDigit h, Decimal.naturalDigits, Nat.toDigits_of_lt_base hlt]
  refine congrArg (fun c => [c]) (Char.toNat_inj.mp ?_)
  rw [Nat.toNat_digitChar_of_lt_ten hlt]
  omega

theorem decimalValue_lt {c : Char} (h : Text.isDecimal c) : Text.decimalValue c < 10 := by
  unfold Text.isDecimal at h
  unfold Text.decimalValue
  by_cases hascii : c.toNat < 128
  · rw [if_pos hascii, Bool.and_eq_true, decide_eq_true_eq, decide_eq_true_eq] at h
    rw [if_pos hascii]
    omega
  · rw [if_neg hascii]
    exact Nat.mod_lt _ (by decide)

theorem tenTo_le {k l : Nat} (h : k ≤ l) : Binary.tenTo k ≤ Binary.tenTo l :=
  Nat.pow_le_pow_right (by decide) h

theorem digitsValue_lt (h : ∀ c ∈ digits, Text.isDecimal c) :
    Numeral.digitsValue digits < Binary.tenTo digits.length := by
  induction digits using List.reverseRecOn with
  | nil => decide
  | append_singleton front c ih =>
    have hfront := ih fun d hd => h d (List.mem_append_left _ hd)
    have hc := decimalValue_lt (h c (List.mem_append_right _ (List.mem_singleton_self c)))
    rw [digitsValue_concat, List.length_append, List.length_singleton]
    have hpow : Binary.tenTo (front.length + 1) = Binary.tenTo front.length * 10 := Nat.pow_succ ..
    omega

/-- Digits that are written as numbers are written are those of what they read as. -/
theorem IsPlain.naturalDigits_digitsValue (h : IsPlain digits) :
    Decimal.naturalDigits (Numeral.digitsValue digits) = digits := by
  obtain rfl | ⟨hne, hhead, hdigits⟩ := h
  · decide
  induction digits using List.reverseRecOn with
  | nil => exact absurd rfl hne
  | append_singleton front c ih =>
    have hc := hdigits c (List.mem_append_right _ (List.mem_singleton_self c))
    rw [digitsValue_concat]
    by_cases hfront : front = []
    · rw [hfront]
      exact (congrArg _ (Nat.zero_add _)).trans (naturalDigits_of_isDigit hc)
    · rw [List.head?_append_of_ne_nil _ hfront] at hhead
      have ih := ih hfront hhead fun d hd => hdigits d (List.mem_append_left _ hd)
      -- A front of value zero would be written as a zero.
      have hpos : 0 < Numeral.digitsValue front := by
        refine Nat.pos_of_ne_zero fun hzero => hhead ?_
        rw [← ih, hzero]
        rfl
      have hlt := decimalValue_lt (isDecimal_of_isDigit hc)
      calc Decimal.naturalDigits (10 * Numeral.digitsValue front + Text.decimalValue c)
        _ = Decimal.naturalDigits (Numeral.digitsValue front) ++
              Decimal.naturalDigits (Text.decimalValue c) :=
            (Nat.toDigits_append_toDigits (by decide) hpos hlt).symm
        _ = front ++ [c] := by rw [ih, naturalDigits_of_isDigit hc]

end Digits

namespace RowRef

/-! ## Spellings -/

/-- What stands between the first opening bracket of an id and the next closing one. -/
def indexDigits (id : String) : List Char :=
  ((id.toList.dropWhile (· != '[')).drop 1).takeWhile (· != ']')

/-- An id that spells its index as numbers are written. -/
def IsCanonical (id : String) : Prop := IsPlain (indexDigits id)

instance (id : String) : Decidable (IsCanonical id) := inferInstanceAs (Decidable (IsPlain _))

/-- An id that spells a cell, with the given digits for its index. -/
structure Spells (id : String) (digits : List Char) (r : RowRef) : Prop where
  toList : id.toList = r.array.toList ++ '[' :: (digits ++ ']' :: '.' :: r.child.toList)
  array : IsIdPart r.array
  child : IsIdPart r.child
  decimal : ∀ c ∈ digits, Text.isDecimal c
  index : Numeral.whole digits = .ok r.index

variable {id : String} {digits : List Char} {r q : RowRef} {c : Context} {v : Value} {n : String}

theorem isIdPart_ofList {cs : List Char} (hne : cs.isEmpty = false)
    (hcs : ∀ c ∈ cs, isBracket c = false) : IsIdPart (String.ofList cs) := by
  refine ⟨fun h => ?_, fun h => ?_, fun h => ?_⟩
  · rw [← String.toList_inj, String.toList_ofList] at h
    subst h
    cases hne
  · exact absurd (hcs '[' (by simpa using h)) (by decide)
  · exact absurd (hcs ']' (by simpa using h)) (by decide)

theorem exists_spells (h : parse? id = .ok (some r)) : ∃ digits, Spells id digits r := by
  unfold parse? at h
  dsimp only at h
  split at h
  · rename_i rest hrest
    split at h
    · rename_i child hchild
      split at h
      · cases h
      · rename_i hparts
        simp only [Bool.or_eq_true, not_or, Bool.not_eq_true] at hparts
        obtain ⟨⟨⟨harray, -⟩, hempty⟩, hbrackets⟩ := hparts
        obtain ⟨index, hindex, h⟩ := bind_eq_ok h
        obtain rfl := Option.some.inj (Except.ok.inj h)
        refine ⟨rest.takeWhile Text.isDecimal, ?_, isIdPart_ofList harray ?_,
          isIdPart_ofList hempty fun c hc => ?_, fun c hc => List.mem_takeWhile_imp hc, hindex⟩
        · simp only [String.toList_ofList]
          rw [← hchild, List.takeWhile_append_dropWhile, ← hrest, List.takeWhile_append_dropWhile]
        · intro c hc
          simpa using List.mem_takeWhile_imp hc
        · simpa using List.any_eq_false.mp hbrackets c hc
    · cases h
  · cases h

theorem ne_of_isDecimal {c d : Char} (hc : Text.isDecimal c) (hd : Text.isDecimal d = false) :
    c ≠ d := by
  rintro rfl
  exact absurd hc (by simp [hd])

theorem Spells.indexDigits_eq (h : Spells id digits r) : indexDigits id = digits := by
  have harray (c : Char) (hc : c ∈ r.array.toList) : (c != '[') = true :=
    bne_iff_ne.mpr fun heq => h.array.2.1 (heq ▸ hc)
  have hdigits (c : Char) (hc : c ∈ digits) : (c != ']') = true :=
    bne_iff_ne.mpr (ne_of_isDecimal (h.decimal c hc) (by decide))
  rw [indexDigits, h.toList, dropWhile_append_cons harray (by decide), List.drop_one, List.tail_cons,
    takeWhile_append_cons hdigits (by decide)]

theorem Spells.digitsValue_eq (h : Spells id digits r) :
    Numeral.digitsValue digits = r.index ∧ digits.length ≤ digitLimit := by
  have hindex := h.index
  rw [Numeral.whole, orTooLong] at hindex
  split at hindex
  · exact ⟨Except.ok.inj hindex, ‹_›⟩
  · cases hindex

/-- Digits that are written as numbers are written make the id that the cell has. -/
theorem Spells.qualify_eq (h : Spells id digits r) (hplain : IsPlain digits) :
    r.qualify r.child = id := by
  rw [← String.toList_inj, toList_qualify, h.toList, ← h.digitsValue_eq.1,
    hplain.naturalDigits_digitsValue]

/-- An id that is made from a row has the digits of its index. -/
theorem Spells.digits_eq (h : Spells id digits r) (hid : q.qualify n = id) :
    digits = Decimal.naturalDigits q.index := by
  have hlist := congrArg String.toList hid
  rw [toList_qualify, h.toList] at hlist
  -- The array of `q` holds no bracket, as the first bracket of the id is its last opening one.
  have hq : '[' ∉ q.array.toList := by
    intro hmem
    have hcount := congrArg (List.count '[') hlist
    have hdigits : digits.count '[' = 0 :=
      List.count_eq_zero.mpr fun hd => ne_of_isDecimal (h.decimal _ hd) (by decide) rfl
    have hpos := List.count_pos_iff.mpr hmem
    simp only [List.count_append, List.count_cons, List.count_eq_zero.mpr h.array.2.1,
      List.count_eq_zero.mpr h.child.2.1, hdigits] at hcount
    simp at hcount
    omega
  have hopen {s : String} (hs : '[' ∉ s.toList) (c : Char) (hc : c ∈ s.toList) : (c != '[') = true :=
    bne_iff_ne.mpr fun heq => hs (heq ▸ hc)
  obtain ⟨-, hrest⟩ := eq_of_append_cons (hopen hq) (hopen h.array.2.1) (by decide) (by decide) hlist
  exact (eq_of_append_cons (fun _ => isDecimal_of_mem_naturalDigits) h.decimal (by decide) (by decide)
    (List.cons.inj hrest).2).1.symm

theorem Spells.isCanonical_iff (h : Spells id digits r) : IsCanonical id ↔ IsPlain digits := by
  rw [IsCanonical, h.indexDigits_eq]

/-! ## Which ids are named -/

/-- An id that is read as a cell is made from some row if and only if it is canonical. -/
theorem exists_qualify_eq_iff (h : parse? id = .ok (some r)) :
    (∃ (q : RowRef) (n : String), q.qualify n = id) ↔ IsCanonical id := by
  obtain ⟨digits, hs⟩ := exists_spells h
  rw [hs.isCanonical_iff]
  constructor
  · rintro ⟨q, n, hid⟩
    rw [hs.digits_eq hid]
    exact isPlain_naturalDigits q.index
  · exact fun hplain => ⟨r, r.child, hs.qualify_eq hplain⟩

theorem qualify_child_eq_iff (h : parse? id = .ok (some r)) :
    r.qualify r.child = id ↔ IsCanonical id := by
  obtain ⟨digits, hs⟩ := exists_spells h
  exact ⟨fun hid => (exists_qualify_eq_iff h).mp ⟨r, r.child, hid⟩,
    fun hc => hs.qualify_eq (hs.isCanonical_iff.mp hc)⟩

/-- What a cell is read from may be longer than what it is written as, but not shorter: the id that is
written can be read as well. -/
theorem parse?_qualify_child (h : parse? id = .ok (some r)) :
    parse? (r.qualify r.child) = .ok (some r) := by
  obtain ⟨digits, hs⟩ := exists_spells h
  have hwritable : isWritable r.index := by
    obtain ⟨hvalue, hlength⟩ := hs.digitsValue_eq
    rw [isWritable, decide_eq_true_eq, Int.natAbs_natCast, ← hvalue]
    exact Nat.lt_of_lt_of_le (digitsValue_lt hs.decimal) (tenTo_le hlength)
  rw [parse?_qualify hs.array hs.child, if_pos hwritable]

/-- A row names a sibling by the canonical id of its cell. -/
theorem mem_qualifyDependencies {ids registered : List String} {children : Option (List String)}
    (hn : isLocalName n) (hm : n ∈ ids) (hchildren : ∀ names, children = some names → n ∈ names)
    (hregistered : children = none → n ∉ registered) :
    r.qualify n ∈ r.qualifyDependencies ids children registered := by
  refine List.mem_eraseDups.mpr (List.mem_map.mpr ⟨n, hm, ?_⟩)
  cases children with
  | some names => simp [hn, hchildren names rfl]
  | none => simp [hn, hregistered rfl]

/-- What dependencies are rewritten to was among them or is made from the row. -/
theorem mem_or_eq_qualify_of_mem {ids registered : List String} {children : Option (List String)}
    (h : id ∈ r.qualifyDependencies ids children registered) : id ∈ ids ∨ ∃ n, r.qualify n = id := by
  obtain ⟨x, hx, hid⟩ := List.mem_map.mp (List.mem_eraseDups.mp h)
  split at hid
  · exact .inl (hid ▸ hx)
  · split at hid <;> split at hid
    · exact .inr ⟨x, hid⟩
    · exact .inl (hid ▸ hx)
    · exact .inl (hid ▸ hx)
    · exact .inr ⟨x, hid⟩

/-- Another entry of the context changes no local name, unless it is under an id of the row, or the row
itself is in it, or it has that name. -/
theorem get?_scope_insert (hc : r.HasDistinctKeys c) (hn : isLocalName n) (hid : r.qualify n ≠ id)
    (harray : r.array ≠ id) (hname : n ≠ id) :
    (r.scope (c.insert id v)).get? (.text n) = (r.scope c).get? (.text n) := by
  have hrows : (c.insert id v).get? r.array = c.get? r.array := c.get?_insert_of_ne harray v
  have hd : r.HasDistinctKeys (c.insert id v) :=
    ⟨Table.nodup_keys_insert hc.keys id v, fun rows cells h => hc.row rows cells (hrows ▸ h)⟩
  have hcell : r.cell? (c.insert id v) n = r.cell? c n := by
    rw [cell?, cell?, c.get?_insert_of_ne hid v, row?, row?, hrows]
  rw [get?_scope_of_distinct hd hn, get?_scope_of_distinct hc hn, hcell, c.get?_insert_of_ne hname v]

/-- **Which ids are those of their cells.** What an id is read as can be written and read again, and
gives the id back exactly when it is canonical. Canonical ids of one cell are equal; the scope of each
row field beside it binds the child to what the context has under the id, and its dependencies are
rewritten to the id. An id that is not canonical is in no such place: an entry under it is seen by no
row, and no dependency is rewritten to it. -/
theorem canonical_iff_named (h : parse? id = .ok (some r)) :
    parse? (r.qualify r.child) = .ok (some r) ∧ (r.qualify r.child = id ↔ IsCanonical id) ∧
    (IsCanonical id →
      (∀ other, parse? other = .ok (some r) → IsCanonical other → other = id) ∧
      (isLocalName r.child → ∀ field,
        let q : RowRef := { r with child := field }
        (∀ c v, q.HasDistinctKeys c → c.get? id = some v →
          (q.scope c).get? (.text r.child) = some v) ∧
        ∀ ids children registered, r.child ∈ ids → (∀ names, children = some names → r.child ∈ names) →
          (children = none → r.child ∉ registered) →
            id ∈ q.qualifyDependencies ids children registered)) ∧
    (¬IsCanonical id → ∀ q : RowRef,
      (IsIdPart q.array → ∀ c v n, q.HasDistinctKeys c → isLocalName n →
        (q.scope (c.insert id v)).get? (.text n) = (q.scope c).get? (.text n)) ∧
      ∀ ids children registered, id ∈ q.qualifyDependencies ids children registered → id ∈ ids) := by
  refine ⟨parse?_qualify_child h, qualify_child_eq_iff h, fun hcanonical => ?_, fun hcanonical q => ?_⟩
  · have hid := (qualify_child_eq_iff h).mpr hcanonical
    refine ⟨fun other ho hother => ?_, fun hlocal field => ⟨fun c v hc hv => ?_, ?_⟩⟩
    · exact ((qualify_child_eq_iff ho).mpr hother).symm.trans hid
    · exact (r.layered_cell? c r.child).computed v (hid ▸ hv) ▸ get?_scope_of_distinct hc hlocal
    · intro ids children registered hm hchildren hregistered
      exact hid ▸ mem_qualifyDependencies (r := { r with child := field }) hlocal hm hchildren hregistered
  · obtain ⟨digits, hs⟩ := exists_spells h
    have hopen : '[' ∈ id.toList := by simp [hs.toList]
    have hnamed (n : String) : q.qualify n ≠ id :=
      fun hid => hcanonical ((exists_qualify_eq_iff h).mp ⟨q, n, hid⟩)
    refine ⟨fun harray c v n hc hn => ?_, fun ids children registered hm => ?_⟩
    · exact get?_scope_insert hc hn (hnamed n) (fun heq => harray.2.1 (heq ▸ hopen))
        (fun heq => (isLocalName_iff.mp hn).2 (heq ▸ hopen))
    · exact (mem_or_eq_qualify_of_mem hm).resolve_right fun ⟨n, hid⟩ => hnamed n hid

theorem canonical_iff_named_price :
    parse? "items[0].price" = .ok (some ⟨"items", 0, "price"⟩) ∧ IsCanonical "items[0].price" ∧
      "items[0].price" ∈ RowRef.qualifyDependencies ⟨"items", 0, "total"⟩ ["price"] none [] := by
  have hread : parse? "items[0].price" = .ok (some ⟨"items", 0, "price"⟩) := by rfl
  have hcanonical : IsCanonical "items[0].price" := by decide +kernel
  obtain ⟨-, -, hnamed, -⟩ := canonical_iff_named hread
  exact ⟨hread, hcanonical, ((hnamed hcanonical).2 (by decide) "total").2 ["price"] none []
    List.mem_cons_self (fun _ h => by cases h) fun _ => List.not_mem_nil⟩

/-- Two ids are read as one cell, and the one with two zeros is not the one that is made from it: a
total beside it neither sees it nor comes to depend on it. -/
theorem not_canonical :
    parse? "items[00].price" = .ok (some ⟨"items", 0, "price"⟩) ∧
      parse? "items[0].price" = .ok (some ⟨"items", 0, "price"⟩) ∧
      RowRef.qualify ⟨"items", 0, "price"⟩ "price" ≠ "items[00].price" ∧
      (RowRef.scope ⟨"items", 0, "total"⟩ ⟨[("items[00].price", .int 2)]⟩).get? (.text "price") = none ∧
      RowRef.qualifyDependencies ⟨"items", 0, "total"⟩ ["price"] none ["items[00].price"] =
        ["items[0].price"] := by
  refine ⟨rfl, rfl, ?_, ?_, ?_⟩ <;> decide +kernel

end RowRef

end LiveForm
