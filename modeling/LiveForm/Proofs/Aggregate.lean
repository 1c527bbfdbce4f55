import LiveForm.Aggregate
import LiveForm.Proofs.Except
import LiveForm.Proofs.Number.Reading
import LiveForm.Proofs.Number.Rounding
import LiveForm.Proofs.Value.Text

/-! # What cannot be added up

Lenient conversions take anything for a number, with three exceptions: a whole number that no double is
near, a text whose number has an information separator before it, and a list or mapping that cannot be
written, for want of a text for one of its numbers or for want of room. A total is exact while the
numbers are whole. When a double comes it is rounded, and that fails if no double is near it. -/

namespace LiveForm

open Text

namespace Number

/-- No double is near the number. -/
def IsBeyond : Number → Prop
  | int a => 2 ^ 1024 ≤ (Binary.nearestInt a).natAbs
  | float _ => False

/-- A double comes when the exact total is beyond the doubles, or before a number that is. -/
def Overflows (ns : List Number) : Prop :=
  ∃ wholes x rest, ns = List.map int wholes ++ float x :: rest ∧
    ((int wholes.sum).IsBeyond ∨ ∃ n ∈ rest, n.IsBeyond)

section Totals

variable {a b : Number} {exact' : Int → Int → Int} {rounded : Float → Float → Float} {ns : List Number}

theorem exists_toFloat_iff : (∃ x, a.toFloat = .ok x) ↔ ¬a.IsBeyond := by
  cases a with
  | float x => exact ⟨fun _ => id, fun _ => ⟨x, rfl⟩⟩
  | int a =>
    constructor
    · rintro ⟨x, hx⟩ hbeyond
      rw [toFloat_int_of_le hbeyond] at hx
      cases hx
    · intro hnear
      obtain ⟨x, hx, -⟩ := toFloat_int_of_lt (Nat.lt_of_not_le hnear)
      exact ⟨x, hx⟩

theorem not_isBeyond_of_natAbs_le {a : Int} (h : a.natAbs ≤ 2 ^ 53) : ¬(int a).IsBeyond := by
  have hpow {k : Nat} (hk : 53 < k) : a.natAbs < 2 ^ k :=
    Nat.lt_of_le_of_lt h (Nat.pow_lt_pow_right (by decide) hk)
  rw [IsBeyond, Binary.nearestInt_of_natAbs_le h, Nat.not_le]
  exact hpow (by decide)

/-- A number has no more binary digits than its nearest double. -/
theorem lt_of_nearestNat_lt {m k : Nat} (h : Binary.nearestNat m < 2 ^ k) : m < 2 ^ k := by
  by_cases hm : m = 0
  · rw [hm]
    exact Nat.two_pow_pos k
  · have hlog := (Binary.nearestNat_lt_iff hm k).mp h
    exact (Nat.log2_lt hm).mp (Nat.lt_of_le_of_lt (Nat.le_add_right _ _) hlog)

theorem isWritable_of_not_isBeyond {a : Int} (h : ¬(int a).IsBeyond) :
    LiveForm.isWritable a := by
  rw [IsBeyond, Binary.natAbs_nearestInt, Nat.not_le] at h
  have hlimit {k l : Nat} (hkl : k ≤ l) : 2 ^ k ≤ Binary.tenTo l :=
    Nat.le_trans (Nat.pow_le_pow_left (by decide) k) (Nat.pow_le_pow_right (by decide) hkl)
  exact decide_eq_true (Nat.lt_of_lt_of_le (lt_of_nearestNat_lt h) (hlimit (by decide)))

theorem exists_lift (ha : ¬a.IsBeyond) (hb : ¬b.IsBeyond) :
    ∃ c, lift exact' rounded a b = .ok c := by
  obtain ⟨x, hx⟩ := exists_toFloat_iff.mpr ha
  obtain ⟨y, hy⟩ := exists_toFloat_iff.mpr hb
  cases a with
  | int a =>
    cases b with
    | int b => exact ⟨_, rfl⟩
    | float y => exact ⟨_, by rw [lift, hx]; rfl; nofun⟩
  | float x => exact ⟨_, by rw [lift, hy]; rfl; nofun⟩

theorem float_add_eq_ok {x : Float} :
    (float x).add b = .ok a ↔ ∃ y, b.toFloat = .ok y ∧ a = .float (x + y) := by
  have hadd : (float x).add b = b.toFloat >>= fun y => .ok (.float (x + y)) := rfl
  rw [hadd, bind_ok_eq_ok]

theorem add_float_eq_ok {y : Float} :
    b.add (.float y) = .ok a ↔ ∃ x, b.toFloat = .ok x ∧ a = .float (x + y) := by
  have hadd : b.add (.float y) = b.toFloat >>= fun x => .ok (.float (x + y)) := by
    cases b <;> rfl
  rw [hadd, bind_ok_eq_ok]

/-- From a double on, every number has to be near one. -/
theorem exists_total_float_iff {x : Float} :
    (∃ t, ns.foldlM add (.float x) = .ok t) ↔ ∀ n ∈ ns, ¬n.IsBeyond := by
  induction ns generalizing x with
  | nil => exact ⟨fun _ n hn => (by cases hn), fun _ => ⟨_, rfl⟩⟩
  | cons n ns ih =>
    rw [List.forall_mem_cons, ← exists_toFloat_iff, List.foldlM_cons, exists_bind_iff]
    constructor
    · intro ⟨total, hadd, hrest⟩
      obtain ⟨y, hy, rfl⟩ := float_add_eq_ok.mp hadd
      exact ⟨⟨y, hy⟩, ih.mp hrest⟩
    · intro ⟨⟨y, hy⟩, hrest⟩
      exact ⟨_, float_add_eq_ok.mpr ⟨y, hy, rfl⟩, ih.mpr hrest⟩

/-- While only whole numbers have come, the total is their sum. -/
theorem exists_total_int_iff {total : Int} : (∃ t, ns.foldlM add (.int total) = .ok t) ↔
    ∀ wholes x rest, ns = List.map int wholes ++ float x :: rest →
      ¬(int (total + wholes.sum)).IsBeyond ∧ ∀ n ∈ rest, ¬n.IsBeyond := by
  induction ns generalizing total with
  | nil =>
    refine ⟨fun _ wholes x rest h => ?_, fun _ => ⟨_, rfl⟩⟩
    cases wholes <;> cases h
  | cons n ns ih =>
    rw [List.foldlM_cons]
    cases n with
    | int a =>
      -- The number joins the total, and the whole numbers in front are one fewer.
      have hadd : (int total).add (.int a) = .ok (.int (total + a)) := rfl
      rw [hadd]
      refine ih.trans ⟨fun h wholes x rest hns => ?_, fun h wholes x rest hns => ?_⟩
      · cases wholes with
        | nil => cases hns
        | cons b wholes =>
          obtain ⟨hhead, htail⟩ := List.cons.inj hns
          obtain rfl := Number.int.inj hhead
          rw [List.sum_cons, ← Int.add_assoc]
          exact h wholes x rest htail
      · have hall := h (a :: wholes) x rest (congrArg (int a :: ·) hns)
        rwa [List.sum_cons, ← Int.add_assoc] at hall
    | float y =>
      -- No whole number is in front any more, so the total so far has to be near a double.
      rw [exists_bind_iff]
      constructor
      · intro ⟨t, hadd, hrest⟩ wholes x rest hns
        obtain ⟨z, hz, rfl⟩ := add_float_eq_ok.mp hadd
        cases wholes with
        | cons b wholes => cases hns
        | nil =>
          obtain ⟨-, rfl⟩ := List.cons.inj hns
          rw [List.sum_nil, Int.add_zero, ← exists_toFloat_iff]
          exact ⟨⟨z, hz⟩, exists_total_float_iff.mp hrest⟩
      · intro h
        have hhere := h [] y ns rfl
        rw [List.sum_nil, Int.add_zero, ← exists_toFloat_iff] at hhere
        obtain ⟨⟨z, hz⟩, hrest⟩ := hhere
        exact ⟨_, add_float_eq_ok.mpr ⟨z, hz, rfl⟩, exists_total_float_iff.mpr hrest⟩

/-- Numbers have a total unless they overflow on the way. -/
theorem exists_total_iff : (∃ t, ns.foldlM add (.int 0) = .ok t) ↔ ¬Overflows ns := by
  rw [exists_total_int_iff, Overflows]
  simp only [Int.zero_add, not_exists, not_and, not_or]

end Totals

end Number

/-! ## The number of a value -/

namespace Text

section Leading

variable {cs : List Char}

/-- A text with a number at its front, and an information separator among the blanks before it. -/
def IsSeparatedNumber (cs : List Char) : Prop :=
  Numeral.Starts (Numeral.takeSign (cs.dropWhile isBlank)).2 ∧
    ∃ c ∈ cs.takeWhile isBlank, isInformationSeparator c

theorem all_isNumberPadding_iff : (cs.takeWhile isBlank).all isNumberPadding ↔
    ¬∃ c ∈ cs.takeWhile isBlank, isInformationSeparator c := by
  simp only [List.all_eq_true, not_exists, not_and, Bool.not_eq_true]
  refine forall₂_congr fun c hc => isNumberPadding_iff.trans (and_iff_right ?_)
  exact List.mem_takeWhile_imp hc

theorem exists_leadingFloat_iff :
    (∃ x, Value.leadingFloat cs = .ok x) ↔ ¬IsSeparatedNumber cs := by
  unfold Value.leadingFloat IsSeparatedNumber
  rw [← isSome_scan?_iff, not_and, ← all_isNumberPadding_iff]
  dsimp only
  cases hscan : Numeral.scan? (Numeral.takeSign (cs.dropWhile isBlank)).2 with
  | none => exact iff_of_true ⟨_, rfl⟩ fun h => (by cases h)
  | some found =>
    dsimp only
    split
    · rename_i hpadding
      exact iff_of_true ⟨_, rfl⟩ fun _ => hpadding
    · rename_i hpadding
      exact iff_of_false (fun ⟨_, h⟩ => (by cases h)) fun h => hpadding (h rfl)

end Leading

end Text

namespace Value

/-- A value that lenient conversion has no number for. -/
def HasNoNumber (room : Nat) : Value → Prop
  | .int a => (Number.int a).IsBeyond
  | .text s => IsSeparatedNumber s.toList
  | .list items => ¬((Value.list items).isWritable ∧ (Value.list items).nesting ≤ room)
  | .mapping entries => ¬((Value.mapping entries).isWritable ∧ (Value.mapping entries).nesting ≤ room)
  | _ => False

section Conversion

variable {room : Nat} {v : Value} {n : Number} {c : Char} {cs : List Char}

theorem not_isSeparatedNumber_cons (hblank : isBlank c = false) : ¬IsSeparatedNumber (c :: cs) := by
  intro ⟨_, d, hd, _⟩
  rw [List.takeWhile_cons_of_neg (by simp [hblank])] at hd
  cases hd

theorem toList_joined (opening closing : String) (parts : List String) :
    (joined opening closing parts).toList =
      opening.toList ++ (String.intercalate ", " parts ++ closing).toList := by
  rw [joined, String.append_assoc, String.toList_append]

/-- The literal of a list or mapping starts with a bracket, and what starts so is no number. -/
theorem exists_toNumber_written_iff (hblank : isBlank c = false)
    (hliteral : v.literal.toList.head? = some c)
    (hnumber : v.toNumber room = String.toList <$> v.written room >>= leadingFloat >>= fun x =>
      .ok (if x.isNaN then .int 0 else .float x)) :
    (∃ n, v.toNumber room = .ok n) ↔ v.isWritable ∧ v.nesting ≤ room := by
  rw [← exists_written_iff, hnumber]
  constructor
  · intro ⟨_, h⟩
    obtain ⟨_, h, -⟩ := bind_eq_ok h
    obtain ⟨_, h, -⟩ := bind_eq_ok h
    exact exists_map_iff.mp ⟨_, h⟩
  · intro ⟨s, hs⟩
    obtain ⟨cs, hcs⟩ := List.head?_eq_some_iff.mp hliteral
    rw [hs, eq_literal_of_written hs]
    refine exists_return_iff.mpr ?_
    show ∃ x, leadingFloat v.literal.toList = .ok x
    rw [hcs]
    exact exists_leadingFloat_iff.mpr (not_isSeparatedNumber_cons hblank)

/-- Lenient conversion takes every other value for a number. -/
theorem exists_toNumber_iff : (∃ n, v.toNumber room = .ok n) ↔ ¬v.HasNoNumber room := by
  cases v with
  | null => exact iff_of_true ⟨_, rfl⟩ id
  | bool b => exact iff_of_true ⟨_, rfl⟩ id
  | int a =>
    have hnumber : (Value.int a).toNumber room = (Number.int a).toFloat >>= fun x =>
        .ok (if Binary.isFinite x then .int a else .int 0) := by
      unfold toNumber Number.isFinite
      dsimp only [number?]
      cases (Number.int a).toFloat <;> rfl
    rw [hnumber]
    exact exists_return_iff.trans Number.exists_toFloat_iff
  | float x => exact iff_of_true ⟨_, rfl⟩ id
  | undefined origin => exact iff_of_true ⟨_, rfl⟩ id
  | text s =>
    have hnumber : (∃ n, (Value.text s).toNumber room = .ok n) ↔ ∃ x, leadingFloat s.toList = .ok x :=
      exists_return_iff
    exact hnumber.trans exists_leadingFloat_iff
  | list items =>
    have hliteral : (Value.list items).literal.toList.head? = some '[' := by
      rw [literal, toList_joined]
      rfl
    exact (exists_toNumber_written_iff rfl hliteral rfl).trans not_not.symm
  | mapping entries =>
    have hliteral : (Value.mapping entries).literal.toList.head? = some '\x7b' := by
      rw [literal, toList_joined]
      rfl
    exact (exists_toNumber_written_iff rfl hliteral rfl).trans not_not.symm

/-- What lenient conversion gives is near a double. -/
theorem not_isBeyond_of_toNumber (h : v.toNumber room = .ok n) : ¬n.IsBeyond := by
  have hzero : ¬(Number.int 0).IsBeyond := Number.not_isBeyond_of_natAbs_le (by decide)
  have hread {x : Float} : ¬(if x.isNaN then .int 0 else .float x : Number).IsBeyond := by
    split
    · exact hzero
    · exact id
  have hfloat {x : Float} : ¬(if Binary.isFinite x then .float x else .int 0 : Number).IsBeyond := by
    split
    · exact id
    · exact hzero
  cases v with
  | bool b =>
    rw [← Except.ok.inj h]
    cases b
    · exact hzero
    · exact Number.not_isBeyond_of_natAbs_le (a := 1) (by decide)
  | int a =>
    have hnear : ¬(Value.int a).HasNoNumber room := exists_toNumber_iff.mp ⟨n, h⟩
    have hint : ((Number.int a).isFinite >>= fun finite =>
        .ok (if finite then .int a else .int 0)) = .ok n := h
    obtain ⟨finite, -, hn⟩ := bind_eq_ok hint
    rw [← Except.ok.inj hn]
    split
    · exact hnear
    · exact hzero
  | float x => exact Except.ok.inj h ▸ hfloat
  | undefined origin => exact Except.ok.inj h ▸ hfloat
  | null | text _ | list _ | mapping _ =>
    obtain ⟨x, -, hn⟩ := bind_eq_ok h
    exact Except.ok.inj hn ▸ hread

/-- What has a number can be written. -/
theorem isWritable_of_not_hasNoNumber (h : ¬v.HasNoNumber room) : v.isWritable := by
  cases v with
  | int a => exact Number.isWritable_of_not_isBeyond h
  | list items => exact (not_not.mp h).1
  | mapping entries => exact (not_not.mp h).1
  | _ => rfl

end Conversion

end Value

/-! ## Totals of values -/

namespace Aggregate

open Number (Overflows)

/-- The numbers that values have. -/
def numbers (room : Nat) (values : List Value) : List Number :=
  values.filterMap fun v => (v.toNumber room).toOption

/-- What an argument adds to a sum: a list its own sum, anything else its number. -/
def summand (room : Nat) : Value → Except Abort Number
  | .list items => sumItems room (.int 0) items
  | v => v.toNumber room

/-- An argument that adds nothing to a sum: a list with an item that has no number, or with items
whose total fails, or a value without a number. -/
def HasNoSummand (room : Nat) : Value → Prop
  | .list items => (∃ v ∈ items, v.HasNoNumber room) ∨ Overflows (numbers room items)
  | v => v.HasNoNumber room

/-- The sum of these arguments fails. -/
def SumFails (room : Nat) (args : List Value) : Prop :=
  (∃ arg ∈ args, HasNoSummand room arg) ∨
    Overflows (args.filterMap fun arg => (summand room arg).toOption)

/-- A row whose line total, or quantity or unit price, has no number. -/
def HasNoLineTotal (room : Nat) (row : List (Key × Value)) : Prop :=
  match cell? row "lineTotal" with
  | some total => total.HasNoNumber room
  | none => ∃ quantity price, cell? row "quantity" = some quantity ∧
      cell? row "unitPrice" = some price ∧ (quantity.HasNoNumber room ∨ price.HasNoNumber room)

/-- What a row of a list adds to the total of its lines, if anything. -/
def rowTotal? (room : Nat) : Value → Except Abort (Option Number)
  | .mapping entries => lineTotal? room entries
  | _ => .ok none

/-- The total of the lines of a value fails. -/
def LineTotalFails (room : Nat) : Value → Prop
  | .list rows => (∃ entries, .mapping entries ∈ rows ∧ HasNoLineTotal room entries) ∨
      Overflows (rows.filterMap fun row => (rowTotal? room row).toOption.join)
  | _ => False

section Totals

variable {room : Nat} {args items rows : List Value} {row : List (Key × Value)}

/-- A total needs a number of everything that is added, and must not leave the doubles. -/
theorem exists_total_iff {α : Type} {as : List α} {g : α → Except Abort Number} {lacks : α → Prop}
    (h : ∀ a, (∃ n, g a = .ok n) ↔ ¬lacks a) :
    (∃ t, as.foldlM (fun (total : Number) a => do total.add (← g a)) (.int 0) = .ok t) ↔
      ¬((∃ a ∈ as, lacks a) ∨ Overflows (as.filterMap fun a => (g a).toOption)) := by
  simp only [foldlM_computed_eq_ok, not_or, not_exists, not_and, ← h]
  rw [← exists_mapM_iff]
  constructor
  · intro ⟨t, ns, hns, ht⟩
    rw [← mapM_eq_filterMap hns]
    exact ⟨⟨ns, hns⟩, Number.exists_total_iff.mp ⟨t, ht⟩⟩
  · intro ⟨⟨ns, hns⟩, hno⟩
    rw [← mapM_eq_filterMap hns] at hno
    obtain ⟨t, ht⟩ := Number.exists_total_iff.mpr hno
    exact ⟨t, ns, hns, ht⟩

theorem exists_summand_iff (v : Value) : (∃ n, summand room v = .ok n) ↔ ¬HasNoSummand room v := by
  have hnumber (v : Value) : (∃ n, v.toNumber room = .ok n) ↔ ¬v.HasNoNumber room :=
    Value.exists_toNumber_iff
  cases v with
  | list items => exact exists_total_iff hnumber
  | _ => simp only [summand, HasNoSummand, hnumber]

theorem exists_sum_iff : (∃ t, sum room args = .ok t) ↔ ¬SumFails room args := by
  have hsum : sum room args = args.foldlM
      (fun (total : Number) arg => do total.add (← summand room arg)) (.int 0) := by
    unfold sum
    congr 1
    funext total arg
    cases arg <;> rfl
  rw [hsum]
  exact exists_total_iff exists_summand_iff

theorem exists_lineTotal?_iff : (∃ o, lineTotal? room row = .ok o) ↔ ¬HasNoLineTotal room row := by
  unfold lineTotal? HasNoLineTotal
  cases cell? row "lineTotal" with
  | some total =>
    exact exists_return_iff.trans Value.exists_toNumber_iff
  | none =>
    dsimp only
    cases hquantity : cell? row "quantity" with
    | none => exact iff_of_true ⟨none, rfl⟩ (by simp)
    | some quantity =>
      cases hprice : cell? row "unitPrice" with
      | none => exact iff_of_true ⟨none, rfl⟩ (by simp)
      | some price =>
        simp only [Option.some.injEq, exists_and_left, exists_eq_left', not_or,
          ← Value.exists_toNumber_iff]
        constructor
        · intro ⟨o, h⟩
          obtain ⟨a, ha, h⟩ := bind_eq_ok h
          obtain ⟨b, hb, -⟩ := bind_eq_ok h
          exact ⟨⟨a, ha⟩, b, hb⟩
        · intro ⟨⟨a, ha⟩, b, hb⟩
          obtain ⟨c, hc⟩ : ∃ c, a.mul b = .ok c :=
            Number.exists_lift (Value.not_isBeyond_of_toNumber ha) (Value.not_isBeyond_of_toNumber hb)
          exact ⟨some c, by rw [ha, hb]; dsimp only [bind, Except.bind]; rw [hc]; rfl⟩

theorem exists_rowTotal?_iff (v : Value) : (∃ o, rowTotal? room v = .ok o) ↔
    ¬∃ entries, v = .mapping entries ∧ HasNoLineTotal room entries := by
  cases v with
  | mapping entries =>
    refine exists_lineTotal?_iff.trans (not_congr ⟨fun h => ⟨entries, rfl, h⟩, ?_⟩)
    intro ⟨_, heq, h⟩
    exact Value.mapping.inj heq ▸ h
  | _ => exact iff_of_true ⟨none, rfl⟩ fun ⟨_, h, _⟩ => (by cases h)

/-- Adds what a row has, if it has anything. -/
def addRow (total : Number) : Option Number → Except Abort Number
  | some n => total.add n
  | none => .ok total

theorem foldlM_addRow (os : List (Option Number)) (total : Number) :
    os.foldlM addRow total = (os.filterMap id).foldlM Number.add total := by
  induction os generalizing total with
  | nil => rfl
  | cons o os ih =>
    rw [List.foldlM_cons]
    cases o with
    | none => exact ih total
    | some n =>
      rw [List.filterMap_cons_some (f := id) rfl, List.foldlM_cons]
      exact congrArg _ (funext ih)

theorem exists_sumLineTotal_iff (v : Value) :
    (∃ t, sumLineTotal room v = .ok t) ↔ ¬LineTotalFails room v := by
  cases v with
  | list rows =>
    have hsum : sumLineTotal room (.list rows) =
        rows.foldlM (fun total row => do addRow total (← rowTotal? room row)) (.int 0) := by
      show List.foldlM _ _ rows = _
      congr 1
      funext total row
      cases row <;> rfl
    have hrows {os : List (Option Number)} (h : rows.mapM (rowTotal? room) = .ok os) :
        os.filterMap id = rows.filterMap fun row => (rowTotal? room row).toOption.join := by
      rw [mapM_eq_filterMap h, List.filterMap_filterMap]
      rfl
    have hlack : (∀ row ∈ rows, ∃ o, rowTotal? room row = .ok o) ↔
        ¬∃ entries, .mapping entries ∈ rows ∧ HasNoLineTotal room entries := by
      simp only [exists_rowTotal?_iff]
      exact ⟨fun h ⟨entries, hmem, hlacks⟩ => h _ hmem ⟨entries, rfl, hlacks⟩,
        fun h row hmem ⟨entries, heq, hlacks⟩ => h ⟨entries, heq ▸ hmem, hlacks⟩⟩
    rw [hsum, LineTotalFails, not_or, ← hlack, ← exists_mapM_iff]
    simp only [foldlM_computed_eq_ok, foldlM_addRow]
    constructor
    · rintro ⟨t, os, hos, ht⟩
      rw [← hrows hos]
      exact ⟨⟨os, hos⟩, Number.exists_total_iff.mp ⟨t, ht⟩⟩
    · rintro ⟨⟨os, hos⟩, hno⟩
      rw [← hrows hos] at hno
      obtain ⟨t, ht⟩ := Number.exists_total_iff.mpr hno
      exact ⟨t, os, hos, ht⟩
  | _ => exact iff_of_true ⟨.int 0, rfl⟩ id

end Totals

end Aggregate

end LiveForm
