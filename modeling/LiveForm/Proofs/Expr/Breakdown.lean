import LiveForm.Proofs.Expr.Locality
import LiveForm.Proofs.Value.Text

/-! # Where an evaluation breaks off

Most failures of an evaluation are reported with a message. Without one an evaluation breaks off at an
operation that it comes to, for one of two reasons: the operation has to write a value with a number
that cannot be written, or it takes a remainder that two doubles do not have. Which operations an
evaluation comes to, and with how much room, is a relation of its own, since `and`, `or` and the
conditionals leave some of them out. -/

namespace LiveForm

/-! ## Operations that break off -/

/-- Writes the first operand that is no number, as the message of its refusal has to. -/
def refusal (room : Nat) (values : List Value) : Except Abort Unit :=
  match values.find? fun v => v.operand?.isNone with
  | some v => v.guardLiteral room
  | none => .ok ()

/-- A remainder of two numbers that their doubles do not have. -/
def HasNoRemainder (v w : Value) : Prop :=
  ∃ a b x y, v.operand? = some a ∧ w.operand? = some b ∧ b.isZero = false ∧
    a.toFloat = .ok x ∧ b.toFloat = .ok y ∧ Binary.remainder? x y = none

namespace BinaryOp

/-- What an operator has to write, be it into a joined text or into its message. -/
def writing (room : Nat) (op : BinaryOp) (v w : Value) : Except Abort Unit :=
  match op with
  | or | and | eq | ne => .ok ()
  | add =>
    if v.isNumeric && w.isNumeric then .ok ()
    else if v.isText || w.isText then Value.guardDisplays room [v, w]
    else Value.guardLiterals room [v, w]
  | lt | gt | le | ge => if v.isText && w.isText then .ok () else refusal room [v, w]
  | _ => refusal room [v, w]

/-- An operator that cannot be applied and has no message for it. -/
def BreaksOn (room : Nat) (op : BinaryOp) (v w : Value) : Prop :=
  op.writing room v w = .error .domain ∨ (op = rem ∧ HasNoRemainder v w)

end BinaryOp

/-- What a sign or a negation has to write. -/
def UnaryOp.writing (room : Nat) (op : UnaryOp) (v : Value) : Except Abort Unit :=
  match op with
  | neg | plus => refusal room [v]
  | _ => .ok ()

/-- What an access has to write when there is no such member. -/
def memberWriting (room : Nat) (v : Value) (field : String) : Except Abort Unit :=
  match v with
  | .mapping _ => .ok ()
  | .list _ | .text _ => if field = "length" then .ok () else v.guardDisplay room
  | _ => v.guardDisplay room

section Operations

variable {room : Nat} {c : Abort} {u v w : Value} {op : BinaryOp} {symbol : String}

theorem about_eq_abort {writing : Except Abort Unit} {f : Fault} (hf : ∀ c, f ≠ .abort c) :
    Fault.about writing f = .abort c ↔ writing = .error c := by
  unfold Fault.about
  cases writing with
  | ok _ => exact iff_of_false (hf c) nofun
  | error d => rw [Fault.abort.injEq, Except.error.injEq]

theorem refusal_of_none {rest : List Value} (h : v.operand? = none) :
    refusal room (v :: rest) = v.guardLiteral room := by
  simp [refusal, h]

theorem refusal_of_some {n : Number} {rest : List Value} (h : v.operand? = some n) :
    refusal room (v :: rest) = refusal room rest := by
  simp [refusal, h]

theorem refusal_nil : refusal room [] = .ok () := rfl

theorem operand_eq_ok {n : Number} (h : v.operand? = some n) : operand room symbol v = .ok n := by
  rw [operand, h]

theorem operand_eq_error (h : v.operand? = none) :
    operand room symbol v = .error (Fault.about (v.guardLiteral room) (.cannotApply symbol v)) := by
  rw [operand, h]

theorem operand_eq_abort (symbol : String) :
    operand room symbol v = .error (.abort c) ↔ refusal room [v] = .error c := by
  cases h : v.operand? with
  | some n =>
    rw [operand_eq_ok h, refusal_of_some h]
    exact iff_of_false nofun nofun
  | none =>
    rw [operand_eq_error h, refusal_of_none h, Except.error.injEq, about_eq_abort (by simp)]

/-- An operation on two numbers breaks off at an operand that is none, or by itself. -/
theorem operands_eq_abort {k : Number → Number → Except Fault Value} :
    (operand room symbol v >>= fun a => operand room symbol w >>= fun b => k a b) =
        .error (.abort c) ↔
      refusal room [v, w] = .error c ∨
        ∃ a b, v.operand? = some a ∧ w.operand? = some b ∧ k a b = .error (.abort c) := by
  cases hv : v.operand? with
  | none =>
    have habort : operand room symbol v = .error (.abort c) ↔ _ := operand_eq_abort symbol
    rw [refusal_of_none hv] at habort
    rw [refusal_of_none hv, ← habort, operand_eq_error hv]
    exact ⟨fun h => .inl (congrArg _ (Except.error.inj h)),
      fun h => congrArg _ (Except.error.inj (h.resolve_right nofun))⟩
  | some a =>
    rw [operand_eq_ok hv, refusal_of_some hv, ← operand_eq_abort symbol]
    cases hw : w.operand? with
    | none =>
      rw [operand_eq_error hw]
      exact ⟨fun h => .inl (congrArg _ (Except.error.inj h)),
        fun h => congrArg _ (Except.error.inj (h.resolve_right nofun))⟩
    | some b =>
      rw [operand_eq_ok hw]
      exact ⟨fun h => .inr ⟨a, b, rfl, rfl, h⟩, fun h => h.elim nofun
        fun ⟨_, _, ha, hb, h⟩ => Option.some.inj ha ▸ Option.some.inj hb ▸ h⟩

theorem ranged_eq_abort {r : Except Abort Number} :
    ranged symbol r = .error (.abort c) ↔ r = .error c ∧ c ≠ .range := by
  cases r with
  | ok n => simp [ranged]
  | error d => cases d <;> simp +contextual [ranged, eq_comm]

theorem eq_range_of_toFloat {a : Number} (h : a.toFloat = .error c) : c = .range := by
  cases a with
  | int n =>
    simp only [Number.toFloat] at h
    cases hx : Binary.ofInt? n <;> simp_all
  | float x => cases h

/-- Numbers of which the doubles are taken leave the range, and no more. -/
theorem eq_range_of_toFloats {a b : Number} {f : Float → Float → Number}
    (h : (a.toFloat >>= fun x => b.toFloat >>= fun y => .ok (f x y)) = .error c) : c = .range := by
  rcases bind_eq_error h with h | ⟨x, -, h⟩
  · exact eq_range_of_toFloat h
  · rcases bind_eq_error h with h | ⟨y, -, h⟩
    · exact eq_range_of_toFloat h
    · cases h

theorem eq_range_of_lift {exact' : Int → Int → Int} {rounded : Float → Float → Float} {a b : Number}
    (h : Number.lift exact' rounded a b = .error c) : c = .range := by
  cases a <;> cases b <;> first | cases h | exact eq_range_of_toFloats h

theorem eq_range_of_div {a b : Number} (h : a.div b = .error c) : c = .range := by
  cases a with
  | int m =>
    cases b with
    | int n =>
      simp only [Number.div] at h
      cases hx : Binary.nearest? ((m < 0) != (n < 0)) m.natAbs n.natAbs <;> simp_all
    | float y => exact eq_range_of_toFloats h
  | float x => exact eq_range_of_toFloats h

theorem rem_eq_error {a b : Number} (hc : c ≠ .range) :
    a.rem b = .error c ↔ c = .domain ∧
      ∃ x y, a.toFloat = .ok x ∧ b.toFloat = .ok y ∧ Binary.remainder? x y = none := by
  have hne {a : Number} {d : Abort} (h : a.toFloat = .error d) : c ≠ d := by
    rintro rfl
    exact hc (eq_range_of_toFloat h)
  unfold Number.rem
  cases ha : a.toFloat with
  | error d => simp [bind, Except.bind, (hne ha).symm]
  | ok x =>
    cases hb : b.toFloat with
    | error d => simp [bind, Except.bind, (hne hb).symm]
    | ok y => cases hr : Binary.remainder? x y <;> simp [bind, Except.bind, hr, eq_comm, pure, Except.pure]

/-- A numeric value that is no number is text, which can be written. -/
theorem guardLiteral_of_isNumeric (h : v.isNumeric) (hn : v.operand? = none) :
    v.guardLiteral room = .ok () := by
  cases v with
  | text s => simp [Value.guardLiteral]
  | bool _ | int _ | float _ | undefined _ => cases hn
  | null | list _ | mapping _ => cases h

theorem refusal_of_isNumeric (hv : v.isNumeric) (hw : w.isNumeric) :
    refusal room [v, w] = .ok () := by
  cases hv' : v.operand? with
  | none => rw [refusal_of_none hv', guardLiteral_of_isNumeric hv hv']
  | some a =>
    rw [refusal_of_some hv']
    cases hw' : w.operand? with
    | none => rw [refusal_of_none hw', guardLiteral_of_isNumeric hw hw']
    | some b => rw [refusal_of_some hw', refusal_nil]

theorem eq_range_of_numericFloat (hv : v.isNumeric) (h : v.numericFloat room = .error c) :
    c = .range := by
  cases v with
  | bool b => exact eq_range_of_toFloat (a := boolNumber b) h
  | int n => exact eq_range_of_toFloat (a := .int n) h
  | float _ | undefined _ | text _ => cases h
  | null | list _ | mapping _ => cases hv

theorem eq_range_of_looselyEqual (h : looselyEqual room v w = .error c) : c = .range := by
  unfold looselyEqual at h
  split at h
  · rename_i hnumeric
    simp only [Bool.and_eq_true] at hnumeric
    rcases bind_eq_error h with h | ⟨x, -, h⟩
    · exact eq_range_of_numericFloat hnumeric.1.2 h
    · rcases bind_eq_error h with h | ⟨y, -, h⟩
      · exact eq_range_of_numericFloat hnumeric.2 h
      · cases h
  · cases h

theorem eq_range_of_equality {f : Bool → Value}
    (h : f <$> Builtin.lift (looselyEqual room v w) = .error (.abort c)) : c = .range := by
  cases hl : looselyEqual room v w with
  | ok b =>
    rw [hl] at h
    cases h
  | error d =>
    rw [hl] at h
    obtain rfl : d = c := Fault.abort.inj (Except.error.inj h)
    exact eq_range_of_looselyEqual hl

theorem order_eq_abort {text : String → String → Bool} {number : Number → Number → Bool} :
    order room symbol text number v w = .error (.abort c) ↔
      (if v.isText && w.isText then .ok () else refusal room [v, w]) = .error c := by
  unfold order
  split
  · exact iff_of_false nofun nofun
  · rename_i hne
    have hnot : (v.isText && w.isText) = false := by
      cases v <;> cases w <;> first | rfl | exact absurd rfl (hne _ _ rfl)
    rw [hnot, if_neg Bool.false_ne_true]
    refine operands_eq_abort.trans (or_iff_left ?_)
    rintro ⟨a, b, -, -, h⟩
    cases h

theorem joined_eq_abort :
    (do return Value.text ((← Builtin.lift (v.shown room)) ++ (← Builtin.lift (w.shown room)))) =
        Except.error (Fault.abort c) ↔
      Value.guardDisplays room [v, w] = .error c := by
  unfold Value.shown
  rw [Value.guardDisplays, Value.guardDisplays, Value.guardDisplays]
  cases v.guardDisplay room with
  | error d => simp [Builtin.lift, bind, Except.bind]
  | ok _ =>
    cases w.guardDisplay room with
    | error d => simp [Builtin.lift, bind, Except.bind, pure, Except.pure]
    | ok _ => simp [Builtin.lift, bind, Except.bind, pure, Except.pure]

theorem plus_eq_abort (hc : c ≠ .range) :
    plus room v w = .error (.abort c) ↔ BinaryOp.add.writing room v w = .error c := by
  unfold plus BinaryOp.writing
  split
  · rename_i hnumeric
    simp only [Bool.and_eq_true] at hnumeric
    refine operands_eq_abort.trans (iff_of_false ?_ nofun)
    rw [refusal_of_isNumeric hnumeric.1 hnumeric.2]
    rintro (h | ⟨a, b, -, -, h⟩)
    · cases h
    · exact hc (eq_range_of_lift (ranged_eq_abort.mp h).1)
  · split
    · exact joined_eq_abort
    · have hcause : ∀ c, Fault.cannotAdd v w ≠ .abort c := nofun
      exact (iff_of_eq (Except.error.injEq _ _)).trans (about_eq_abort hcause)

theorem rem_eq_abort (hc : c ≠ .range) :
    divided room "%" .moduloByZero Number.rem v w = .error (.abort c) ↔
      refusal room [v, w] = .error c ∨ (c = .domain ∧ HasNoRemainder v w) := by
  refine operands_eq_abort.trans (or_congr_right ?_)
  constructor
  · rintro ⟨a, b, ha, hb, h⟩
    split at h
    · cases h
    · rename_i hzero
      obtain ⟨hd, x, y, hx, hy, hr⟩ := (rem_eq_error hc).mp (ranged_eq_abort.mp h).1
      exact ⟨hd, a, b, x, y, ha, hb, by simpa using hzero, hx, hy, hr⟩
  · rintro ⟨hd, a, b, x, y, ha, hb, hzero, hx, hy, hr⟩
    refine ⟨a, b, ha, hb, ?_⟩
    rw [hzero, if_neg Bool.false_ne_true]
    exact ranged_eq_abort.mpr ⟨(rem_eq_error hc).mpr ⟨hd, x, y, hx, hy, hr⟩, hc⟩

/-- An operation that breaks off at its operands only. -/
theorem operands_eq_abort_iff {k : Number → Number → Except Fault Value}
    (hk : ∀ a b, k a b ≠ .error (.abort c)) :
    (operand room symbol v >>= fun a => operand room symbol w >>= fun b => k a b) =
        .error (.abort c) ↔ refusal room [v, w] = .error c :=
  operands_eq_abort.trans (or_iff_left fun ⟨a, b, _, _, h⟩ => hk a b h)

/-- An operator aborts for no other reasons, and always does for these. -/
theorem applyBinary_eq_abort (hand : op ≠ .and) (hor : op ≠ .or) (hc : c ≠ .range) :
    applyBinary room op v w = .error (.abort c) ↔
      op.writing room v w = .error c ∨ (c = .domain ∧ op = .rem ∧ HasNoRemainder v w) := by
  have hranged {symbol : String} {r : Except Abort Number} (hr : ∀ {d}, r = .error d → d = .range) :
      ranged symbol r ≠ .error (.abort c) := fun h => hc (hr (ranged_eq_abort.mp h).1)
  have hwriting {p q : Prop} (hpq : p ↔ q) (hop : op ≠ .rem) :
      p ↔ q ∨ (c = .domain ∧ op = .rem ∧ HasNoRemainder v w) :=
    hpq.trans (or_iff_left fun h => hop h.2.1).symm
  cases op with
  | eq | ne =>
    exact hwriting (iff_of_false (fun h => hc (eq_range_of_equality h)) nofun) nofun
  | lt | gt | le | ge => exact hwriting order_eq_abort nofun
  | add => exact hwriting (plus_eq_abort hc) nofun
  | sub | mul => exact hwriting (operands_eq_abort_iff fun a b => hranged eq_range_of_lift) nofun
  | div =>
    refine hwriting (operands_eq_abort_iff fun a b => ?_) nofun
    split
    · nofun
    · exact hranged eq_range_of_div
  | rem =>
    refine (rem_eq_abort hc).trans (or_congr_right (and_congr_right fun _ => ?_))
    exact (and_iff_right rfl).symm
  | or => exact absurd rfl hor
  | and => exact absurd rfl hand
  | other symbol => exact hwriting (operands_eq_abort_iff fun a b => nofun) nofun

theorem applyUnary_eq_abort {op : UnaryOp} :
    applyUnary room op v = .error (.abort c) ↔ op.writing room v = .error c := by
  have hsign {symbol : String} {f : Number → Value} :
      (operand room symbol v >>= fun n => .ok (f n)) = .error (.abort c) ↔
        refusal room [v] = .error c := by
    rw [← operand_eq_abort symbol]
    cases operand room symbol v with
    | ok n => exact iff_of_false nofun nofun
    | error f =>
      exact ⟨fun h => congrArg _ (Except.error.inj h), fun h => congrArg _ (Except.error.inj h)⟩
  cases op with
  | neg => exact hsign
  | plus => exact hsign
  | not => exact iff_of_false nofun nofun
  | other s => exact iff_of_false nofun nofun

theorem member_eq_abort {field : String} :
    member room v field = .error (.abort c) ↔ memberWriting room v field = .error c := by
  have hnone : member.noMember room v field = .error (.abort c) ↔ v.guardDisplay room = .error c := by
    rw [member.noMember, Except.error.injEq, about_eq_abort (by simp)]
  unfold member memberWriting
  cases v with
  | mapping entries => exact iff_of_false nofun nofun
  | list items | text s =>
    dsimp only
    split
    · exact iff_of_false nofun nofun
    · exact hnone
  | _ => exact hnone

/-- A function that fails is reported by name, unless an argument is nested too deeply. -/
theorem callWithin_ne_abort {function : String} {args : List Value} (hd : c ≠ .depth) :
    Builtin.callWithin room function args ≠ .error (.abort c) := by
  unfold Builtin.callWithin
  split
  · nofun
  · split
    · nofun
    · split
      · exact fun h => hd (Fault.abort.inj (Except.error.inj h)).symm
      · nofun
      · rename_i hr
        exact hr c

/-! What is written breaks off for want of digits or of room. -/

theorem cause_of_refusal {values : List Value} (h : refusal room values = .error c) :
    Value.IsWritingCause c := by
  unfold refusal at h
  split at h
  · exact Value.cause_of_guardLiteral h
  · cases h

theorem BinaryOp.cause_of_writing (h : op.writing room v w = .error c) :
    Value.IsWritingCause c := by
  unfold BinaryOp.writing at h
  split at h
  · cases h
  · cases h
  · cases h
  · cases h
  · split at h
    · cases h
    · split at h
      · exact Value.cause_of_guardDisplays h
      · exact Value.cause_of_guardLiterals h
  all_goals first | exact cause_of_refusal h | split at h
  all_goals first | cases h | exact cause_of_refusal h

theorem UnaryOp.cause_of_writing {op : UnaryOp} (h : op.writing room v = .error c) :
    Value.IsWritingCause c := by
  unfold UnaryOp.writing at h
  split at h
  · exact cause_of_refusal h
  · exact cause_of_refusal h
  · cases h

theorem cause_of_memberWriting {field : String} (h : memberWriting room v field = .error c) :
    Value.IsWritingCause c := by
  unfold memberWriting at h
  split at h
  · cases h
  · split at h
    · cases h
    · exact Value.cause_of_guardDisplay h
  · split at h
    · cases h
    · exact Value.cause_of_guardDisplay h
  · exact Value.cause_of_guardDisplay h

end Operations

namespace Reading

variable {α β : Type} {r : Reading α} {f : α → Reading β}

theorem outcome_bind (r : Reading α) (f : α → Reading β) :
    (r >>= f).outcome = r.outcome >>= fun a => (f a).outcome := by
  show (Reading.bind r f).outcome = _
  unfold Reading.bind
  cases r.outcome <;> rfl

theorem outcome_bind_of_ok {a : α} (h : r.outcome = .ok a) : (r >>= f).outcome = (f a).outcome := by
  rw [outcome_bind, h]
  rfl

theorem outcome_bind_eq_error {e : Fault} :
    (r >>= f).outcome = .error e ↔
      r.outcome = .error e ∨ ∃ a, r.outcome = .ok a ∧ (f a).outcome = .error e := by
  rw [outcome_bind]
  refine ⟨bind_eq_error, ?_⟩
  rintro (h | ⟨a, ha, h⟩)
  · rw [h]
    rfl
  · rw [ha]
    exact h

end Reading

namespace Expr

/-! ## What an evaluation comes to -/

/-- Whether the right operand is evaluated, given the value of the left one. -/
def NeedsRight (op : BinaryOp) (left : Value) : Prop :=
  (op = .and → left.truthy) ∧ (op = .or → ¬left.truthy)

/-- The expression has a value in the scope, and there is room to evaluate it. -/
def HasValue (room : Nat) (scope : Scope) (e : Expr) (v : Value) : Prop :=
  (e.evaluateWithin room scope).outcome = .ok v

/-- An evaluation of the first expression, with its room, evaluates the second in the room that is
left. -/
inductive Visits (scope : Scope) : Nat → Expr → Nat → Expr → Prop
  | self (room : Nat) (e : Expr) : Visits scope room e room e
  | left {room left : Nat} {op : BinaryOp} {l r x : Expr} (h : Visits scope room l left x) :
      Visits scope (room + 1) (binary op l r) left x
  | right {room left : Nat} {op : BinaryOp} {l r x : Expr} {v : Value}
      (hv : HasValue room scope l v) (hn : NeedsRight op v) (h : Visits scope room r left x) :
      Visits scope (room + 1) (binary op l r) left x
  | operand {room left : Nat} {op : UnaryOp} {e x : Expr} (h : Visits scope room e left x) :
      Visits scope (room + 1) (unary op e) left x
  | argument {room left : Nat} {function : String} {before after : List Expr} {e x : Expr}
      (hf : function ≠ Builtin.lazyChoice) (hbefore : ∀ a ∈ before, ∃ v, HasValue room scope a v)
      (h : Visits scope room e left x) :
      Visits scope (room + 1) (call function (before ++ e :: after)) left x
  | lazyCondition {room left : Nat} {c t f x : Expr} (h : Visits scope room c left x) :
      Visits scope (room + 1) (call Builtin.lazyChoice [c, t, f]) left x
  | lazyBranch {room left : Nat} {c t f x : Expr} {v : Value} (hv : HasValue room scope c v)
      (h : Visits scope room (if v.truthy then t else f) left x) :
      Visits scope (room + 1) (call Builtin.lazyChoice [c, t, f]) left x
  | object {room left : Nat} {object : Expr} {field : String} {x : Expr}
      (hl : object.links ≤ room) (hb : bound? scope (access object field) = none)
      (h : Visits scope room object left x) : Visits scope (room + 1) (access object field) left x
  | condition {room left : Nat} {c t f x : Expr} (h : Visits scope room c left x) :
      Visits scope (room + 1) (choice c t f) left x
  | branch {room left : Nat} {c t f x : Expr} {v : Value} (hv : HasValue room scope c v)
      (h : Visits scope room (if v.truthy then t else f) left x) :
      Visits scope (room + 1) (choice c t f) left x

/-- The operands of an expression have values, on which its own operation breaks off. -/
def Breaks (scope : Scope) : Nat → Expr → Prop
  | room + 1, binary op l r => ∃ v w, HasValue room scope l v ∧ HasValue room scope r w ∧
      op.BreaksOn room v w
  | room + 1, unary op e => ∃ v, HasValue room scope e v ∧ op.writing room v = .error .domain
  | room + 1, access object field => object.links ≤ room ∧
      bound? scope (access object field) = none ∧ field ≠ "value" ∧
      ∃ v, HasValue room scope object v ∧ memberWriting room v field = .error .domain
  | _, _ => False

/-- An evaluation that comes to an operation that breaks off. -/
def BreaksOff (room : Nat) (scope : Scope) (e : Expr) : Prop :=
  ∃ left x, Visits scope room e left x ∧ Breaks scope left x

section BreaksOff

variable {room left : Nat} {scope : Scope} {e x : Expr} {c : Abort} {f : Fault}

/-- An operator other than the two that choose needs both of its operands. -/
theorem needsRight_of_ne {op : BinaryOp} (hand : op ≠ .and) (hor : op ≠ .or) (v : Value) :
    NeedsRight op v :=
  ⟨fun h => absurd h hand, fun h => absurd h hor⟩

/-- An operation fails with its left operand, with the right one where that is needed, or by itself. -/
theorem outcome_binary_eq_error {op : BinaryOp} {l r : Expr} :
    ((binary op l r).evaluateWithin (room + 1) scope).outcome = .error f ↔
      (l.evaluateWithin room scope).outcome = .error f ∨
        ∃ v, HasValue room scope l v ∧ NeedsRight op v ∧
          ((r.evaluateWithin room scope).outcome = .error f ∨
            ∃ w, HasValue room scope r w ∧ op ≠ .and ∧ op ≠ .or ∧
              applyBinary room op v w = .error f) := by
  by_cases hand : op = .and
  · subst hand
    rw [evaluateWithin, Reading.outcome_bind_eq_error]
    refine or_congr_right (exists_congr fun v => and_congr_right fun _ => ?_)
    by_cases ht : v.truthy <;> simp [NeedsRight, ht, pure, Reading.pure]
  · by_cases hor : op = .or
    · subst hor
      rw [evaluateWithin, Reading.outcome_bind_eq_error]
      refine or_congr_right (exists_congr fun v => and_congr_right fun _ => ?_)
      by_cases ht : v.truthy <;> simp [NeedsRight, ht, pure, Reading.pure]
    · rw [evaluateWithin_binary hand hor, Reading.outcome_bind_eq_error]
      refine or_congr_right (exists_congr fun v => and_congr_right fun _ => ?_)
      rw [Reading.outcome_bind_eq_error, and_iff_right (needsRight_of_ne hand hor v)]
      refine or_congr_right (exists_congr fun w => and_congr_right fun _ => ?_)
      rw [and_iff_right hand, and_iff_right hor, Reading.ofExcept]

/-- A conditional fails with its condition, or with the branch that it takes. -/
theorem outcome_branch_eq_error {cond whenTrue whenFalse : Expr} :
    (do
        let v ← cond.evaluateWithin room scope
        if v.truthy then whenTrue.evaluateWithin room scope
        else whenFalse.evaluateWithin room scope : Reading Value).outcome = .error f ↔
      (cond.evaluateWithin room scope).outcome = .error f ∨
        ∃ v, HasValue room scope cond v ∧
          ((if v.truthy then whenTrue else whenFalse).evaluateWithin room scope).outcome =
            .error f := by
  rw [Reading.outcome_bind_eq_error]
  refine or_congr_right (exists_congr fun v => and_congr_right fun _ => ?_)
  rw [← apply_ite (evaluateWithin room scope)]

/-- Arguments fail with the first one that fails. -/
theorem outcome_evaluateAll_eq_error {args : List Expr} :
    (evaluateAll room scope args).outcome = .error f ↔
      ∃ before e after, args = before ++ e :: after ∧
        (∀ a ∈ before, ∃ v, HasValue room scope a v) ∧
          (e.evaluateWithin room scope).outcome = .error f := by
  constructor
  · intro h
    induction args with
    | nil => cases h
    | cons e rest ih =>
      rw [evaluateAll] at h
      rcases Reading.outcome_bind_eq_error.mp h with h | ⟨v, hv, h⟩
      · exact ⟨[], e, rest, rfl, List.forall_mem_nil _, h⟩
      · rcases Reading.outcome_bind_eq_error.mp h with h | ⟨vs, -, h⟩
        · obtain ⟨before, x, after, rfl, hbefore, hx⟩ := ih h
          exact ⟨e :: before, x, after, rfl, List.forall_mem_cons.mpr ⟨⟨v, hv⟩, hbefore⟩, hx⟩
        · cases h
  · rintro ⟨before, e, after, rfl, hbefore, h⟩
    induction before with
    | nil =>
      rw [List.nil_append, evaluateAll]
      exact Reading.outcome_bind_eq_error.mpr (.inl h)
    | cons a before ih =>
      obtain ⟨⟨v, hv⟩, hbefore⟩ := List.forall_mem_cons.mp hbefore
      rw [List.cons_append, evaluateAll, Reading.outcome_bind_of_ok hv]
      exact Reading.outcome_bind_eq_error.mpr (.inl (ih hbefore))

/-- An evaluation fails as what it evaluates fails. -/
theorem Visits.outcome_eq_error (h : Visits scope room e left x)
    (hx : (x.evaluateWithin left scope).outcome = .error f) :
    (e.evaluateWithin room scope).outcome = .error f := by
  induction h with
  | self room e => exact hx
  | left _ ih => exact outcome_binary_eq_error.mpr (.inl (ih hx))
  | right hv hn _ ih => exact outcome_binary_eq_error.mpr (.inr ⟨_, hv, hn, .inl (ih hx)⟩)
  | operand _ ih =>
    rw [evaluateWithin]
    exact Reading.outcome_bind_eq_error.mpr (.inl (ih hx))
  | argument hf hbefore _ ih =>
    rw [evaluateWithin, if_neg hf]
    exact Reading.outcome_bind_eq_error.mpr
      (.inl (outcome_evaluateAll_eq_error.mpr ⟨_, _, _, rfl, hbefore, ih hx⟩))
  | lazyCondition _ ih =>
    rw [evaluateWithin, if_pos rfl, evaluateChoice]
    exact outcome_branch_eq_error.mpr (.inl (ih hx))
  | lazyBranch hv _ ih =>
    rw [evaluateWithin, if_pos rfl, evaluateChoice]
    exact outcome_branch_eq_error.mpr (.inr ⟨_, hv, ih hx⟩)
  | object hl hb _ ih =>
    rw [evaluateWithin_access, if_neg (Nat.not_lt.mpr hl), hb]
    dsimp only
    split
    · exact ih hx
    · exact Reading.outcome_bind_eq_error.mpr (.inl (ih hx))
  | condition _ ih =>
    rw [evaluateWithin]
    exact outcome_branch_eq_error.mpr (.inl (ih hx))
  | branch hv _ ih =>
    rw [evaluateWithin]
    exact outcome_branch_eq_error.mpr (.inr ⟨_, hv, ih hx⟩)

theorem Breaks.outcome_eq_error (h : Breaks scope room x) :
    (x.evaluateWithin room scope).outcome = .error (.abort .domain) := by
  match room, x with
  | room + 1, binary op l r =>
    obtain ⟨v, w, hv, hw, hb⟩ := h
    have hand : op ≠ .and := by
      rintro rfl
      simp [BinaryOp.BreaksOn, BinaryOp.writing] at hb
    have hor : op ≠ .or := by
      rintro rfl
      simp [BinaryOp.BreaksOn, BinaryOp.writing] at hb
    have hfails : applyBinary room op v w = .error (.abort .domain) :=
      (applyBinary_eq_abort hand hor (by simp)).mpr (hb.imp_right fun hrem => ⟨rfl, hrem⟩)
    exact outcome_binary_eq_error.mpr
      (.inr ⟨v, hv, needsRight_of_ne hand hor v, .inr ⟨w, hw, hand, hor, hfails⟩⟩)
  | room + 1, unary op e =>
    obtain ⟨v, hv, hw⟩ := h
    rw [evaluateWithin, Reading.outcome_bind_of_ok hv]
    exact applyUnary_eq_abort.mpr hw
  | room + 1, access object field =>
    obtain ⟨hl, hb, hf, v, hv, hw⟩ := h
    rw [evaluateWithin_access, if_neg (Nat.not_lt.mpr hl), hb]
    dsimp only
    rw [if_neg hf, Reading.outcome_bind_of_ok hv]
    exact member_eq_abort.mpr hw

theorem breaksOff_of_visits {room' : Nat} {e' : Expr}
    (hx : ∀ left x, Visits scope room' e' left x → Visits scope room e left x)
    (h : c = .domain ∧ BreaksOff room' scope e') : c = .domain ∧ BreaksOff room scope e := by
  obtain ⟨hc, left, x, hv, hb⟩ := h
  exact ⟨hc, left, x, hx left x hv, hb⟩

mutual

/-- An evaluation that fails without a message has broken off, unless it left the range of doubles or
had no room. -/
theorem breaksOff_of_outcome (hc : c ≠ .range) (hd : c ≠ .depth) (room : Nat) (e : Expr)
    (h : (e.evaluateWithin room scope).outcome = .error (.abort c)) :
    c = .domain ∧ BreaksOff room scope e := by
  match room, e with
  | 0, e =>
    rw [evaluateWithin_zero] at h
    exact absurd (Fault.abort.inj (Except.error.inj h)).symm hd
  | room + 1, literal v =>
    rw [evaluateWithin] at h
    cases h
  | room + 1, name id =>
    rw [evaluateWithin, Scope.read] at h
    split at h <;> cases h
  | room + 1, binary op l r =>
    rcases outcome_binary_eq_error.mp h with h | ⟨v, hv, hn, h | ⟨w, hw, hand, hor, h⟩⟩
    · exact breaksOff_of_visits (fun _ _ => .left) (breaksOff_of_outcome hc hd room l h)
    · exact breaksOff_of_visits (fun _ _ => .right hv hn) (breaksOff_of_outcome hc hd room r h)
    · have hb := (applyBinary_eq_abort hand hor hc).mp h
      have hdomain : c = .domain := hb.elim
        (fun hw => (BinaryOp.cause_of_writing hw).resolve_right hd) And.left
      subst hdomain
      exact ⟨rfl, _, _, .self _ _, v, w, hv, hw, hb.imp_right And.right⟩
  | room + 1, unary op e =>
    rw [evaluateWithin, Reading.outcome_bind_eq_error] at h
    rcases h with h | ⟨v, hv, h⟩
    · exact breaksOff_of_visits (fun _ _ => .operand) (breaksOff_of_outcome hc hd room e h)
    · have hw := applyUnary_eq_abort.mp h
      obtain rfl := (UnaryOp.cause_of_writing hw).resolve_right hd
      exact ⟨rfl, _, _, .self _ _, v, hv, hw⟩
  | room + 1, call function args =>
    rw [evaluateWithin] at h
    split at h
    · rename_i hf
      subst hf
      exact breaksOff_of_choice hc hd room args h
    · rename_i hf
      rcases Reading.outcome_bind_eq_error.mp h with h | ⟨values, -, h⟩
      · obtain ⟨before, e, after, rfl, hbefore, he⟩ := outcome_evaluateAll_eq_error.mp h
        exact breaksOff_of_visits (fun _ _ => .argument hf hbefore)
          (breaksOff_of_outcome hc hd room e he)
      · exact absurd h (callWithin_ne_abort hd)
  | room + 1, access object field =>
    rw [evaluateWithin_access] at h
    split at h
    · exact absurd (Fault.abort.inj (Except.error.inj h)).symm hd
    rename_i hroom
    have hl : object.links ≤ room := Nat.not_lt.mp hroom
    split at h
    · rw [Scope.read] at h
      split at h <;> cases h
    · rename_i hb
      have hobject : ∀ left x, Visits scope room object left x →
          Visits scope (room + 1) (access object field) left x := fun _ _ => .object hl hb
      split at h
      · exact breaksOff_of_visits hobject (breaksOff_of_outcome hc hd room object h)
      · rename_i hf
        rcases Reading.outcome_bind_eq_error.mp h with h | ⟨v, hv, h⟩
        · exact breaksOff_of_visits hobject (breaksOff_of_outcome hc hd room object h)
        · have hw := member_eq_abort.mp h
          obtain rfl := (cause_of_memberWriting hw).resolve_right hd
          exact ⟨rfl, _, _, .self _ _, hl, hb, hf, v, hv, hw⟩
  | room + 1, choice cond whenTrue whenFalse =>
    rw [evaluateWithin] at h
    rcases outcome_branch_eq_error.mp h with h | ⟨v, hv, h⟩
    · exact breaksOff_of_visits (fun _ _ => .condition) (breaksOff_of_outcome hc hd room cond h)
    · exact breaksOff_of_visits (fun _ _ => .branch hv) (breaksOff_of_outcome hc hd room _ h)

theorem breaksOff_of_choice (hc : c ≠ .range) (hd : c ≠ .depth) (room : Nat) (args : List Expr)
    (h : (evaluateChoice room scope args).outcome = .error (.abort c)) :
    c = .domain ∧ BreaksOff (room + 1) scope (call Builtin.lazyChoice args) := by
  match args with
  | [cond, whenTrue, whenFalse] =>
    rw [evaluateChoice] at h
    rcases outcome_branch_eq_error.mp h with h | ⟨v, hv, h⟩
    · exact breaksOff_of_visits (fun _ _ => .lazyCondition) (breaksOff_of_outcome hc hd room cond h)
    · exact breaksOff_of_visits (fun _ _ => .lazyBranch hv) (breaksOff_of_outcome hc hd room _ h)
  | [] | [_] | [_, _] | _ :: _ :: _ :: _ :: _ => simp [evaluateChoice, Reading.fault] at h

end

/-- **An evaluation breaks off exactly at such operations.** -/
theorem outcome_eq_abort_iff (hc : c ≠ .range) (hd : c ≠ .depth) :
    (e.evaluateWithin room scope).outcome = .error (.abort c) ↔
      c = .domain ∧ BreaksOff room scope e := by
  refine ⟨breaksOff_of_outcome hc hd room e, ?_⟩
  rintro ⟨rfl, left, x, hv, hb⟩
  exact hv.outcome_eq_error hb.outcome_eq_error

end BreaksOff

end Expr

end LiveForm
