import LiveForm.Expr.Parser

/-! # The grammar of expressions

Which tokens are which expression, said without a parser. Infix operators stand on five levels, from
`or` to products. An operand of a level is a phrase of the next tighter one; on the left it may also be
a phrase of the level itself, so that operators of one level group to the left. A comparison has no
comparison as an operand. -/

namespace LiveForm

open LiveForm.Parser

/-- The levels of infix operators, the loosest first. -/
inductive Level where
  | disjunction | conjunction | comparison | sum | product
deriving DecidableEq

/-- The kinds of phrases in expression text. -/
inductive Phrase where
  | expression
  | level (l : Level)
  /-- An operand with signs and negations in front of it. -/
  | signed
  /-- A called phrase with accesses behind it. -/
  | accessed
  /-- A primary, or a name with its arguments in parentheses. -/
  | called
  | primary
  /-- What stands between the parentheses of a call. -/
  | arguments (function : String)

/-- The phrases that the operators of a level join. -/
def Level.operand : Level → Phrase
  | disjunction => .level .conjunction
  | conjunction => .level .comparison
  | comparison => .level .sum
  | sum => .level .product
  | product => .signed

/-- The tokens of the operators of each level. -/
inductive Operator : Level → TokenKind → BinaryOp → Prop where
  | or : Operator .disjunction .or .or
  | and : Operator .conjunction .and .and
  | eq : Operator .comparison .eq .eq
  | ne : Operator .comparison .ne .ne
  | lt : Operator .comparison .lt .lt
  | gt : Operator .comparison .gt .gt
  | le : Operator .comparison .le .le
  | ge : Operator .comparison .ge .ge
  | add : Operator .sum .plus .add
  | sub : Operator .sum .minus .sub
  | mul : Operator .product .star .mul
  | div : Operator .product .slash .div
  | rem : Operator .product .percent .rem

inductive Sign : TokenKind → UnaryOp → Prop where
  | minus : Sign .minus .neg
  | plus : Sign .plus .plus
  | not : Sign .not .not

/-- A token that is an expression by itself. -/
inductive Atom : Token → Expr → Prop where
  | int {t : Token} {v : Value} : t.kind = .int → intLiteral t.text = .ok v → Atom t (.literal v)
  | float {t : Token} : t.kind = .float → Atom t (.literal (floatLiteral t.text))
  | text {t : Token} : t.kind = .text → Atom t (.literal (.text (unquote t.text)))
  | trueWord {t : Token} : t.kind = .trueWord → Atom t (.literal (.bool true))
  | falseWord {t : Token} : t.kind = .falseWord → Atom t (.literal (.bool false))
  | nullWord {t : Token} : t.kind = .nullWord → Atom t (.literal .null)
  | rowName {t : Token} : t.kind = .rowName → Atom t (.name t.text)
  | ident {t : Token} : t.kind = .ident → Atom t (.name t.text)

/-- What can be called: a name token, possibly in parentheses, but none of a row, which would have
brackets in it. -/
inductive Callee : List Token → String → Prop where
  | name {t : Token} : Atom t (.name t.text) → Text.hasChar '[' t.text = false → Callee [t] t.text
  | parentheses {opening closing : Token} {ts : List Token} {function : String} :
    opening.kind = .lparen → Callee ts function → closing.kind = .rparen →
    Callee (opening :: ts ++ [closing]) function

/-- The tokens of each kind of phrase, and the tree that they stand for. The arguments of a call stand
for the whole call. -/
inductive Derives : Phrase → List Token → Expr → Prop where
  | choice {question colon : Token} {cs ts fs : List Token}
    {condition whenTrue whenFalse : Expr} :
    Derives (.level .disjunction) cs condition → question.kind = .question →
    Derives .expression ts whenTrue → colon.kind = .colon → Derives .expression fs whenFalse →
    Derives .expression (cs ++ question :: ts ++ colon :: fs)
      (.choice condition whenTrue whenFalse)
  | unconditional {ts : List Token} {e : Expr} :
    Derives (.level .disjunction) ts e → Derives .expression ts e
  | chained {l : Level} {t : Token} {op : BinaryOp} {ls rs : List Token} {left right : Expr} :
    l ≠ .comparison → Derives (.level l) ls left → Operator l t.kind op →
    Derives l.operand rs right → Derives (.level l) (ls ++ t :: rs) (.binary op left right)
  | compared {t : Token} {op : BinaryOp} {ls rs : List Token} {left right : Expr} :
    Derives (.level .sum) ls left → Operator .comparison t.kind op →
    Derives (.level .sum) rs right →
    Derives (.level .comparison) (ls ++ t :: rs) (.binary op left right)
  | operand {l : Level} {ts : List Token} {e : Expr} :
    Derives l.operand ts e → Derives (.level l) ts e
  | signed {t : Token} {op : UnaryOp} {ts : List Token} {e : Expr} :
    Sign t.kind op → Derives .signed ts e → Derives .signed (t :: ts) (.unary op e)
  | unsigned {ts : List Token} {e : Expr} : Derives .accessed ts e → Derives .signed ts e
  | access {dot field : Token} {ts : List Token} {e : Expr} :
    Derives .accessed ts e → dot.kind = .dot → field.kind = .ident →
    Derives .accessed (ts ++ [dot, field]) (.access e field.text)
  | unaccessed {ts : List Token} {e : Expr} : Derives .called ts e → Derives .accessed ts e
  | call {opening closing : Token} {ts args : List Token} {function : String} {e : Expr} :
    Callee ts function → opening.kind = .lparen → Derives (.arguments function) args e →
    closing.kind = .rparen → Derives .called (ts ++ opening :: args ++ [closing]) e
  | uncalled {ts : List Token} {e : Expr} : Derives .primary ts e → Derives .called ts e
  | atom {t : Token} {e : Expr} : Atom t e → Derives .primary [t] e
  | parentheses {opening closing : Token} {ts : List Token} {e : Expr} :
    opening.kind = .lparen → Derives .expression ts e → closing.kind = .rparen →
    Derives .primary (opening :: ts ++ [closing]) e
  | noArguments {function : String} : Derives (.arguments function) [] (.call function [])
  | lastArgument {function : String} {ts : List Token} {e : Expr} :
    Derives .expression ts e → Derives (.arguments function) ts (.call function [e])
  | nextArgument {function : String} {comma : Token} {ts rest : List Token} {e next : Expr}
    {others : List Expr} :
    Derives .expression ts e → comma.kind = .comma →
    Derives (.arguments function) rest (.call function (next :: others)) →
    Derives (.arguments function) (ts ++ comma :: rest) (.call function (e :: next :: others))

/-! ## What phrases start with -/

/-- The kinds of tokens that an operand starts with. -/
def TokenKind.IsOperand (k : TokenKind) : Prop :=
  k ∈ [.int, .float, .text, .trueWord, .falseWord, .nullWord, .rowName, .ident, .lparen]

theorem TokenKind.IsOperand.ne {k : TokenKind} (h : k.IsOperand) : k ≠ .eof ∧ k ≠ .rparen := by
  constructor <;> (rintro rfl; simp [IsOperand] at h)

theorem Sign.ne {k : TokenKind} {op : UnaryOp} (h : Sign k op) : k ≠ .eof ∧ k ≠ .rparen := by
  cases h <;> simp

theorem Operator.ne_eof {l : Level} {k : TokenKind} {op : BinaryOp} (h : Operator l k op) :
    k ≠ .eof := by
  cases h <;> simp

theorem Atom.isOperand {t : Token} {e : Expr} (h : Atom t e) : t.kind.IsOperand := by
  cases h with
  | int hk _ => simp [TokenKind.IsOperand, hk]
  | _ hk => simp [TokenKind.IsOperand, hk]

/-- The kinds of tokens that a phrase starts with. -/
def Phrase.Starts (k : TokenKind) : Phrase → Prop
  | accessed | called | primary => k.IsOperand
  | _ => k.IsOperand ∨ ∃ op, Sign k op

theorem Phrase.starts_operand {k : TokenKind} {l : Level} :
    l.operand.Starts k ↔ k.IsOperand ∨ ∃ op, Sign k op := by
  cases l <;> rfl

theorem Level.operand_ne_arguments (l : Level) (function : String) :
    l.operand ≠ .arguments function := by
  cases l <;> simp [operand]

theorem Callee.starts {ts : List Token} {function : String} (h : Callee ts function) :
    ∃ t rest, ts = t :: rest ∧ t.kind.IsOperand := by
  cases h with
  | name ha _ => exact ⟨_, [], rfl, ha.isOperand⟩
  | parentheses ho _ _ => exact ⟨_, _, rfl, by simp [TokenKind.IsOperand, ho]⟩

/-- A phrase is not empty, arguments apart. -/
theorem Derives.starts {phrase : Phrase} {ts : List Token} {e : Expr} (h : Derives phrase ts e)
    (hp : ∀ function, phrase ≠ .arguments function) :
    ∃ t rest, ts = t :: rest ∧ phrase.Starts t.kind := by
  induction h with
  | choice _ _ _ _ _ ih _ _ =>
    obtain ⟨t, rest, rfl, ht⟩ := ih (by simp)
    exact ⟨t, _, rfl, ht⟩
  | chained _ _ _ _ ih _ | compared _ _ _ ih _ | access _ _ _ ih =>
    obtain ⟨t, rest, rfl, ht⟩ := ih (by simp)
    exact ⟨t, _, rfl, ht⟩
  | unconditional _ ih | unaccessed _ ih | uncalled _ ih => exact ih (by simp)
  | unsigned _ ih =>
    obtain ⟨t, rest, rfl, ht⟩ := ih (by simp)
    exact ⟨t, rest, rfl, .inl ht⟩
  | operand _ ih =>
    obtain ⟨t, rest, rfl, ht⟩ := ih (Level.operand_ne_arguments _)
    exact ⟨t, rest, rfl, Phrase.starts_operand.mp ht⟩
  | signed hs => exact ⟨_, _, rfl, .inr ⟨_, hs⟩⟩
  | call hc =>
    obtain ⟨t, rest, rfl, ht⟩ := hc.starts
    exact ⟨t, _, rfl, ht⟩
  | atom ha => exact ⟨_, [], rfl, ha.isOperand⟩
  | parentheses ho => exact ⟨_, _, rfl, by simp [Phrase.Starts, TokenKind.IsOperand, ho]⟩
  | noArguments | lastArgument | nextArgument => exact absurd rfl (hp _)

theorem Derives.expression_starts {ts : List Token} {e : Expr} (h : Derives .expression ts e) :
    ∃ t rest, ts = t :: rest ∧ t.kind ≠ .eof ∧ t.kind ≠ .rparen := by
  obtain ⟨t, rest, hts, ht⟩ := h.starts (by simp)
  exact ⟨t, rest, hts, ht.elim TokenKind.IsOperand.ne fun ⟨_, hs⟩ => hs.ne⟩

/-! ## Names and calls -/

theorem Derives.of_accessed {ts : List Token} {e : Expr} (h : Derives .accessed ts e) :
    Derives .expression ts e :=
  .unconditional <| .operand <| .operand <| .operand <| .operand <| .operand <| .unsigned h

theorem Derives.of_primary {ts : List Token} {e : Expr} (h : Derives .primary ts e) :
    Derives .expression ts e :=
  (Derives.unaccessed (.uncalled h)).of_accessed

theorem Derives.arguments_eq {function : String} {ts : List Token} {e : Expr}
    (h : Derives (.arguments function) ts e) : ∃ args, e = .call function args := by
  cases h with
  | noArguments | lastArgument | nextArgument => exact ⟨_, rfl⟩

theorem Callee.primary {ts : List Token} {function : String} (h : Callee ts function) :
    Derives .primary ts (.name function) ∧ Text.hasChar '[' function = false := by
  induction h with
  | name ha hb => exact ⟨.atom ha, hb⟩
  | parentheses ho _ hc ih => exact ⟨.parentheses ho ih.1.of_primary hc, ih.2⟩

/-- Only a name token, possibly in parentheses, stands for a name. -/
theorem Derives.callee {phrase : Phrase} {ts : List Token} {function : String}
    (h : Derives phrase ts (.name function)) (hb : Text.hasChar '[' function = false) :
    Callee ts function := by
  generalize he : Expr.name function = e at h
  induction h with
  | choice | chained | compared | signed | access | noArguments | lastArgument | nextArgument =>
    cases he
  | unconditional _ ih | operand _ ih | unsigned _ ih | unaccessed _ ih | uncalled _ ih => exact ih he
  | call _ _ ha =>
    obtain ⟨args, rfl⟩ := ha.arguments_eq
    cases he
  | atom ha =>
    subst he
    cases ha with
    | rowName hk => exact .name (.rowName hk) hb
    | ident hk => exact .name (.ident hk) hb
  | parentheses ho _ hc ih => exact .parentheses ho (ih he) hc

end LiveForm
