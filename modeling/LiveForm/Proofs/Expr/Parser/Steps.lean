import LiveForm.Proofs.Except
import LiveForm.Proofs.Expr.Grammar

/-! # What the steps of the parser read

Each step takes a phrase off the front of the tokens. What it takes derives the tree that it answers
with; and what derives a tree is taken with that tree, if no token follows that would go on with the
phrase, or else the budget is used up. A step fails for the budget only behind as many nesting tokens
as the budget allows, and for an over-long number only when there is one. -/

namespace LiveForm.Parser

/-- The tokens behind which the parser uses up budget. -/
def nests : TokenKind → Bool
  | .lparen | .question | .minus | .plus | .not => true
  | _ => false

def nesting (ts : List Token) : Nat := ts.countP fun t => nests t.kind

/-- What the tokens have to do with a failure. Of a syntax error nothing is said. -/
def Deserves (depth : Nat) (ts : List Token) : ParseFault → Prop
  | .badSyntax _ => True
  | .tooDeep => depth ≤ nesting ts
  | .tooLong => ∃ t ∈ ts, t.kind = .int ∧ intLiteral t.text = .error .tooLong

/-- A computation gives an answer, unless the budget does not suffice. -/
def Gives {α : Type} (r : Except ParseFault α) (a : α) : Prop := r = .ok a ∨ r = .error .tooDeep

/-- A step reads phrases, told apart by what may follow them. -/
structure Reads {α : Type} (p : Step α) (phrase : List Token → α → Prop) (ends : TokenKind → Prop)
    (depth : Nat) : Prop where
  sound : ∀ ts a rest, p ts = .ok (a, rest) → ∃ body, ts = body ++ rest ∧ phrase body a
  complete : ∀ body a rest, phrase body a → ends (peek rest).kind →
    Gives (p (body ++ rest)) (a, rest)
  deserved : ∀ ts f, p ts = .error f → Deserves depth ts f

theorem Reads.suffix {α : Type} {p : Step α} {phrase : List Token → α → Prop}
    {ends : TokenKind → Prop} {depth : Nat} (h : Reads p phrase ends depth) {ts rest : List Token}
    {a : α} (hp : p ts = .ok (a, rest)) : rest <:+ ts := by
  obtain ⟨body, hbody, -⟩ := h.sound ts a rest hp
  exact ⟨body, hbody.symm⟩

section Outcomes

variable {α β : Type} {r : Except ParseFault α} {f : α → Except ParseFault β} {a : α} {b : β}
  {c : ParseFault} {ts rest : List Token} {t : Token} {m n : Nat}

theorem Gives.ok (a : α) : Gives (.ok a) a := .inl rfl

theorem Gives.bind (hr : Gives r a) (hf : Gives (f a) b) : Gives (r >>= f) b := by
  rcases hr with rfl | rfl
  · exact hf
  · exact .inr rfl

theorem Deserves.of_suffix (h : Deserves n rest c) (hs : rest <:+ ts) : Deserves n ts c := by
  cases c with
  | badSyntax s => trivial
  | tooDeep => exact Nat.le_trans h hs.sublist.countP_le
  | tooLong =>
    obtain ⟨t, ht, hl⟩ := h
    exact ⟨t, hs.subset ht, hl⟩

theorem Deserves.of_le (h : Deserves m ts c) (hn : n ≤ m) : Deserves n ts c := by
  cases c with
  | tooDeep => exact Nat.le_trans hn h
  | _ => exact h

/-- Behind a nesting token one more level of budget is accounted for. -/
theorem Deserves.nest (h : Deserves n ts c) (ht : nests t.kind) : Deserves (n + 1) (t :: ts) c := by
  cases c with
  | badSyntax s => trivial
  | tooDeep =>
    show n + 1 ≤ nesting (t :: ts)
    have hc : nesting (t :: ts) = nesting ts + 1 := List.countP_cons_of_pos (by simpa using ht)
    rw [hc]
    exact Nat.succ_le_succ h
  | tooLong =>
    obtain ⟨u, hu, hl⟩ := h
    exact ⟨u, List.mem_cons_of_mem t hu, hl⟩

end Outcomes

section Tokens

variable {ts rest : List Token} {t : Token} {k : TokenKind} {e : Expr} {f : ParseFault}

/-- Past the end there is only the end. -/
theorem eq_cons_of_peek (h : (peek ts).kind ≠ .eof) : ts = peek ts :: ts.drop 1 := by
  cases ts with
  | nil => exact absurd rfl h
  | cons t rest => rfl

theorem eq_cons_of_kind (h : (peek ts).kind = k) (hk : k ≠ .eof) : ts = peek ts :: ts.drop 1 :=
  eq_cons_of_peek (h ▸ hk)

theorem length_lt_cons_append (t : Token) (ts rest : List Token) :
    rest.length < (t :: ts ++ rest).length := by
  rw [List.length_append, List.length_cons]
  omega

theorem expect_eq_ok (hk : k ≠ .eof) (h : expect k ts = .ok (t, rest)) :
    ts = t :: rest ∧ t.kind = k := by
  unfold expect at h
  dsimp only at h
  split at h
  · rename_i hp
    obtain ⟨rfl, rfl⟩ := Prod.mk.inj (Except.ok.inj h)
    exact ⟨eq_cons_of_kind hp hk, hp⟩
  · cases h

theorem suffix_of_expect (hk : k ≠ .eof) (h : expect k ts = .ok (t, rest)) : rest <:+ ts := by
  obtain ⟨rfl, -⟩ := expect_eq_ok hk h
  exact List.suffix_cons t rest

theorem expect_cons (h : t.kind = k) (rest : List Token) : expect k (t :: rest) = .ok (t, rest) :=
  if_pos h

theorem deserves_of_expect (h : expect k ts = .error f) (n : Nat) : Deserves n ts f := by
  unfold expect at h
  dsimp only at h
  split at h
  · cases h
  · obtain rfl := Except.error.inj h
    trivial

theorem atom?_eq_some_iff : atom? t = .ok (some e) ↔ Atom t e := by
  constructor
  · intro h
    unfold atom? at h
    split at h
    · rename_i hk
      obtain ⟨v, hv, h⟩ := bind_eq_ok h
      obtain rfl := Option.some.inj (Except.ok.inj h)
      exact .int hk hv
    · rename_i hk
      obtain rfl := Option.some.inj (Except.ok.inj h)
      exact .float hk
    · rename_i hk
      obtain rfl := Option.some.inj (Except.ok.inj h)
      exact .text hk
    · rename_i hk
      obtain rfl := Option.some.inj (Except.ok.inj h)
      exact .trueWord hk
    · rename_i hk
      obtain rfl := Option.some.inj (Except.ok.inj h)
      exact .falseWord hk
    · rename_i hk
      obtain rfl := Option.some.inj (Except.ok.inj h)
      exact .nullWord hk
    · rename_i hk
      obtain rfl := Option.some.inj (Except.ok.inj h)
      exact .rowName hk
    · rename_i hk
      obtain rfl := Option.some.inj (Except.ok.inj h)
      exact .ident hk
    · cases h
  · intro h
    cases h with
    | int hk hv => simp [atom?, hk, hv, bind, Except.bind, pure, Except.pure]
    | _ hk => simp [atom?, hk]

theorem atom?_eq_none (h : t.kind = .lparen) : atom? t = .ok none := by simp [atom?, h]

theorem intLiteral_eq_error {text : String} (h : intLiteral text = .error f) : f = .tooLong := by
  unfold intLiteral at h
  split at h
  · cases h
  · exact (Except.error.inj h).symm

theorem deserves_of_atom? (h : atom? (peek ts) = .error f) (n : Nat) : Deserves n ts f := by
  unfold atom? at h
  split at h
  · rename_i hk
    rcases bind_eq_error h with h | ⟨v, -, h⟩
    · have hts := eq_cons_of_kind hk (by decide)
      obtain rfl := intLiteral_eq_error h
      exact ⟨peek ts, hts ▸ List.mem_cons_self, hk, h⟩
    · cases h
  all_goals cases h

end Tokens

end LiveForm.Parser
