import LiveForm.Proofs.Expr.Parser.Operands

/-! # Reading levels of operators

The loop over the operators of a level turns once for each rule that joins a phrase of the level with
one more operand. So what it has read so far is always a phrase of the level, and on the tokens of
such a phrase it comes to the point behind them. The budget of an expression is spent on the
expressions nested in it, each behind a nesting token. -/

namespace LiveForm.Parser

theorem Reads.mono {α : Type} {p : Step α} {phrase : List Token → α → Prop}
    {ends ends' : TokenKind → Prop} {depth : Nat} (h : Reads p phrase ends depth)
    (he : ∀ k, ends' k → ends k) : Reads p phrase ends' depth where
  sound := h.sound
  complete body a rest hp hk := h.complete body a rest hp (he _ hk)
  deserved := h.deserved

/-! ## One level -/

/-- A function tells the operators of a level. -/
def Tells (op? : TokenKind → Option BinaryOp) (l : Level) : Prop :=
  ∀ k op, op? k = some op ↔ Operator l k op

theorem tells_or : Tells orOp? .disjunction := by
  intro k op
  constructor
  · intro h
    cases k <;> cases h
    constructor
  · rintro ⟨⟩
    rfl

theorem tells_and : Tells andOp? .conjunction := by
  intro k op
  constructor
  · intro h
    cases k <;> cases h
    constructor
  · rintro ⟨⟩
    rfl

theorem tells_comparison : Tells comparisonOp? .comparison := by
  intro k op
  constructor
  · intro h
    cases k <;> cases h <;> constructor
  · rintro ⟨⟩ <;> rfl

theorem tells_sum : Tells addOp? .sum := by
  intro k op
  constructor
  · intro h
    cases k <;> cases h <;> constructor
  · rintro ⟨⟩ <;> rfl

theorem tells_product : Tells mulOp? .product := by
  intro k op
  constructor
  · intro h
    cases k <;> cases h <;> constructor
  · rintro ⟨⟩ <;> rfl

section Chain

variable {op? : TokenKind → Option BinaryOp} {operand : Step Expr} {l : Level}
  {ends : TokenKind → Prop} {n : Nat}

/-- What the loop has read so far stays a front part of the phrase. -/
theorem chainFrom_sound (ht : Tells op? l) (hl : l ≠ .comparison)
    (ho : Reads operand (Derives l.operand) ends n) (fuel : Nat) {init ts rest : List Token}
    {left e : Expr} (hinit : Derives (.level l) init left)
    (h : chainFrom op? operand fuel left ts = .ok (e, rest)) :
    ∃ body, ts = body ++ rest ∧ Derives (.level l) (init ++ body) e := by
  induction fuel generalizing init ts left with
  | zero =>
    obtain ⟨rfl, rfl⟩ := Prod.mk.inj (Except.ok.inj h)
    exact ⟨[], rfl, by simpa using hinit⟩
  | succ fuel ih =>
    unfold chainFrom at h
    split at h
    · rename_i op hop
      have hop := (ht _ _).mp hop
      obtain ⟨⟨right, mid⟩, hright, h⟩ := bind_eq_ok h
      obtain ⟨rs, hmid, hd⟩ := ho.sound _ _ _ hright
      obtain ⟨body, hbody, he⟩ := ih (.chained hl hinit hop hd) h
      refine ⟨peek ts :: rs ++ body, ?_, by simpa using he⟩
      exact (eq_cons_of_peek hop.ne_eof).trans (by simp [hmid, hbody])
    · obtain ⟨rfl, rfl⟩ := Prod.mk.inj (Except.ok.inj h)
      exact ⟨[], rfl, by simpa using hinit⟩

theorem chainFrom_turn (ht : Tells op? l) (ho : Reads operand (Derives l.operand) ends n)
    {t : Token} {op : BinaryOp} {rs rest : List Token} {right : Expr} (hop : Operator l t.kind op)
    (hd : Derives l.operand rs right) (hend : ends (peek rest).kind) (left : Expr) (fuel : Nat) :
    chainFrom op? operand (fuel + 1) left (t :: rs ++ rest) = .error .tooDeep ∨
      chainFrom op? operand (fuel + 1) left (t :: rs ++ rest) =
        chainFrom op? operand fuel (.binary op left right) rest := by
  rw [chainFrom]
  simp only [List.cons_append, peek, (ht _ _).mpr hop, List.drop_one, List.tail_cons]
  rcases ho.complete _ _ rest hd hend with hright | hright
  · exact .inr (by rw [hright]; rfl)
  · exact .inl (by rw [hright]; rfl)

theorem chainFrom_ends {ts : List Token} (h : op? (peek ts).kind = none) (e : Expr) (fuel : Nat) :
    chainFrom op? operand fuel e ts = .ok (e, ts) := by
  cases fuel with
  | zero => rfl
  | succ fuel => simp [chainFrom, h]

theorem chainFrom_deserves (ho : Reads operand (Derives l.operand) ends n) (fuel : Nat)
    {left : Expr} {ts : List Token} {f : ParseFault}
    (h : chainFrom op? operand fuel left ts = .error f) : Deserves n ts f := by
  induction fuel generalizing left ts with
  | zero => cases h
  | succ fuel ih =>
    unfold chainFrom at h
    split at h
    · rcases bind_eq_error h with h | ⟨⟨right, mid⟩, hright, h⟩
      · exact (ho.deserved _ _ h).of_suffix (List.drop_suffix 1 ts)
      · exact (ih h).of_suffix ((ho.suffix hright).trans (List.drop_suffix 1 ts))
    · cases h

/-- The loop comes to the point behind a phrase of the level. -/
theorem chain_resumes (ht : Tells op? l) (hl : l ≠ .comparison)
    (ho : Reads operand (Derives l.operand) ends n) (hops : ∀ k op, Operator l k op → ends k)
    {body : List Token} {e : Expr} (h : Derives (.level l) body e) (rest : List Token)
    (hend : ends (peek rest).kind) :
    Resumes (chain op? operand (body ++ rest)) (fun fuel => chainFrom op? operand fuel e rest)
      rest.length := by
  generalize hp : Phrase.level l = phrase at h
  induction h generalizing rest with
  | @chained _ t op ls rs left right _ _ hop hright ih _ =>
    cases hp
    have hprev := ih (t :: rs ++ rest) (hops _ _ hop) rfl
    rw [← List.append_assoc] at hprev
    exact hprev.turn (length_lt_cons_append t rs rest) fun more =>
      chainFrom_turn ht ho hop hright hend left more
  | compared =>
    cases hp
    exact absurd rfl hl
  | operand hd =>
    cases hp
    exact (ho.complete _ _ rest hd hend).resumes rfl
  | _ => cases hp

theorem reads_chain (ht : Tells op? l) (hl : l ≠ .comparison)
    (ho : Reads operand (Derives l.operand) ends n) (hops : ∀ k op, Operator l k op → ends k) :
    Reads (chain op? operand) (Derives (.level l)) (fun k => op? k = none ∧ ends k) n where
  sound ts e rest h := by
    obtain ⟨⟨left, mid⟩, hleft, hloop⟩ := bind_eq_ok h
    obtain ⟨init, hinit, hd⟩ := ho.sound _ _ _ hleft
    obtain ⟨body, hbody, he⟩ := chainFrom_sound ht hl ho _ (.operand hd) hloop
    exact ⟨init ++ body, by simp [hinit, hbody], he⟩
  complete body e rest h hend :=
    (chain_resumes ht hl ho hops h rest hend.2).gives (chainFrom_ends hend.1 e)
  deserved ts f h := by
    rcases bind_eq_error h with h | ⟨⟨left, mid⟩, hleft, h⟩
    · exact ho.deserved _ _ h
    · exact (chainFrom_deserves ho _ h).of_suffix (ho.suffix hleft)

/-- A comparison is the one turn of such a loop. -/
theorem reads_single (ho : Reads operand (Derives (.level .sum)) ends n)
    (hops : ∀ k op, Operator .comparison k op → ends k) :
    Reads (single comparisonOp? operand) (Derives (.level .comparison))
      (fun k => comparisonOp? k = none ∧ ends k) n where
  sound ts e rest h := by
    obtain ⟨⟨left, mid⟩, hleft, hloop⟩ := bind_eq_ok h
    obtain ⟨ls, hls, hd⟩ := ho.sound _ _ _ hleft
    dsimp only [chainFrom] at hloop
    split at hloop
    · rename_i op hop
      have hop := (tells_comparison _ _).mp hop
      obtain ⟨⟨right, mid'⟩, hright, hdone⟩ := bind_eq_ok hloop
      obtain ⟨rs, hrs, hd'⟩ := ho.sound _ _ _ hright
      obtain ⟨rfl, rfl⟩ := Prod.mk.inj (Except.ok.inj hdone)
      have hmid : mid = peek mid :: (rs ++ mid') := hrs ▸ eq_cons_of_peek hop.ne_eof
      refine ⟨ls ++ peek mid :: rs, ?_, .compared hd hop hd'⟩
      rw [List.append_assoc, List.cons_append, ← hmid]
      exact hls
    · obtain ⟨rfl, rfl⟩ := Prod.mk.inj (Except.ok.inj hloop)
      exact ⟨ls, hls, .operand hd⟩
  complete body e rest h hend := by
    cases h with
    | chained hl => exact absurd rfl hl
    | @compared t op ls rs left right hleft hop hright =>
      have hin : Gives (operand (ls ++ (t :: rs ++ rest))) (left, t :: rs ++ rest) :=
        ho.complete _ _ _ hleft (hops _ _ hop)
      rw [List.append_assoc]
      exact hin.bind (chainFrom_turn tells_comparison ho hop hright hend.2 left 0).symm
    | operand hd =>
      exact (ho.complete _ _ rest hd hend.2).bind (.inl (chainFrom_ends hend.1 e 1))
  deserved ts f h := by
    rcases bind_eq_error h with h | ⟨⟨left, mid⟩, hleft, h⟩
    · exact ho.deserved _ _ h
    · exact (chainFrom_deserves (l := .comparison) ho _ h).of_suffix (ho.suffix hleft)

end Chain

/-! ## All levels -/

/-- The kinds of tokens behind which no operator goes on. -/
def EndsCondition (k : TokenKind) : Prop := k ∈ [.question, .rparen, .comma, .colon, .eof]

/-- The kinds of tokens behind which an expression does not go on. -/
def EndsExpression (k : TokenKind) : Prop := k ∈ [.rparen, .comma, .colon, .eof]

theorem EndsExpression.condition {k : TokenKind} (h : EndsExpression k) : EndsCondition k :=
  List.mem_cons_of_mem _ h

section Nested

variable {inner : Step Expr} {n : Nat}

theorem reads_disjunction (hi : Reads inner (Derives .expression) EndsExpression n) (budget : Nat) :
    Reads (disjunction inner budget) (Derives (.level .disjunction)) EndsCondition
      (min budget (n + 1)) := by
  have hsigned := reads_unary hi (by simp [EndsExpression]) (by simp [EndsExpression]) budget
  have hproduct := reads_chain (l := .product) tells_product (by simp) hsigned
    (by rintro k op ⟨⟩ <;> simp [EndsOperand])
  have hsum := reads_chain (l := .sum) tells_sum (by simp) hproduct
    (by rintro k op ⟨⟩ <;> simp [EndsOperand, mulOp?])
  have hcomparison := reads_single hsum
    (by rintro k op ⟨⟩ <;> simp [EndsOperand, mulOp?, addOp?])
  have hconjunction := reads_chain (l := .conjunction) tells_and (by simp) hcomparison
    (by rintro k op ⟨⟩; simp [EndsOperand, mulOp?, addOp?, comparisonOp?])
  have hdisjunction := reads_chain (l := .disjunction) tells_or (by simp) hconjunction
    (by rintro k op ⟨⟩; simp [EndsOperand, mulOp?, addOp?, comparisonOp?, andOp?])
  refine hdisjunction.mono fun k hk => ?_
  simp only [EndsCondition, List.mem_cons, List.not_mem_nil, or_false] at hk
  rcases hk with rfl | rfl | rfl | rfl | rfl <;>
    simp [EndsOperand, mulOp?, addOp?, comparisonOp?, andOp?, orOp?]

theorem reads_conditional (hi : Reads inner (Derives .expression) EndsExpression n) (budget : Nat) :
    Reads (conditional inner budget) (Derives .expression) EndsExpression
      (min budget (n + 1)) where
  sound ts e rest h := by
    obtain ⟨⟨condition, afterCondition⟩, hcondition, h⟩ := bind_eq_ok h
    obtain ⟨cs, hcs, hd⟩ := (reads_disjunction hi budget).sound _ _ _ hcondition
    dsimp only at h
    split at h
    · rename_i hquestion
      obtain ⟨⟨whenTrue, afterTrue⟩, htrue, h⟩ := bind_eq_ok h
      obtain ⟨⟨colon, afterColon⟩, hcolon, h⟩ := bind_eq_ok h
      obtain ⟨⟨whenFalse, afterFalse⟩, hfalse, h⟩ := bind_eq_ok h
      obtain ⟨rfl, rfl⟩ := Prod.mk.inj (Except.ok.inj h)
      obtain ⟨tts, htts, hd'⟩ := hi.sound _ _ _ htrue
      obtain ⟨fts, hfts, hd''⟩ := hi.sound _ _ _ hfalse
      obtain ⟨hmid, hk⟩ := expect_eq_ok (by decide) hcolon
      dsimp only at hmid hfts
      have hopen : afterCondition = peek afterCondition :: tts ++ colon :: (fts ++ afterFalse) :=
        (eq_cons_of_kind hquestion (by decide)).trans (by simp [htts, hmid, hfts])
      refine ⟨cs ++ peek afterCondition :: tts ++ colon :: fts, ?_,
        .choice hd hquestion hd' hk hd''⟩
      exact hcs.trans ((congrArg (cs ++ ·) hopen).trans (by simp))
    · obtain ⟨rfl, rfl⟩ := Prod.mk.inj (Except.ok.inj h)
      exact ⟨cs, hcs, .unconditional hd⟩
  complete body e rest h hend := by
    have hread := (reads_disjunction hi budget).complete
    cases h with
    | @choice question colon cs ts fs condition whenTrue whenFalse hd hquestion htrue hcolon hfalse =>
      have hcondition : Gives (disjunction inner budget (cs ++ (question :: (ts ++ (colon ::
          (fs ++ rest)))))) (condition, question :: (ts ++ (colon :: (fs ++ rest)))) :=
        hread _ _ _ hd (by simp [EndsCondition, peek, hquestion])
      have hwhenTrue : Gives (inner (ts ++ (colon :: (fs ++ rest))))
          (whenTrue, colon :: (fs ++ rest)) :=
        hi.complete _ _ _ htrue (by simp [EndsExpression, peek, hcolon])
      have hwhenFalse := hi.complete _ _ rest hfalse hend
      simp only [conditional, List.append_assoc, List.cons_append]
      refine hcondition.bind ?_
      simp only [peek, hquestion, if_true, List.drop_one, List.tail_cons]
      refine hwhenTrue.bind ?_
      simp only [expect_cons hcolon]
      exact hwhenFalse.bind (.ok _)
    | unconditional hd =>
      refine (hread _ _ rest hd hend.condition).bind ?_
      have hnot : ¬(peek rest).kind = .question := by
        intro hk
        simp [EndsExpression, hk] at hend
      exact .inl (if_neg hnot)
  deserved ts f h := by
    have hread := reads_disjunction hi budget
    rcases bind_eq_error h with h | ⟨⟨condition, afterCondition⟩, hcondition, h⟩
    · exact hread.deserved _ _ h
    · refine Deserves.of_suffix ?_ (hread.suffix hcondition)
      dsimp only at h
      split at h
      · rename_i hquestion
        rw [eq_cons_of_kind hquestion (by decide)]
        refine Deserves.of_le (Deserves.nest (n := n) ?_ (by simp [hquestion, nests])) (by omega)
        rcases bind_eq_error h with h | ⟨⟨whenTrue, afterTrue⟩, htrue, h⟩
        · exact hi.deserved _ _ h
        · refine Deserves.of_suffix ?_ (hi.suffix htrue)
          rcases bind_eq_error h with h | ⟨⟨colon, afterColon⟩, hcolon, h⟩
          · exact deserves_of_expect h n
          · refine Deserves.of_suffix ?_ (suffix_of_expect (by decide) hcolon)
            rcases bind_eq_error h with h | ⟨⟨whenFalse, afterFalse⟩, -, h⟩
            · exact hi.deserved _ _ h
            · cases h
      · cases h

end Nested

/-- Each nested expression is read with one less of the budget. -/
theorem reads_expression (budget : Nat) :
    Reads (expression budget) (Derives .expression) EndsExpression budget := by
  induction budget with
  | zero =>
    constructor
    case sound => intro ts e rest h; cases h
    case complete => intro body e rest _ _; exact .inr rfl
    case deserved =>
      intro ts f h
      obtain rfl := Except.error.inj h
      simp [Deserves]
  | succ budget ih =>
    have hread := reads_conditional ih (budget + 1)
    rwa [Nat.min_self] at hread

end LiveForm.Parser
