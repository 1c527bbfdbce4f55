import LiveForm.Proofs.Expr.Parser.Whole
import LiveForm.Proofs.Expr.Scanning

/-! # The parser stays before the end

A step on tokens with an end behind them leaves the end and the last of the tokens before it, or fails
at one of these tokens. What stands behind the end makes no difference, so nothing is looked at there,
and the loops stop before their bounds do. -/

namespace LiveForm.Parser

/-- What comes of a run over tokens and the end, the same with anything behind. -/
inductive Stays {α : Type} (body : List Token) (ending : Token)
    (run : List Token → Except ParseFault (α × List Token)) : Prop where
  | ok {a : α} {left : List Token} :
    left <:+ body → (∀ behind, run behind = .ok (a, left ++ ending :: behind)) →
    Stays body ending run
  | error {fault : ParseFault} :
    (∀ s, fault = .badSyntax s → ∃ t ∈ body ++ [ending], t.position = s.position) →
    (∀ behind, run behind = .error fault) → Stays body ending run

/-- A step stays before any end. -/
def Bounded {α : Type} (p : Step α) : Prop :=
  ∀ body ending, ending.kind = .eof → Stays body ending fun behind => p (body ++ ending :: behind)

section Outcomes

variable {α β : Type} {body left : List Token} {ending t : Token}
  {run : List Token → Except ParseFault (α × List Token)}

theorem Stays.mono (h : Stays left ending run) (hs : left <:+ body) : Stays body ending run := by
  cases h with
  | ok hleft hrun => exact .ok (hleft.trans hs) hrun
  | error hf hrun =>
    refine .error (fun s hs' => ?_) hrun
    obtain ⟨t, ht, hp⟩ := hf s hs'
    obtain ⟨front, rfl⟩ := hs
    exact ⟨t, by rw [List.append_assoc]; exact List.mem_append_right _ ht, hp⟩

theorem Stays.bind (h : Stays body ending run)
    {next : List Token → α × List Token → Except ParseFault (β × List Token)}
    (hnext : ∀ a left, left <:+ body →
      Stays left ending fun behind => next behind (a, left ++ ending :: behind)) :
    Stays body ending fun behind => run behind >>= next behind := by
  cases h with
  | @ok a left hleft hrun =>
    simp only [hrun]
    exact (hnext a left hleft).mono hleft
  | @error f hf hrun =>
    simp only [hrun]
    exact .error hf fun behind => rfl

theorem Stays.fail (cause : SyntaxCause) (ht : t ∈ body ++ [ending])
    (hrun : ∀ behind, run behind = Parser.fail cause t) : Stays body ending run := by
  refine .error (fun s hs => ⟨t, ht, ?_⟩) hrun
  cases hs
  rfl

/-- The first token is known, whatever stands behind the end. -/
theorem peek_append (body : List Token) (ending : Token) (behind : List Token) :
    peek (body ++ ending :: behind) = body.headD ending := by
  cases body <;> rfl

theorem headD_mem (body : List Token) (ending : Token) : body.headD ending ∈ body ++ [ending] := by
  cases body <;> simp

/-- A first token that is not the end stands before it. -/
theorem eq_cons_of_headD {k : TokenKind} (hend : ending.kind = .eof)
    (h : (body.headD ending).kind = k) (hk : k ≠ .eof) :
    ∃ t left, body = t :: left ∧ t.kind = k := by
  cases body with
  | nil => exact absurd (h.symm.trans hend) hk
  | cons t left => exact ⟨t, left, rfl, h⟩

end Outcomes

theorem bounded_expect {k : TokenKind} (hk : k ≠ .eof) : Bounded (expect k) := by
  intro body ending hend
  by_cases h : (body.headD ending).kind = k
  · obtain ⟨t, left, rfl, ht⟩ := eq_cons_of_headD hend h hk
    exact .ok (List.suffix_cons t left) fun behind => expect_cons ht _
  · refine .fail (.expected k (body.headD ending).kind) (headD_mem body ending) fun behind => ?_
    rw [expect, peek_append]
    exact if_neg h

theorem atom?_eq_error {t : Token} {f : ParseFault} (h : atom? t = .error f) : f = .tooLong := by
  unfold atom? at h
  split at h
  · rcases bind_eq_error h with h | ⟨v, -, h⟩
    · exact intLiteral_eq_error h
    · cases h
  all_goals cases h

section Operands

variable {inner : Step Expr} {body : List Token} {ending : Token}

theorem bounded_primary (hi : Bounded inner) : Bounded (primary inner) := by
  intro body ending hend
  simp only [primary, peek_append]
  cases ha : atom? (body.headD ending) with
  | error f =>
    refine .error (fun s hs => ?_) fun behind => rfl
    rw [atom?_eq_error ha] at hs
    cases hs
  | ok a =>
    cases a with
    | some e =>
      have hatom := atom?_eq_some_iff.mp ha
      obtain ⟨t, left, rfl, -⟩ := eq_cons_of_headD hend rfl hatom.isOperand.ne.1
      exact .ok (List.suffix_cons t left) fun behind => rfl
    | none =>
      show Stays body ending fun behind => ite _ _ _
      by_cases hk : (body.headD ending).kind = .lparen
      · obtain ⟨t, left, rfl, ht⟩ := eq_cons_of_headD hend hk (by decide)
        simp only [if_pos hk]
        refine Stays.mono ?_ (List.suffix_cons t left)
        refine (hi left ending hend).bind fun e left _ => ?_
        exact (bounded_expect (by decide) left ending hend).bind fun _ left _ =>
          .ok List.suffix_rfl fun behind => rfl
      · simp only [if_neg hk]
        by_cases he : (body.headD ending).kind = .eof
        · exact .fail .unexpectedEnd (headD_mem body ending) fun behind => if_pos he
        · exact .fail (.unexpectedToken _) (headD_mem body ending) fun behind => if_neg he

/-! ## Loops

The bound of a loop counts what stands behind the end as well. It is enough that it is no less than the
number of tokens before the end. -/

theorem exists_bound {n : Nat} {fuel : List Token → Nat} (h : ∀ behind, n + 1 ≤ fuel behind) :
    ∃ bound : List Token → Nat, (fuel = fun behind => bound behind + 1) ∧
      ∀ behind, n ≤ bound behind := by
  refine ⟨fun behind => fuel behind - 1, funext fun behind => ?_, fun behind => ?_⟩
  · have hpos := h behind
    dsimp only
    omega
  · have hpos := h behind
    dsimp only
    omega

theorem moreArguments_ends {ts : List Token} (h : (peek ts).kind ≠ .comma) (fuel : Nat) :
    moreArguments inner fuel ts = .ok ([], ts) := by
  cases fuel with
  | zero => rfl
  | succ fuel => exact if_neg h

theorem stays_moreArguments (hi : Bounded inner) (hend : ending.kind = .eof) (n : Nat)
    {body : List Token} (hn : body.length ≤ n) {fuel : List Token → Nat}
    (hf : ∀ behind, n ≤ fuel behind) :
    Stays body ending fun behind => moreArguments inner (fuel behind) (body ++ ending :: behind) := by
  -- by the number of tokens before the end, of which a turn takes at least one
  induction n generalizing body fuel with
  | zero =>
    obtain rfl := List.length_eq_zero_iff.mp (Nat.le_zero.mp hn)
    exact .ok List.suffix_rfl fun behind => moreArguments_ends (by simp [peek, hend]) _
  | succ n ih =>
    by_cases hk : (body.headD ending).kind = .comma
    · obtain ⟨t, left, rfl, ht⟩ := eq_cons_of_headD hend hk (by decide)
      obtain ⟨bound, rfl, hbound⟩ := exists_bound hf
      simp only [List.length_cons] at hn
      simp only [moreArguments, peek_append, if_pos hk]
      refine Stays.mono ?_ (List.suffix_cons t left)
      refine (hi left ending hend).bind fun e left' hleft => ?_
      have hn' : left'.length ≤ n := hleft.length_le.trans (by omega)
      refine (ih hn' hbound).bind fun es left _ => ?_
      dsimp only
      exact .ok List.suffix_rfl fun behind => rfl
    · exact .ok List.suffix_rfl fun behind => moreArguments_ends (by rwa [peek_append]) _

/-- The tokens before the end are no more than the tokens altogether. -/
theorem length_le_append (body : List Token) (ending : Token) (behind : List Token) :
    body.length ≤ (body ++ ending :: behind).length := by
  rw [List.length_append]
  omega

theorem bounded_arguments (hi : Bounded inner) : Bounded (arguments inner) := by
  intro body ending hend
  simp only [arguments, peek_append]
  by_cases hk : (body.headD ending).kind = .rparen
  · obtain ⟨t, left, rfl, ht⟩ := eq_cons_of_headD hend hk (by decide)
    exact .ok (List.suffix_cons t left) fun behind => if_pos hk
  · simp only [if_neg hk]
    refine (hi body ending hend).bind fun e left _ => ?_
    have hmore := stays_moreArguments hi hend left.length le_rfl (length_le_append left ending)
    refine hmore.bind fun es left _ => ?_
    refine (bounded_expect (by decide) left ending hend).bind fun _ left _ => ?_
    dsimp only
    exact .ok List.suffix_rfl fun behind => rfl

theorem stays_trailing (hi : Bounded inner) (hend : ending.kind = .eof) (n : Nat) (e : Expr)
    {body : List Token} (hn : body.length ≤ n) {fuel : List Token → Nat}
    (hf : ∀ behind, n ≤ fuel behind) :
    Stays body ending fun behind => trailing inner (fuel behind) e (body ++ ending :: behind) := by
  induction n generalizing e body fuel with
  | zero =>
    obtain rfl := List.length_eq_zero_iff.mp (Nat.le_zero.mp hn)
    exact .ok List.suffix_rfl fun behind =>
      trailing_ends inner (by simp [peek, hend]) e _
  | succ n ih =>
    by_cases hcall : (body.headD ending).kind = .lparen
    · obtain ⟨t, left, rfl, ht⟩ := eq_cons_of_headD hend hcall (by decide)
      obtain ⟨bound, rfl, hbound⟩ := exists_bound hf
      simp only [List.length_cons] at hn
      simp only [trailing, peek_append, if_pos hcall]
      cases hname : callee? e with
      | none => exact .fail .notCallable (headD_mem _ ending) fun behind => rfl
      | some function =>
        refine Stays.mono ?_ (List.suffix_cons t left)
        refine (bounded_arguments hi left ending hend).bind fun args left' hleft => ?_
        dsimp only
        exact ih _ (hleft.length_le.trans (by omega)) hbound
    by_cases hdot : (body.headD ending).kind = .dot
    · obtain ⟨t, left, rfl, ht⟩ := eq_cons_of_headD hend hdot (by decide)
      obtain ⟨bound, rfl, hbound⟩ := exists_bound hf
      simp only [List.length_cons] at hn
      simp only [trailing, peek_append, if_neg hcall, if_pos hdot]
      refine Stays.mono ?_ (List.suffix_cons t left)
      refine (bounded_expect (by decide) left ending hend).bind fun field left' hleft => ?_
      dsimp only
      exact ih _ (hleft.length_le.trans (by omega)) hbound
    · exact .ok List.suffix_rfl fun behind =>
        trailing_ends inner (by rw [peek_append]; exact ⟨hcall, hdot⟩) e _

theorem bounded_postfixed (hi : Bounded inner) : Bounded (postfixed inner) := by
  intro body ending hend
  refine (bounded_primary hi body ending hend).bind fun e left _ => ?_
  exact stays_trailing hi hend left.length e le_rfl (length_le_append left ending)

theorem bounded_unary (hi : Bounded inner) (budget : Nat) : Bounded (unary inner budget) := by
  induction budget with
  | zero => exact fun body ending _ => .error (by simp) fun behind => rfl
  | succ budget ih =>
    intro body ending hend
    simp only [unary, peek_append]
    cases hop : unaryOp? (body.headD ending).kind with
    | none => exact bounded_postfixed hi body ending hend
    | some op =>
      have hne : (body.headD ending).kind ≠ .eof := fun he => by
        rw [he] at hop
        cases hop
      obtain ⟨t, left, rfl, -⟩ := eq_cons_of_headD hend rfl hne
      refine Stays.mono ?_ (List.suffix_cons t left)
      refine (ih left ending hend).bind fun e left _ => ?_
      dsimp only
      exact .ok List.suffix_rfl fun behind => rfl

end Operands

/-! ## Levels -/

section Levels

variable {inner operand : Step Expr} {op? : TokenKind → Option BinaryOp} {body : List Token}
  {ending : Token}

/-- One turn of the loop over the operators of a level. -/
theorem stays_chainFrom_succ (ho : Bounded operand) (heof : op? .eof = none)
    (hend : ending.kind = .eof) {bound : List Token → Nat} (left : Expr)
    (hnext : ∀ e rest, rest.length < body.length →
      Stays rest ending fun behind =>
        chainFrom op? operand (bound behind) e (rest ++ ending :: behind)) :
    Stays body ending fun behind =>
      chainFrom op? operand (bound behind + 1) left (body ++ ending :: behind) := by
  cases hop : op? (body.headD ending).kind with
  | none => exact .ok List.suffix_rfl fun behind => chainFrom_ends (by rwa [peek_append]) left _
  | some op =>
    have hne : (body.headD ending).kind ≠ .eof := fun he => by
      rw [he, heof] at hop
      cases hop
    obtain ⟨t, rest, rfl, -⟩ := eq_cons_of_headD hend rfl hne
    simp only [chainFrom, peek_append, hop]
    refine Stays.mono ?_ (List.suffix_cons t rest)
    refine (ho rest ending hend).bind fun right rest' hrest => ?_
    dsimp only
    exact hnext _ rest' (Nat.lt_succ_of_le hrest.length_le)

theorem stays_chainFrom (ho : Bounded operand) (heof : op? .eof = none) (hend : ending.kind = .eof)
    (n : Nat) (left : Expr) {body : List Token} (hn : body.length ≤ n) {fuel : List Token → Nat}
    (hf : ∀ behind, n ≤ fuel behind) :
    Stays body ending fun behind =>
      chainFrom op? operand (fuel behind) left (body ++ ending :: behind) := by
  induction n generalizing left body fuel with
  | zero =>
    obtain rfl := List.length_eq_zero_iff.mp (Nat.le_zero.mp hn)
    exact .ok List.suffix_rfl fun behind => chainFrom_ends (by simp [peek, hend, heof]) left _
  | succ n ih =>
    obtain ⟨bound, rfl, hbound⟩ := exists_bound hf
    exact stays_chainFrom_succ ho heof hend left fun e rest hrest => ih e (by omega) hbound

theorem bounded_chain (ho : Bounded operand) (heof : op? .eof = none) :
    Bounded (chain op? operand) := by
  intro body ending hend
  refine (ho body ending hend).bind fun e left _ => ?_
  exact stays_chainFrom ho heof hend left.length e le_rfl (length_le_append left ending)

theorem bounded_single (ho : Bounded operand) (heof : op? .eof = none) :
    Bounded (single op? operand) := by
  intro body ending hend
  refine (ho body ending hend).bind fun e left _ => ?_
  have hnext (e : Expr) (rest : List Token) : Stays rest ending fun behind =>
      chainFrom op? operand 0 e (rest ++ ending :: behind) := .ok List.suffix_rfl fun _ => rfl
  exact stays_chainFrom_succ ho heof hend e fun e rest _ => hnext e rest

theorem bounded_disjunction (hi : Bounded inner) (budget : Nat) :
    Bounded (disjunction inner budget) := by
  have hproduct : Bounded (chain mulOp? _) := bounded_chain (bounded_unary hi budget) rfl
  have hsum : Bounded (chain addOp? _) := bounded_chain hproduct rfl
  have hcomparison : Bounded (single comparisonOp? _) := bounded_single hsum rfl
  have hconjunction : Bounded (chain andOp? _) := bounded_chain hcomparison rfl
  exact bounded_chain hconjunction rfl

theorem bounded_conditional (hi : Bounded inner) (budget : Nat) :
    Bounded (conditional inner budget) := by
  intro body ending hend
  refine (bounded_disjunction hi budget body ending hend).bind fun condition left _ => ?_
  simp only [peek_append]
  by_cases hk : (left.headD ending).kind = .question
  · obtain ⟨t, left, rfl, ht⟩ := eq_cons_of_headD hend hk (by decide)
    simp only [if_pos hk]
    refine Stays.mono ?_ (List.suffix_cons t left)
    refine (hi left ending hend).bind fun whenTrue left _ => ?_
    refine (bounded_expect (by decide) left ending hend).bind fun _ left _ => ?_
    refine (hi left ending hend).bind fun whenFalse left _ => ?_
    dsimp only
    exact .ok List.suffix_rfl fun behind => rfl
  · exact .ok List.suffix_rfl fun behind => if_neg hk

end Levels

/-- Whatever its budget, the parser stays before the end. -/
theorem bounded_expression (budget : Nat) : Bounded (expression budget) := by
  induction budget with
  | zero => exact fun body ending _ => .error (by simp) fun behind => rfl
  | succ budget ih => exact bounded_conditional ih (budget + 1)

/-! ## Whole texts -/

/-- A whole expression is read without a look behind the end, and refused at one of its tokens. -/
theorem exists_whole {ending : Token} (hend : ending.kind = .eof) (body : List Token) (budget : Nat) :
    ∃ r, (∀ behind, whole budget (body ++ ending :: behind) = r) ∧
      ∀ s, r = .error (.badSyntax s) → ∃ t ∈ body ++ [ending], t.position = s.position := by
  have hmem := headD_mem body ending
  simp only [whole, peek_append]
  by_cases hempty : (body.headD ending).kind = .eof
  · refine ⟨_, fun behind => if_pos hempty, fun s hs => ⟨_, hmem, ?_⟩⟩
    cases hs
    rfl
  simp only [if_neg hempty]
  cases bounded_expression budget body ending hend with
  | @ok e left hleft hrun =>
    simp only [hrun]
    show ∃ r, (∀ behind, (if (peek (left ++ ending :: behind)).kind = .eof then _ else _) = r) ∧ _
    simp only [peek_append]
    refine ⟨_, fun behind => rfl, fun s hs => ⟨left.headD ending, ?_, ?_⟩⟩
    · obtain ⟨front, rfl⟩ := hleft
      rw [List.append_assoc]
      exact List.mem_append_right _ (headD_mem left ending)
    · split at hs
      · cases hs
      · cases hs
        rfl
  | @error fault hf hrun =>
    simp only [hrun]
    exact ⟨.error fault, fun behind => rfl, fun s hs => hf s (Except.error.inj hs)⟩

/-- What may come of the tokens of a text of so many characters: their tree, a syntax error inside the
text, or giving up, for the budget or for a number that is too long. -/
def EndsInside (length : Nat) (tokens : List Token) (budget : Nat) : Except ParseFault Expr → Prop
  | .ok e => Derives .expression tokens.dropLast e
  | .error (.badSyntax s) => s.position ≤ length
  | .error .tooDeep => budget ≤ nesting tokens
  | .error .tooLong => ∃ t ∈ tokens, t.kind = .int ∧ intLiteral t.text = .error .tooLong

/-- **Reading a text ends inside the text.** With any budget, what comes of its tokens is accounted for,
the budget being used up only by as many tokens that nest. Nothing is looked at behind the end: whatever
stood there, the outcome would be the same. -/
theorem parse_endsInside (source : String) :
    match Token.scan source with
    | .error e => Expr.parse source = .error (.badSyntax e) ∧ e.position ≤ source.length
    | .ok tokens => Expr.parse source = whole depthLimit tokens ∧ ∀ budget,
        EndsInside source.length tokens budget (whole budget tokens) ∧
        (∀ behind, whole budget (tokens ++ behind) = whole budget tokens) ∧
        Bounded (expression budget) := by
  cases hs : Token.scan source with
  | error e => exact ⟨by rw [Expr.parse, hs], Token.position_le_of_scan_error hs⟩
  | ok tokens =>
    refine ⟨by rw [Expr.parse, hs], fun budget => ?_⟩
    have hplace : ∀ t ∈ tokens, t.position ≤ source.length := fun t ht =>
      Token.position_le_of_scan hs ht
    obtain ⟨body, position, rfl, hbody⟩ := Token.scan_eq_ok hs
    have hend : (⟨.eof, "", position⟩ : Token).kind = .eof := rfl
    obtain ⟨r, hr, hposition⟩ := exists_whole hend body budget
    refine ⟨?_, fun behind => ?_, bounded_expression budget⟩
    · cases h : whole budget (body ++ [⟨.eof, "", position⟩]) with
      | ok e =>
        show Derives .expression (body ++ [_]).dropLast e
        rw [List.dropLast_concat]
        exact whole_sound (Lexeme.eof_not_mem hbody) rfl h
      | error fault =>
        cases fault with
        | badSyntax s =>
          obtain ⟨t, ht, hp⟩ := hposition s ((hr []).symm.trans h)
          show s.position ≤ source.length
          exact hp ▸ hplace t ht
        | tooDeep => exact deserves_of_whole h
        | tooLong => exact deserves_of_whole h
    · rw [List.append_assoc]
      exact (hr behind).trans (hr []).symm

/-- A text that nests deep enough comes to neither a tree nor a syntax error. -/
theorem nested_given_up :
    (∀ e, Expr.parse (nestedText 4000) ≠ .ok e) ∧
      ∀ s, Expr.parse (nestedText 4000) ≠ .error (.badSyntax s) := by
  have hdepth : depthLimit ≤ 4000 := by decide
  obtain ⟨_, _, _, hparse⟩ := parse_nestedText hdepth
  rw [hparse]
  exact ⟨fun e => by simp, fun s => by simp⟩

end LiveForm.Parser
