import LiveForm.Proofs.Expr.Lexemes
import LiveForm.Proofs.Expr.Parser.Levels

/-! # The parser decides the grammar

A text is read as the one tree that its tokens derive, and is refused when they derive none. Only the
budget stands between: a text that nests more than it allows is given up, whatever it derives. -/

namespace LiveForm

theorem Callee.eof_not_mem {ts : List Token} {function : String} (h : Callee ts function) :
    .eof ∉ ts.map Token.kind := by
  induction h with
  | name ha _ => simpa using ha.isOperand.ne.1.symm
  | parentheses ho _ hc ih => simp [ho, hc, ih]

/-- No phrase goes past the end. -/
theorem Derives.eof_not_mem {phrase : Phrase} {ts : List Token} {e : Expr}
    (h : Derives phrase ts e) : .eof ∉ ts.map Token.kind := by
  induction h with
  | choice _ hquestion _ hcolon _ ihc iht ihf => simp [hquestion, hcolon, ihc, iht, ihf]
  | chained _ _ hop _ ihl ihr | compared _ hop _ ihl ihr => simp [hop.ne_eof.symm, ihl, ihr]
  | signed hs _ ih => simp [hs.ne.1.symm, ih]
  | access _ hdot hfield ih => simp [hdot, hfield, ih]
  | call hc ho _ hclosing ih => simp [hc.eof_not_mem, ho, hclosing, ih]
  | atom ha => simpa using ha.isOperand.ne.1.symm
  | parentheses ho _ hc ih => simp [ho, hc, ih]
  | noArguments => simp
  | nextArgument _ hk _ ihe ihr => simp [hk, ihe, ihr]
  | unconditional _ ih | operand _ ih | unsigned _ ih | unaccessed _ ih | uncalled _ ih
  | lastArgument _ ih => exact ih

namespace Parser

/-- With a budget beyond the nesting of the tokens nothing is given up. -/
theorem expression_eq_ok {ts : List Token} {e : Expr} (h : Derives .expression ts e) {ending : Token}
    (hend : ending.kind = .eof) {budget : Nat} (hb : nesting (ts ++ [ending]) < budget) :
    expression budget (ts ++ [ending]) = .ok (e, [ending]) := by
  have hread := reads_expression budget
  rcases hread.complete ts e [ending] h (by simp [EndsExpression, peek, hend]) with hok | herr
  · exact hok
  · have hdeep : budget ≤ nesting (ts ++ [ending]) := hread.deserved _ _ herr
    omega

end Parser

/-- **The grammar is unambiguous.** -/
theorem Derives.unique {ts : List Token} {e e' : Expr} (h : Derives .expression ts e)
    (h' : Derives .expression ts e') : e = e' := by
  let ending : Token := ⟨.eof, "", 0⟩
  have hend : ending.kind = .eof := rfl
  have hb := Nat.lt_succ_self (Parser.nesting (ts ++ [ending]))
  have hok := Parser.expression_eq_ok h hend hb
  rw [Parser.expression_eq_ok h' hend hb] at hok
  exact (Prod.mk.inj (Except.ok.inj hok)).1.symm

namespace Parser

section Whole

variable {body : List Token} {ending : Token} {budget : Nat} {e : Expr}

theorem whole_sound (hbody : .eof ∉ body.map Token.kind) (hend : ending.kind = .eof)
    (h : whole budget (body ++ [ending]) = .ok e) : Derives .expression body e := by
  unfold whole at h
  split at h
  · cases h
  · obtain ⟨⟨e', rest⟩, he, h⟩ := bind_eq_ok h
    dsimp only at h
    split at h
    · rename_i hk
      obtain rfl := Except.ok.inj h
      obtain ⟨front, hfront, hd⟩ := (reads_expression budget).sound _ _ _ he
      -- The end stands neither in the phrase nor before what is left, which starts with it.
      rcases List.append_eq_append_iff.mp hfront with ⟨more, rfl, hmore⟩ | ⟨more, rfl, rfl⟩
      · cases more with
        | nil => simpa using hd
        | cons t more =>
          obtain ⟨rfl, -⟩ := List.cons.inj hmore
          exact absurd (by simp [hend]) hd.eof_not_mem
      · cases more with
        | nil => simpa using hd
        | cons t more =>
          have ht : t.kind = .eof := hk
          exact absurd (by simp [ht]) hbody
    · cases h

theorem whole_complete (hd : Derives .expression body e) (hend : ending.kind = .eof) :
    Gives (whole budget (body ++ [ending])) e := by
  obtain ⟨t, rest, rfl, ht, -⟩ := hd.expression_starts
  unfold whole
  rw [if_neg (by simpa [peek] using ht)]
  refine ((reads_expression budget).complete _ e [ending] hd ?_).bind (.inl (if_pos hend))
  simp [EndsExpression, peek, hend]

theorem deserves_of_whole {ts : List Token} {f : ParseFault} (h : whole budget ts = .error f) :
    Deserves budget ts f := by
  unfold whole at h
  split at h
  · obtain rfl := Except.error.inj h
    trivial
  · rcases bind_eq_error h with h | ⟨⟨e, rest⟩, -, h⟩
    · exact (reads_expression budget).deserved _ _ h
    · dsimp only at h
      split at h
      · cases h
      · obtain rfl := Except.error.inj h
        trivial

/-- A text whose tokens derive a tree is read as that tree, unless it nests too deep. -/
theorem parse_eq_ok {source : String} (hs : Token.scan source = .ok (body ++ [ending]))
    (hend : ending.kind = .eof) (hd : Derives .expression body e)
    (hb : nesting (body ++ [ending]) < depthLimit) : Expr.parse source = .ok e := by
  rw [Expr.parse, hs]
  show whole depthLimit (body ++ [ending]) = .ok e
  have hgives : Gives (whole depthLimit (body ++ [ending])) e := whole_complete hd hend
  rcases hgives with hok | herr
  · exact hok
  · have hdeep : depthLimit ≤ nesting (body ++ [ending]) := deserves_of_whole herr
    omega

end Whole

/-- An outcome of reading says what the tokens derive: the tree, or by a syntax error that there is
none. -/
structure Decides (r : Except ParseFault Expr) (ts : List Token) : Prop where
  tree : ∀ e, r = .ok e ↔ Derives .expression ts e
  refusal : (¬∃ e, Derives .expression ts e) → ∃ s, r = .error (.badSyntax s)

/-- **The parser decides the grammar, which is unambiguous.** For a text that scans, with its whole
numbers readable, the parser answers with the tree that the tokens before the end derive, or with a
syntax error when they derive none. It gives up instead only where the tokens that nest, `(`, `?`,
signs and negations, are at least as many as its budget. -/
theorem whole_decides {source : String} {tokens : List Token}
    (hs : Token.scan source = .ok tokens)
    (hr : ∀ t ∈ tokens, t.kind = .int → ∃ v, intLiteral t.text = .ok v) :
    (∀ budget, Decides (whole budget tokens) tokens.dropLast ∨
      whole budget tokens = .error .tooDeep ∧ budget ≤ nesting tokens) ∧
    ∀ ts e e', Derives .expression ts e → Derives .expression ts e' → e = e' := by
  refine ⟨fun budget => ?_, fun ts e e' h h' => h.unique h'⟩
  obtain ⟨body, position, rfl, hbody⟩ := Token.scan_eq_ok hs
  have hne := Lexeme.eof_not_mem hbody
  rw [List.dropLast_concat]
  cases h : whole budget (body ++ [⟨.eof, "", position⟩]) with
  | ok e =>
    have hd := whole_sound hne rfl h
    refine .inl ⟨fun e' => ⟨fun he => ?_, fun hd' => ?_⟩, fun hnone => absurd ⟨e, hd⟩ hnone⟩
    · obtain rfl := Except.ok.inj he
      exact hd
    · rw [hd.unique hd']
  | error f =>
    have hdeserves := deserves_of_whole h
    cases f with
    | badSyntax s =>
      refine .inl ⟨fun e => ⟨fun he => (by cases he), fun hd => ?_⟩, fun _ => ⟨s, rfl⟩⟩
      have hgives : Gives (whole budget (body ++ [⟨.eof, "", position⟩])) e := whole_complete hd rfl
      rw [h] at hgives
      rcases hgives with hok | herr
      · cases hok
      · cases herr
    | tooDeep => exact .inr ⟨rfl, hdeserves⟩
    | tooLong =>
      obtain ⟨t, ht, hk, hl⟩ := hdeserves
      obtain ⟨v, hv⟩ := hr t ht hk
      rw [hv] at hl
      cases hl

/-- Differences group to the left, and the parser reads them so. -/
theorem whole_decides_difference :
    ∃ tokens, Token.scan "5 - 2 - x" = .ok tokens ∧
      (∀ t ∈ tokens, t.kind = .int → ∃ v, intLiteral t.text = .ok v) ∧
      Derives .expression tokens.dropLast
        (.binary .sub (.binary .sub (.literal (.int 5)) (.literal (.int 2))) (.name "x")) := by
  have hs : Token.scan "5 - 2 - x" = .ok
      [⟨.int, "5", 0⟩, ⟨.minus, "-", 2⟩, ⟨.int, "2", 4⟩, ⟨.minus, "-", 6⟩, ⟨.ident, "x", 8⟩,
        ⟨.eof, "", 9⟩] := by decide +kernel
  have hr : ∀ t ∈ [⟨.int, "5", 0⟩, ⟨.minus, "-", 2⟩, ⟨.int, "2", 4⟩, ⟨.minus, "-", 6⟩,
      ⟨.ident, "x", 8⟩, (⟨.eof, "", 9⟩ : Token)], t.kind = .int → ∃ v, intLiteral t.text = .ok v := by
    simp only [List.mem_cons, List.not_mem_nil, or_false]
    rintro t (rfl | rfl | rfl | rfl | rfl | rfl) hk
    · exact ⟨.int 5, rfl⟩
    · cases hk
    · exact ⟨.int 2, rfl⟩
    all_goals cases hk
  refine ⟨_, hs, hr, ?_⟩
  rcases (whole_decides hs hr).1 depthLimit with hd | ⟨-, hdeep⟩
  · exact (hd.tree _).mp (by rfl)
  · exact absurd hdeep (by decide)

/-! ## Nesting beyond the budget -/

/-- A number in parentheses, one pair in the other. -/
def nestedText (depth : Nat) : String :=
  String.ofList (List.replicate depth '(' ++ '1' :: List.replicate depth ')')

theorem scanFrom_mark {c : Char} {cs : List Char} {kind : TokenKind}
    (hc : Token.lexeme? (c :: cs) = some (some kind, 1)) (hk : kind ≠ .ident) {position : Nat}
    {tokens : List Token}
    (h : Token.scanFrom (position + 1) 0 cs = .ok tokens) :
    Token.scanFrom position 0 (c :: cs) = .ok (⟨kind, String.ofList [c], position⟩ :: tokens) := by
  rw [Token.scanFrom, hc]
  simp [h, Token.ofLexeme, hk, bind, Except.bind, pure, Except.pure]

/-- Marks of one character each are scanned one by one. -/
theorem scanFrom_marks {c : Char} {kind : TokenKind}
    (hc : ∀ rest, Token.lexeme? (c :: rest) = some (some kind, 1)) (hk : kind ≠ .ident) (n : Nat)
    (position : Nat) {cs : List Char} {tokens : List Token}
    (h : Token.scanFrom (position + n) 0 cs = .ok tokens) :
    ∃ marks, Token.scanFrom position 0 (List.replicate n c ++ cs) = .ok (marks ++ tokens) ∧
      marks.length = n ∧ ∀ t ∈ marks, t.kind = kind := by
  induction n generalizing position with
  | zero => exact ⟨[], h, rfl, by simp⟩
  | succ n ih =>
    have hrest : Token.scanFrom (position + 1 + n) 0 cs = .ok tokens := by
      rwa [Nat.add_right_comm, Nat.add_assoc]
    obtain ⟨marks, hmarks, hlength, hkinds⟩ := ih (position + 1) hrest
    refine ⟨_ :: marks, scanFrom_mark (hc _) hk hmarks, by simp [hlength], ?_⟩
    simpa using hkinds

theorem derives_nested {opening closing : List Token} {t : Token} {e : Expr}
    (hlength : opening.length = closing.length) (ho : ∀ t ∈ opening, t.kind = .lparen)
    (hc : ∀ t ∈ closing, t.kind = .rparen) (ht : Atom t e) :
    Derives .primary (opening ++ t :: closing) e := by
  induction opening generalizing closing with
  | nil =>
    obtain rfl := List.length_eq_zero_iff.mp hlength.symm
    exact .atom ht
  | cons first opening ih =>
    rcases closing.eq_nil_or_concat with rfl | ⟨closing, last, rfl⟩
    · cases hlength
    · have hsame : opening.length = closing.length := by simpa using hlength
      have hinner := ih hsame (fun t ht => ho t (by simp [ht])) (fun t ht => hc t (by simp [ht]))
      simpa using Derives.parentheses (ho first (by simp)) hinner.of_primary (hc last (by simp))

theorem expression_opening (budget : Nat) {opening rest : List Token}
    (hlength : budget ≤ opening.length) (ho : ∀ t ∈ opening, t.kind = .lparen) :
    expression budget (opening ++ rest) = .error .tooDeep := by
  induction budget generalizing opening with
  | zero => rfl
  | succ budget ih =>
    cases opening with
    | nil => cases hlength
    | cons t opening =>
      have ht : t.kind = .lparen := ho t (by simp)
      have hlength : budget ≤ opening.length := by simpa using hlength
      have hinner := ih hlength fun u hu => ho u (by simp [hu])
      have hunary : unary (expression budget) (budget + 1) (t :: (opening ++ rest)) =
          .error .tooDeep := by
        simp [unary, peek, ht, unaryOp?, postfixed, primary, atom?, hinner, bind, Except.bind]
      simp [expression, conditional, disjunction, chain, single, hunary, bind, Except.bind]

/-- Tokens that derive a tree are not read where they nest beyond the budget. -/
theorem parse_nestedText {depth : Nat} (h : depthLimit ≤ depth) :
    ∃ tokens, Token.scan (nestedText depth) = .ok tokens ∧
      Derives .expression tokens.dropLast (.literal (.int 1)) ∧
      Expr.parse (nestedText depth) = .error .tooDeep := by
  have hopen : ∀ rest, Token.lexeme? ('(' :: rest) = some (some .lparen, 1) := fun rest => rfl
  have hclose : ∀ rest, Token.lexeme? (')' :: rest) = some (some .rparen, 1) := fun rest => rfl
  have hone : Token.lexeme? ('1' :: List.replicate depth ')') = some (some .int, 1) := by
    cases depth <;> rfl
  let number : Token := ⟨.int, "1", depth⟩
  let ending : Token := ⟨.eof, "", depth + 1 + depth⟩
  have hend : Token.scanFrom (depth + 1 + depth) 0 [] = .ok [ending] := rfl
  obtain ⟨closing, hclosing, hclosings, hrparen⟩ :=
    scanFrom_marks hclose (by decide) depth (depth + 1) hend
  rw [List.append_nil] at hclosing
  have hnumber : Token.scanFrom (0 + depth) 0 ('1' :: List.replicate depth ')') =
      .ok (number :: (closing ++ [ending])) := by
    rw [Nat.zero_add]
    exact scanFrom_mark hone (by decide) hclosing
  obtain ⟨opening, hscan, hopenings, hlparen⟩ :=
    scanFrom_marks hopen (by decide) depth 0 hnumber
  have hs : Token.scan (nestedText depth) = .ok (opening ++ number :: (closing ++ [ending])) := by
    rw [Token.scan, nestedText, String.toList_ofList]
    exact hscan
  refine ⟨_, hs, ?_, ?_⟩
  · have hone : intLiteral "1" = .ok (.int 1) := rfl
    have hd : Derives .primary (opening ++ number :: closing) (.literal (.int 1)) :=
      derives_nested (hopenings.trans hclosings.symm) hlparen hrparen (.int rfl hone)
    rw [← List.cons_append, ← List.append_assoc, List.dropLast_concat]
    exact hd.of_primary
  · have hfirst : (peek (opening ++ number :: (closing ++ [ending]))).kind ≠ .eof := by
      cases opening with
      | nil => simp [peek, number]
      | cons t opening => simp [peek, hlparen t (by simp)]
    have hdeep : expression depthLimit (opening ++ number :: (closing ++ [ending])) =
        .error .tooDeep := expression_opening depthLimit (h.trans_eq hopenings.symm) hlparen
    rw [Expr.parse, hs]
    simp [whole, hfirst, hdeep, bind, Except.bind]

theorem nested_not_read :
    ∃ tokens, Token.scan (nestedText 4000) = .ok tokens ∧
      Derives .expression tokens.dropLast (.literal (.int 1)) ∧
      Expr.parse (nestedText 4000) = .error .tooDeep :=
  parse_nestedText (by decide)

end Parser

end LiveForm
