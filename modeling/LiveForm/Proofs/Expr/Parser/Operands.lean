import LiveForm.Proofs.Expr.Parser.Steps

/-! # Reading operands

An operand is a primary with its arguments and accesses, behind any number of signs. The loop over
arguments and accesses goes on as long as tokens allow; each turn of it is one rule of the grammar. -/

namespace LiveForm.Parser

section Operands

variable {inner : Step Expr} {ends : TokenKind → Prop} {n : Nat}

/-! ## Operands -/

theorem reads_primary (hi : Reads inner (Derives .expression) ends n) (hends : ends .rparen) :
    Reads (primary inner) (Derives .primary) (fun _ => True) (n + 1) where
  sound ts e rest h := by
    obtain ⟨a, ha, h⟩ := bind_eq_ok h
    cases a with
    | some e' =>
      obtain ⟨rfl, rfl⟩ := Prod.mk.inj (Except.ok.inj h)
      have hatom := atom?_eq_some_iff.mp ha
      exact ⟨[peek ts], eq_cons_of_peek hatom.isOperand.ne.1, .atom hatom⟩
    | none =>
      dsimp only at h
      split at h
      · rename_i hk
        obtain ⟨⟨e', mid⟩, he, h⟩ := bind_eq_ok h
        obtain ⟨⟨closing, rest'⟩, hc, h⟩ := bind_eq_ok h
        obtain ⟨rfl, rfl⟩ := Prod.mk.inj (Except.ok.inj h)
        obtain ⟨body, hbody, hd⟩ := hi.sound _ _ _ he
        obtain ⟨rfl, hclosing⟩ := expect_eq_ok (by decide) hc
        refine ⟨peek ts :: body ++ [closing], ?_, .parentheses hk hd hclosing⟩
        exact (eq_cons_of_kind hk (by decide)).trans (by simp [hbody])
      · split at h <;> cases h
  complete body e rest h _ := by
    cases h with
    | @atom t _ ha =>
      refine .inl ?_
      simp only [primary, List.singleton_append, peek, atom?_eq_some_iff.mpr ha]
      rfl
    | @parentheses opening closing ts _ ho he hc =>
      have hin : Gives (inner (ts ++ closing :: rest)) (e, closing :: rest) :=
        hi.complete _ _ _ he (by simpa [peek, hc] using hends)
      simp only [primary, List.cons_append, List.append_assoc, List.nil_append, peek,
        atom?_eq_none ho, ho, List.drop_one, List.tail_cons]
      refine Gives.bind (.ok none) (Gives.bind hin ?_)
      exact .inl (by rw [expect_cons hc]; rfl)
  deserved ts f h := by
    rcases bind_eq_error h with h | ⟨a, ha, h⟩
    · exact deserves_of_atom? h _
    · cases a with
      | some e => cases h
      | none =>
        dsimp only at h
        split at h
        · rename_i hk
          have hts := eq_cons_of_kind hk (by decide)
          have hnest : nests (peek ts).kind := by simp [hk, nests]
          rcases bind_eq_error h with h | ⟨⟨e, mid⟩, he, h⟩
          · rw [hts]
            exact (hi.deserved _ _ h).nest hnest
          · have hmid : mid <:+ ts := (hi.suffix he).trans (List.drop_suffix 1 ts)
            rcases bind_eq_error h with h | ⟨⟨c, rest⟩, -, h⟩
            · exact (deserves_of_expect h (n + 1)).of_suffix hmid
            · cases h
        · split at h <;> (obtain rfl := Except.error.inj h; trivial)

/-! ## Arguments -/

/-- The arguments of a call together with the parenthesis that closes them. -/
def Closed (function : String) (body : List Token) (args : List Expr) : Prop :=
  ∃ init closing, body = init ++ [closing] ∧ closing.kind = .rparen ∧
    Derives (.arguments function) init (.call function args)

theorem moreArguments_sound (hi : Reads inner (Derives .expression) ends n) (fuel : Nat)
    {ts rest : List Token} {es : List Expr} (h : moreArguments inner fuel ts = .ok (es, rest)) :
    ∃ body, ts = body ++ rest ∧ ∀ function init e, Derives .expression init e →
      Derives (.arguments function) (init ++ body) (.call function (e :: es)) := by
  have hnone : ∃ body, ts = body ++ ts ∧ ∀ function init e, Derives .expression init e →
      Derives (.arguments function) (init ++ body) (.call function [e]) :=
    ⟨[], rfl, fun function init e he => by simpa using Derives.lastArgument he⟩
  induction fuel generalizing ts es with
  | zero =>
    obtain ⟨rfl, rfl⟩ := Prod.mk.inj (Except.ok.inj h)
    exact hnone
  | succ fuel ih =>
    unfold moreArguments at h
    split at h
    · rename_i hk
      obtain ⟨⟨next, mid⟩, hnext, h⟩ := bind_eq_ok h
      obtain ⟨⟨others, rest'⟩, hothers, h⟩ := bind_eq_ok h
      obtain ⟨rfl, rfl⟩ := Prod.mk.inj (Except.ok.inj h)
      obtain ⟨ns, hns, hd⟩ := hi.sound _ _ _ hnext
      obtain ⟨body, rfl, hbody⟩ := ih hothers
        ⟨[], rfl, fun function init e he => by simpa using Derives.lastArgument he⟩
      refine ⟨peek ts :: ns ++ body, ?_, fun function init e he => ?_⟩
      · exact (eq_cons_of_kind hk (by decide)).trans (by simp [hns])
      · simpa using Derives.nextArgument he hk (hbody function ns next hd)
    · obtain ⟨rfl, rfl⟩ := Prod.mk.inj (Except.ok.inj h)
      exact hnone

theorem moreArguments_complete (hi : Reads inner (Derives .expression) ends n)
    (hcomma : ends .comma) (hclose : ends .rparen) {function : String} {closing : Token}
    (hc : closing.kind = .rparen) (rest : List Token) {body : List Token} {e : Expr}
    {es : List Expr} (h : Derives (.arguments function) body (.call function (e :: es))) :
    ∃ init tail, body = init ++ tail ∧ Derives .expression init e ∧
      ends (peek (tail ++ closing :: rest)).kind ∧
      ∀ fuel, (tail ++ closing :: rest).length ≤ fuel →
        Gives (moreArguments inner fuel (tail ++ closing :: rest)) (es, closing :: rest) := by
  induction es generalizing body e with
  | nil =>
    cases h with
    | lastArgument he =>
      refine ⟨body, [], by simp, he, by simpa [peek, hc] using hclose, fun fuel hf => ?_⟩
      cases fuel with
      | zero => simp at hf
      | succ fuel => exact .inl (if_neg (by simp [peek, hc]))
  | cons next others ih =>
    cases h with
    | @nextArgument _ comma ts tail _ _ _ he hk hrest =>
      obtain ⟨init, tail', rfl, hnext, hend, hmore⟩ := ih hrest
      refine ⟨ts, comma :: (init ++ tail'), rfl, he, by simpa [peek, hk] using hcomma,
        fun fuel hf => ?_⟩
      cases fuel with
      | zero => simp at hf
      | succ fuel =>
        have hin := hi.complete _ _ (tail' ++ closing :: rest) hnext hend
        have hlen : (tail' ++ closing :: rest).length ≤ fuel := by
          simp only [List.cons_append, List.append_assoc, List.length_cons, List.length_append]
            at hf ⊢
          omega
        rw [moreArguments, if_pos (by simpa [peek] using hk)]
        simp only [List.cons_append, List.append_assoc, List.drop_one, List.tail_cons]
        exact Gives.bind hin (Gives.bind (hmore fuel hlen) (.ok _))

theorem moreArguments_deserves (hi : Reads inner (Derives .expression) ends n) (fuel : Nat)
    {ts : List Token} {f : ParseFault} (h : moreArguments inner fuel ts = .error f) :
    Deserves n ts f := by
  induction fuel generalizing ts with
  | zero => cases h
  | succ fuel ih =>
    unfold moreArguments at h
    split at h
    · rcases bind_eq_error h with h | ⟨⟨e, mid⟩, he, h⟩
      · exact (hi.deserved _ _ h).of_suffix (List.drop_suffix 1 ts)
      · have hmid : mid <:+ ts := (hi.suffix he).trans (List.drop_suffix 1 ts)
        rcases bind_eq_error h with h | ⟨⟨es, rest⟩, -, h⟩
        · exact (ih h).of_suffix hmid
        · cases h
    · cases h

theorem reads_arguments (hi : Reads inner (Derives .expression) ends n) (hcomma : ends .comma)
    (hclose : ends .rparen) (function : String) :
    Reads (arguments inner) (Closed function) (fun _ => True) n where
  sound ts args rest h := by
    unfold arguments at h
    split at h
    · rename_i hk
      obtain ⟨rfl, rfl⟩ := Prod.mk.inj (Except.ok.inj h)
      exact ⟨[peek ts], eq_cons_of_kind hk (by decide), [], peek ts, rfl, hk, .noArguments⟩
    · obtain ⟨⟨e, mid⟩, he, h⟩ := bind_eq_ok h
      obtain ⟨⟨es, mid'⟩, hes, h⟩ := bind_eq_ok h
      obtain ⟨⟨closing, rest'⟩, hc, h⟩ := bind_eq_ok h
      obtain ⟨rfl, rfl⟩ := Prod.mk.inj (Except.ok.inj h)
      obtain ⟨init, rfl, hd⟩ := hi.sound _ _ _ he
      obtain ⟨tail, rfl, htail⟩ := moreArguments_sound hi _ hes
      obtain ⟨rfl, hclosing⟩ := expect_eq_ok (by decide) hc
      exact ⟨init ++ tail ++ [closing], by simp, init ++ tail, closing, rfl, hclosing,
        htail function init e hd⟩
  complete body args rest h _ := by
    obtain ⟨init, closing, rfl, hc, hd⟩ := h
    cases args with
    | nil =>
      cases hd
      refine .inl ?_
      simp [arguments, peek, hc, pure, Except.pure]
    | cons e es =>
      obtain ⟨first, tail, rfl, he, hend, hmore⟩ := moreArguments_complete hi hcomma hclose hc rest hd
      have hin := hi.complete _ _ _ he hend
      obtain ⟨t, first', rfl, ht⟩ := he.expression_starts
      have hopen : ¬(peek (t :: first' ++ (tail ++ closing :: rest))).kind = .rparen := ht.2
      simp only [arguments, List.append_assoc, List.singleton_append, if_neg hopen]
      refine Gives.bind hin (Gives.bind (hmore _ (Nat.le_refl _)) ?_)
      exact .inl (by rw [expect_cons hc]; rfl)
  deserved ts f h := by
    unfold arguments at h
    split at h
    · cases h
    · rcases bind_eq_error h with h | ⟨⟨e, mid⟩, he, h⟩
      · exact hi.deserved _ _ h
      · have hmid := hi.suffix he
        rcases bind_eq_error h with h | ⟨⟨es, rest⟩, hes, h⟩
        · exact (moreArguments_deserves hi _ h).of_suffix hmid
        · obtain ⟨tail, htail, -⟩ := moreArguments_sound hi _ hes
          rcases bind_eq_error h with h | ⟨⟨c, rest'⟩, -, h⟩
          · exact (deserves_of_expect h n).of_suffix (.trans ⟨tail, htail.symm⟩ hmid)
          · cases h

/-! ## Accesses and calls -/

theorem callee?_eq_some {e : Expr} {function : String} (h : callee? e = some function) :
    e = .name function ∧ Text.hasChar '[' function = false := by
  unfold callee? at h
  split at h
  · rename_i id
    split at h
    · cases h
    · rename_i hb
      obtain rfl := Option.some.inj h
      exact ⟨rfl, by simpa using hb⟩
  · cases h

theorem callee?_name {function : String} (h : Text.hasChar '[' function = false) :
    callee? (.name function) = some function := by
  simp [callee?, h]

/-- What the loop has read so far stays a front part of the phrase. While the tree is still a name,
nothing but its tokens has been read. -/
theorem trailing_sound (hi : Reads inner (Derives .expression) ends n) (hcomma : ends .comma)
    (hclose : ends .rparen) (fuel : Nat) {init ts rest : List Token} {e e' : Expr}
    (hinit : Derives .accessed init e)
    (hcallee : ∀ function, callee? e = some function → Callee init function)
    (h : trailing inner fuel e ts = .ok (e', rest)) :
    ∃ body, ts = body ++ rest ∧ Derives .accessed (init ++ body) e' := by
  induction fuel generalizing init ts e with
  | zero =>
    obtain ⟨rfl, rfl⟩ := Prod.mk.inj (Except.ok.inj h)
    exact ⟨[], rfl, by simpa using hinit⟩
  | succ fuel ih =>
    unfold trailing at h
    dsimp only at h
    split at h
    · rename_i hk
      have hts := eq_cons_of_kind hk (by decide)
      split at h
      · rename_i function hf
        obtain ⟨⟨args, mid⟩, hargs, h⟩ := bind_eq_ok h
        obtain ⟨_, hmid, inside, closing, rfl, hclosing, hd⟩ :=
          (reads_arguments hi hcomma hclose function).sound _ _ _ hargs
        have hcall := Derives.call (hcallee function hf) hk hd hclosing
        obtain ⟨body, hbody, he⟩ := ih (.unaccessed hcall) (fun _ hc => by cases hc) h
        dsimp only at hmid hbody
        exact ⟨peek ts :: inside ++ [closing] ++ body, hts.trans (by simp [hmid, hbody]),
          by simpa using he⟩
      · cases h
    · split at h
      · rename_i hk
        have hts := eq_cons_of_kind hk (by decide)
        obtain ⟨⟨field, mid⟩, hfield, h⟩ := bind_eq_ok h
        obtain ⟨hmid, hident⟩ := expect_eq_ok (by decide) hfield
        obtain ⟨body, hbody, he⟩ := ih (.access hinit hk hident) (fun _ hc => by cases hc) h
        dsimp only at hbody
        exact ⟨peek ts :: field :: body, hts.trans (by simp [hmid, hbody]), by simpa using he⟩
      · obtain ⟨rfl, rfl⟩ := Prod.mk.inj (Except.ok.inj h)
        exact ⟨[], rfl, by simpa using hinit⟩

/-- A computation comes to a loop with at least some fuel, unless the budget does not suffice. -/
def Resumes {α : Type} (r : Except ParseFault α) (loop : Nat → Except ParseFault α) (fuel : Nat) :
    Prop := r = .error .tooDeep ∨ ∃ more, fuel ≤ more ∧ r = loop more

theorem Gives.resumes {α β : Type} {r : Except ParseFault α} {f : α → Except ParseFault β} {a : α}
    {loop : Nat → Except ParseFault β} {fuel : Nat} (hr : Gives r a) (hf : f a = loop fuel) :
    Resumes (r >>= f) loop fuel := by
  rcases hr with rfl | rfl
  · exact .inr ⟨fuel, Nat.le_refl fuel, hf⟩
  · exact .inl rfl

/-- One more turn of a loop, which spends some of its fuel. -/
theorem Resumes.turn {α : Type} {r : Except ParseFault α} {loop next : Nat → Except ParseFault α}
    {fuel rest : Nat} (h : Resumes r loop fuel) (hf : rest < fuel)
    (hturn : ∀ more, loop (more + 1) = .error .tooDeep ∨ loop (more + 1) = next more) :
    Resumes r next rest := by
  rcases h with rfl | ⟨more, hmore, rfl⟩
  · exact .inl rfl
  · obtain ⟨less, rfl⟩ : ∃ less, more = less + 1 := ⟨more - 1, by omega⟩
    exact (hturn less).imp id fun h => ⟨less, by omega, h⟩

theorem Resumes.gives {α : Type} {r : Except ParseFault α} {loop : Nat → Except ParseFault α}
    {fuel : Nat} {a : α} (h : Resumes r loop fuel) (hl : ∀ more, loop more = .ok a) : Gives r a := by
  rcases h with rfl | ⟨more, -, rfl⟩
  · exact .inr rfl
  · exact .inl (hl more)

theorem trailing_call (hi : Reads inner (Derives .expression) ends n) (hcomma : ends .comma)
    (hclose : ends .rparen) {opening closing : Token} {inside : List Token} {function : String}
    {args : List Expr} (hb : Text.hasChar '[' function = false) (ho : opening.kind = .lparen)
    (hd : Derives (.arguments function) inside (.call function args))
    (hc : closing.kind = .rparen) (rest : List Token) (fuel : Nat) :
    trailing inner (fuel + 1) (.name function) (opening :: inside ++ [closing] ++ rest) =
        .error .tooDeep ∨
      trailing inner (fuel + 1) (.name function) (opening :: inside ++ [closing] ++ rest) =
        trailing inner fuel (.call function args) rest := by
  have hargs := (reads_arguments hi hcomma hclose function).complete _ args rest
    ⟨inside, closing, rfl, hc, hd⟩ trivial
  rw [trailing]
  simp only [List.cons_append, peek, ho, if_true, callee?_name hb, List.drop_one, List.tail_cons]
  rcases hargs with hargs | hargs
  · exact .inr (by rw [hargs]; rfl)
  · exact .inl (by rw [hargs]; rfl)

theorem trailing_access (inner : Step Expr) {dot field : Token} (hdot : dot.kind = .dot)
    (hfield : field.kind = .ident) (e : Expr) (rest : List Token) (fuel : Nat) :
    trailing inner (fuel + 1) e ([dot, field] ++ rest) =
      trailing inner fuel (.access e field.text) rest := by
  rw [trailing]
  simp only [List.cons_append, List.nil_append, peek, hdot, List.drop_one, List.tail_cons,
    expect_cons hfield]
  rfl

theorem trailing_ends (inner : Step Expr) {ts : List Token}
    (h : (peek ts).kind ≠ .lparen ∧ (peek ts).kind ≠ .dot) (e : Expr) (fuel : Nat) :
    trailing inner fuel e ts = .ok (e, ts) := by
  cases fuel with
  | zero => rfl
  | succ fuel => simp [trailing, h.1, h.2]

/-- However the tokens go on, the loop comes to the point behind a phrase. -/
theorem postfixed_resumes (hi : Reads inner (Derives .expression) ends n) (hcomma : ends .comma)
    (hclose : ends .rparen) {body : List Token} {e : Expr} (h : Derives .accessed body e)
    (rest : List Token) :
    Resumes (postfixed inner (body ++ rest)) (fun fuel => trailing inner fuel e rest)
      rest.length := by
  generalize hp : Phrase.accessed = phrase at h
  induction h generalizing rest with
  | @access dot field ts e _ hdot hfield ih =>
    have hprev := ih ([dot, field] ++ rest) hp
    rw [← List.append_assoc] at hprev
    exact hprev.turn (length_lt_cons_append dot [field] rest) fun more =>
      .inr (trailing_access inner hdot hfield e rest more)
  | unaccessed hcalled =>
    have hprimary := (reads_primary hi hclose).complete
    cases hcalled with
    | uncalled hd => exact (hprimary _ _ rest hd trivial).resumes rfl
    | @call opening closing ts inside function e hcallee ho hd hc =>
      obtain ⟨args, rfl⟩ := hd.arguments_eq
      obtain ⟨hname, hb⟩ := hcallee.primary
      have hprev : Resumes (postfixed inner (ts ++ (opening :: inside ++ [closing] ++ rest)))
          (fun fuel => trailing inner fuel (.name function) (opening :: inside ++ [closing] ++ rest))
          (opening :: inside ++ [closing] ++ rest).length :=
        (hprimary _ _ _ hname trivial).resumes rfl
      have hsplit : ts ++ opening :: inside ++ [closing] ++ rest =
          ts ++ (opening :: inside ++ [closing] ++ rest) := by simp
      rw [hsplit]
      exact hprev.turn (length_lt_cons_append opening (inside ++ [closing]) rest) fun more =>
        trailing_call hi hcomma hclose hb ho hd hc rest more
  | _ => cases hp

theorem trailing_deserves (hi : Reads inner (Derives .expression) ends n) (hcomma : ends .comma)
    (hclose : ends .rparen) (fuel : Nat) {e : Expr} {ts : List Token} {f : ParseFault}
    (h : trailing inner fuel e ts = .error f) : Deserves (n + 1) ts f := by
  induction fuel generalizing e ts with
  | zero => cases h
  | succ fuel ih =>
    unfold trailing at h
    dsimp only at h
    split at h
    · rename_i hk
      have hts := eq_cons_of_kind hk (by decide)
      split at h
      · rename_i function hf
        have hargs := reads_arguments hi hcomma hclose function
        rcases bind_eq_error h with h | ⟨⟨args, mid⟩, hok, h⟩
        · rw [hts]
          exact (hargs.deserved _ _ h).nest (by simp [hk, nests])
        · exact (ih h).of_suffix ((hargs.suffix hok).trans (List.drop_suffix 1 ts))
      · obtain rfl := Except.error.inj h
        trivial
    · split at h
      · rcases bind_eq_error h with h | ⟨⟨field, mid⟩, hok, h⟩
        · exact (deserves_of_expect h _).of_suffix (List.drop_suffix 1 ts)
        · have hmid := suffix_of_expect (by decide) hok
          exact (ih h).of_suffix (hmid.trans (List.drop_suffix 1 ts))
      · cases h

/-- The kinds of tokens behind which no argument list and no access follows. -/
def EndsOperand (k : TokenKind) : Prop := k ≠ .lparen ∧ k ≠ .dot

theorem reads_postfixed (hi : Reads inner (Derives .expression) ends n) (hcomma : ends .comma)
    (hclose : ends .rparen) : Reads (postfixed inner) (Derives .accessed) EndsOperand (n + 1) where
  sound ts e rest h := by
    obtain ⟨⟨e', mid⟩, he, htrailing⟩ := bind_eq_ok h
    obtain ⟨init, hinit, hd⟩ := (reads_primary hi hclose).sound _ _ _ he
    have hcallee : ∀ function, callee? e' = some function → Callee init function := by
      intro function hf
      obtain ⟨rfl, hb⟩ := callee?_eq_some hf
      exact hd.callee hb
    obtain ⟨body, hbody, hbodies⟩ :=
      trailing_sound hi hcomma hclose _ (.unaccessed (.uncalled hd)) hcallee htrailing
    exact ⟨init ++ body, by simp [hinit, hbody], hbodies⟩
  complete body e rest h hend :=
    (postfixed_resumes hi hcomma hclose h rest).gives (trailing_ends inner hend e)
  deserved ts f h := by
    have hprimary := reads_primary hi hclose
    rcases bind_eq_error h with h | ⟨⟨e, mid⟩, he, h⟩
    · exact hprimary.deserved _ _ h
    · exact (trailing_deserves hi hcomma hclose _ h).of_suffix (hprimary.suffix he)

/-! ## Signs -/

theorem unaryOp?_eq_some_iff {k : TokenKind} {op : UnaryOp} : unaryOp? k = some op ↔ Sign k op := by
  constructor
  · intro h
    cases k <;> simp [unaryOp?] at h <;> subst h <;> constructor
  · intro h
    cases h <;> rfl

theorem unaryOp?_eq_none {k : TokenKind} (h : k.IsOperand) : unaryOp? k = none := by
  cases hs : unaryOp? k with
  | none => rfl
  | some op => cases unaryOp?_eq_some_iff.mp hs <;> simp [TokenKind.IsOperand] at h

theorem nests_of_sign {k : TokenKind} {op : UnaryOp} (h : Sign k op) : nests k := by
  cases h <;> rfl

theorem reads_unary (hi : Reads inner (Derives .expression) ends n) (hcomma : ends .comma)
    (hclose : ends .rparen) (budget : Nat) :
    Reads (unary inner budget) (Derives .signed) EndsOperand (min budget (n + 1)) := by
  have hoperand := reads_postfixed hi hcomma hclose
  induction budget with
  | zero =>
    constructor
    case sound => intro ts e rest h; cases h
    case complete => intro body e rest _ _; exact .inr rfl
    case deserved =>
      intro ts f h
      obtain rfl := Except.error.inj h
      simp [Deserves]
  | succ budget ih =>
    constructor
    case sound =>
      intro ts e rest h
      unfold unary at h
      split at h
      · rename_i op hop
        have hsign := unaryOp?_eq_some_iff.mp hop
        have hts := eq_cons_of_peek hsign.ne.1
        obtain ⟨⟨e', mid⟩, he, h⟩ := bind_eq_ok h
        obtain ⟨rfl, rfl⟩ := Prod.mk.inj (Except.ok.inj h)
        obtain ⟨body, hbody, hd⟩ := ih.sound _ _ _ he
        exact ⟨peek ts :: body, hts.trans (by simp [hbody]), .signed hsign hd⟩
      · obtain ⟨body, hbody, hd⟩ := hoperand.sound _ _ _ h
        exact ⟨body, hbody, .unsigned hd⟩
    case complete =>
      intro body e rest h hend
      rw [unary.eq_def]
      cases h with
      | signed hs hd =>
        simp only [List.cons_append, peek, unaryOp?_eq_some_iff.mpr hs, List.drop_one, List.tail_cons]
        exact (ih.complete _ _ rest hd hend).bind (.ok _)
      | unsigned hd =>
        obtain ⟨t, front, rfl, ht⟩ := hd.starts (by simp)
        simp only [List.cons_append, peek, unaryOp?_eq_none ht]
        exact hoperand.complete _ _ rest hd hend
    case deserved =>
      intro ts f h
      unfold unary at h
      split at h
      · rename_i op hop
        have hsign := unaryOp?_eq_some_iff.mp hop
        rw [eq_cons_of_peek hsign.ne.1]
        rcases bind_eq_error h with h | ⟨a, -, h⟩
        · exact ((ih.deserved _ _ h).nest (nests_of_sign hsign)).of_le (by omega)
        · cases h
      · exact (hoperand.deserved _ _ h).of_le (by omega)

end Operands

end LiveForm.Parser
