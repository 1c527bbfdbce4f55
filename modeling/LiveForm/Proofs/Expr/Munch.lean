import LiveForm.Proofs.Expr.Patterns

/-! # The first lexeme of a text

Patterns are tried in order, and the first that matches gives the lexeme. The order is such that this
is the longest text of any kind that the text starts with, and that its kind is the only one it can
have. -/

namespace LiveForm

open Text

/-! ## Classes of characters -/

/-- The code points of white space. -/
def blankCodes : List Nat :=
  [9, 10, 11, 12, 13, 28, 29, 30, 31, 32, 0x85, 0xa0, 0x1680, 0x2000, 0x2001, 0x2002, 0x2003, 0x2004,
   0x2005, 0x2006, 0x2007, 0x2008, 0x2009, 0x200a, 0x2028, 0x2029, 0x202f, 0x205f, 0x3000]

/-- A set of ranges holds what its first range holds and what the others do. -/
theorem memberFrom_cons_cons {first after n : Nat} {rest : List Nat}
    (h : Ranges.memberFrom false (first :: after :: rest) n) :
    (first ≤ n ∧ n < after) ∨ Ranges.memberFrom false rest n := by
  unfold Ranges.memberFrom at h
  split at h
  · cases h
  · unfold Ranges.memberFrom at h
    split at h
    · exact .inl (by omega)
    · exact .inr h

theorem mem_blankCodes {c : Char} (h : isBlank c) : c.toNat ∈ blankCodes := by
  simp only [blankCodes, List.mem_cons, List.not_mem_nil, or_false]
  unfold isBlank at h
  split at h
  · simp only [Bool.or_eq_true, Bool.and_eq_true, decide_eq_true_eq] at h
    omega
  · unfold Ranges.member Ranges.blank at h
    iterate 8
      rcases memberFrom_cons_cons h with hc | h
      · omega
    cases h

/-- White space is in no other class. -/
theorem isBlank_apart {c : Char} (h : isBlank c) :
    isDecimal c = false ∧ isIdentStart c = false ∧ isIdentPart c = false := by
  have hall : ∀ n ∈ blankCodes, isDecimal (Char.ofNat n) = false ∧
      isIdentStart (Char.ofNat n) = false ∧ isIdentPart (Char.ofNat n) = false := by decide +kernel
  have hc := hall c.toNat (mem_blankCodes h)
  rwa [Char.ofNat_toNat] at hc

theorem isIdentStart_apart {c : Char} (h : isIdentStart c) :
    isBlank c = false ∧ isDecimal c = false ∧ c ≠ '.' ∧ c ≠ '"' ∧ c ≠ '\'' := by
  have hn : c.toNat < 128 := by
    simp only [isIdentStart, isAsciiLetter, isAsciiLower, isAsciiUpper, Bool.or_eq_true,
      Bool.and_eq_true, decide_eq_true_eq, beq_iff_eq] at h
    rcases h with (h | rfl) | rfl
    · omega
    · decide
    · decide
  have hall : ∀ n < 128, isIdentStart (Char.ofNat n) →
      isBlank (Char.ofNat n) = false ∧ isDecimal (Char.ofNat n) = false ∧ Char.ofNat n ≠ '.' ∧
        Char.ofNat n ≠ '"' ∧ Char.ofNat n ≠ '\'' := by decide +kernel
  have hc := hall c.toNat hn
  rw [Char.ofNat_toNat] at hc
  exact hc h

theorem not_isBlank_of_isDecimal {c : Char} (h : isDecimal c) : isBlank c = false := by
  by_contra hb
  rw [(isBlank_apart (by simpa using hb)).1] at h
  cases h

/-- A quote is in no class of characters, and it is no dot, no backslash and no line break. -/
theorem quote_apart {quote : Char} (h : quote = '"' ∨ quote = '\'') :
    isBlank quote = false ∧ isDecimal quote = false ∧ isIdentStart quote = false ∧ quote ≠ '.' ∧
      quote ≠ '\\' ∧ quote ≠ '\n' := by
  rcases h with rfl | rfl <;> decide

/-! ## Which pattern is the first to match -/

namespace Token

section First

variable {cs rest : List Char} {c : Char}

theorem lexeme?_of_blank (h : isBlank c) :
    lexeme? (c :: rest) = some (none, Pattern.run isBlank (c :: rest)) := by
  have hrun : Pattern.run isBlank (c :: rest) ≠ 0 := by
    rw [Pattern.run_cons_of_pos h]
    omega
  simp [lexeme?, patterns, hrun]

/-- A number with a point or an exponent is tried before whole numbers and the dot. -/
theorem lexeme?_of_float (h : Pattern.float cs ≠ 0) :
    lexeme? cs = some (some .float, Pattern.float cs) := by
  have hblank : Pattern.run isBlank cs = 0 := by
    obtain ⟨w, rest, rfl, -, hw⟩ := Pattern.munches_float.sound cs h
    obtain ⟨c, tail, rfl, hc⟩ := hw.exists_head
    refine Pattern.run_cons_of_neg ?_
    rcases hc with hc | rfl
    · exact not_isBlank_of_isDecimal hc
    · decide
  simp [lexeme?, patterns, hblank, h]

theorem lexeme?_of_digit (hc : isDecimal c) (h : Pattern.float (c :: rest) = 0) :
    lexeme? (c :: rest) = some (some .int, Pattern.run isDecimal (c :: rest)) := by
  have hrun : Pattern.run isDecimal (c :: rest) ≠ 0 := by
    rw [Pattern.run_cons_of_pos hc]
    omega
  simp [lexeme?, patterns, Pattern.run_cons_of_neg (not_isBlank_of_isDecimal hc), h, hrun]

theorem lexeme?_of_dot (h : Pattern.float ('.' :: rest) = 0) :
    lexeme? ('.' :: rest) = some (some .dot, 1) := by
  have hblank : isBlank '.' = false := by decide
  have hdecimal : isDecimal '.' = false := by decide
  have hstart : isIdentStart '.' = false := by decide
  simp [lexeme?, patterns, Pattern.run_cons_of_neg hblank, h, Pattern.run_cons_of_neg hdecimal,
    Pattern.text, Pattern.rowName, Pattern.ident, hstart, Pattern.exact]

/-- Neither a name nor a text starts as a number does. -/
theorem float_eq_zero (hc : isDecimal c = false) (hdot : c ≠ '.') : Pattern.float (c :: rest) = 0 := by
  by_contra h
  obtain ⟨w, tail, hsplit, -, hw⟩ := Pattern.munches_float.sound _ h
  obtain ⟨d, w, rfl, hd⟩ := hw.exists_head
  obtain rfl := (List.cons.inj hsplit).1
  rcases hd with hd | hd
  · rw [hc] at hd
    cases hd
  · exact hdot hd

theorem lexeme?_of_text {quote : Char} (hq : quote = '"' ∨ quote = '\'')
    (h : Pattern.text quote (quote :: rest) ≠ 0) :
    lexeme? (quote :: rest) = some (some .text, Pattern.text quote (quote :: rest)) := by
  obtain ⟨hblank, hdecimal, -, hdot, -, -⟩ := quote_apart hq
  have hrun : Pattern.run isBlank (quote :: rest) = 0 := Pattern.run_cons_of_neg hblank
  have hdigits : Pattern.run isDecimal (quote :: rest) = 0 := Pattern.run_cons_of_neg hdecimal
  have hfloat : Pattern.float (quote :: rest) = 0 := float_eq_zero hdecimal hdot
  rcases hq with rfl | rfl
  · simp [lexeme?, patterns, hrun, hfloat, hdigits, h]
  · have hother : Pattern.text '"' ('\'' :: rest) = 0 := rfl
    simp [lexeme?, patterns, hrun, hfloat, hdigits, hother, h]

theorem lexeme?_quoted {quote : Char} (hq : quote = '"' ∨ quote = '\'') {w : List Char}
    (hw : Quoted quote w) (rest : List Char) :
    lexeme? (w ++ rest) = some (some .text, w.length) := by
  obtain ⟨-, -, -, -, hslash, -⟩ := quote_apart hq
  have hlength := Pattern.text_append hslash hw rest
  obtain ⟨body, rfl, -⟩ := hw
  rw [List.cons_append] at hlength ⊢
  rw [lexeme?_of_text hq (by rw [hlength]; simp), hlength]

theorem lexeme?_of_name (hc : isIdentStart c) :
    lexeme? (c :: rest) =
      if Pattern.rowName (c :: rest) = 0 then some (some .ident, Pattern.ident (c :: rest))
      else some (some .rowName, Pattern.rowName (c :: rest)) := by
  obtain ⟨hblank, hdecimal, hdot, hdouble, hsingle⟩ := isIdentStart_apart hc
  have hident : Pattern.ident (c :: rest) ≠ 0 := by
    rw [Pattern.ident_cons hc]
    omega
  by_cases hrow : Pattern.rowName (c :: rest) = 0
  · simp [lexeme?, patterns, Pattern.run_cons_of_neg hblank, float_eq_zero hdecimal hdot,
      Pattern.run_cons_of_neg hdecimal, Pattern.text, hdouble, hsingle, hrow, hident]
  · simp [lexeme?, patterns, Pattern.run_cons_of_neg hblank, float_eq_zero hdecimal hdot,
      Pattern.run_cons_of_neg hdecimal, Pattern.text, hdouble, hsingle, hrow]

/-- A plain name ends at a character that is in no name, and goes on as no cell if that opens no
bracket. -/
theorem lexeme?_of_identifier {w : List Char} (h : Identifier w) (hpart : isIdentPart c = false)
    (hbracket : c ≠ '[') (rest : List Char) :
    lexeme? (w ++ c :: rest) = some (some .ident, w.length) := by
  have hident : Pattern.ident (w ++ c :: rest) = w.length := Pattern.ident_append_cons h hpart
  have hindex : Pattern.index (c :: rest) = 0 := by simp [Pattern.index, hbracket]
  have hrow : Pattern.rowName (w ++ c :: rest) = 0 := by simp [Pattern.rowName, hident, hindex]
  obtain ⟨d, w, rfl, hd⟩ := h.exists_start
  rw [List.cons_append] at hident hrow ⊢
  rw [lexeme?_of_name hd, if_pos hrow, hident]

/-- Behind the classes of characters the marks are tried, the longer of two first. -/
theorem patterns_eq : patterns =
    [(none, Pattern.run isBlank), (some .float, Pattern.float), (some .int, Pattern.run isDecimal),
     (some .text, Pattern.text '"'), (some .text, Pattern.text '\''), (some .rowName, Pattern.rowName),
     (some .ident, Pattern.ident)] ++
      marks.map fun (kind, mark) => (some kind, Pattern.exact mark) := rfl

/-- In a table where no mark starts a later one, the first that a text starts with is the longest. -/
theorem exists_first_mark {table : List (TokenKind × List Char)} (hne : ∀ e ∈ table, e.2 ≠ [])
    (hp : table.Pairwise fun a b => ¬a.2 <+: b.2) {e : TokenKind × List Char} (he : e ∈ table)
    (hcs : e.2 <+: cs) :
    ∃ e' ∈ table, e.2 <+: e'.2 ∧
      (table.map fun (kind, mark) => (some kind, Pattern.exact mark)).findSome?
        (fun (kind, length) =>
          let n := length cs
          if n = 0 then none else some (kind, n)) = some (some e'.1, e'.2.length) := by
  induction table with
  | nil => simp at he
  | cons head table ih =>
    obtain ⟨kind, mark⟩ := head
    have hmark : mark ≠ [] := hne (kind, mark) List.mem_cons_self
    by_cases hm : mark <+: cs
    · refine ⟨(kind, mark), List.mem_cons_self, ?_, ?_⟩
      · rcases List.mem_cons.mp he with rfl | he
        · exact List.prefix_rfl
        · exact (List.prefix_or_prefix_of_prefix hcs hm).resolve_right
            (List.rel_of_pairwise_cons hp he)
      · obtain ⟨rest, rfl⟩ := hm
        simp [Pattern.exact_append, hmark]
    · rcases List.mem_cons.mp he with rfl | he
      · exact absurd hcs hm
      · obtain ⟨e', he', hpre, hfirst⟩ :=
          ih (fun e he => hne e (List.mem_cons_of_mem _ he)) hp.of_cons he
        refine ⟨e', List.mem_cons_of_mem _ he', hpre, ?_⟩
        have hexact : Pattern.exact mark cs = 0 :=
          if_neg fun h => hm (List.isPrefixOf_iff_prefix.mp h)
        rw [List.map_cons, List.findSome?_cons, ← hfirst]
        simp [hexact]

theorem marks_pairwise : marks.Pairwise fun a b => ¬a.2 <+: b.2 := by decide

theorem marks_injective : ∀ a ∈ marks, ∀ b ∈ marks, a.2 = b.2 → a.1 = b.1 := by decide

/-- A character that neither white space nor a number, a text or a name starts with. -/
def isMark (c : Char) : Bool :=
  !isBlank c && !isDecimal c && !isIdentStart c && c != '.' && c != '"' && c != '\''

theorem marks_apart : ∀ e ∈ marks, e = (.dot, ['.']) ∨ e.2.head?.any isMark := by decide +kernel

theorem lexeme?_of_mark {e : TokenKind × List Char} (he : e ∈ marks) (hdot : e ≠ (.dot, ['.']))
    (rest : List Char) :
    ∃ e' ∈ marks, e.2 <+: e'.2 ∧ lexeme? (e.2 ++ rest) = some (some e'.1, e'.2.length) := by
  obtain ⟨c, hhead, hc⟩ := (Option.any_eq_true isMark _).mp ((marks_apart e he).resolve_left hdot)
  obtain ⟨tail, hsplit⟩ := List.head?_eq_some_iff.mp hhead
  simp only [isMark, Bool.and_eq_true, Bool.not_eq_true', bne_iff_ne] at hc
  obtain ⟨⟨⟨⟨⟨hblank, hdecimal⟩, hstart⟩, hpoint⟩, hdouble⟩, hsingle⟩ := hc
  obtain ⟨e', he', hpre, hfirst⟩ :=
    exists_first_mark (by decide) marks_pairwise he (List.prefix_append e.2 rest)
  refine ⟨e', he', hpre, ?_⟩
  rw [lexeme?, patterns_eq, List.findSome?_append, ← hfirst]
  simp [hsplit, Pattern.run_cons_of_neg hblank, float_eq_zero hdecimal hpoint,
    Pattern.run_cons_of_neg hdecimal, Pattern.text, Pattern.rowName, Pattern.ident, hstart, hdouble,
    hsingle]

end First

/-! ## Longer texts -/

/-- Digits that go on as a number with a point or an exponent are not all of it. -/
theorem run_lt_float {cs : List Char} (h : Pattern.float cs ≠ 0) :
    Pattern.run isDecimal cs < Pattern.float cs := by
  obtain ⟨whole, tail, rfl, hwhole, hr, hrun⟩ := Pattern.exists_run isDecimal cs
  rw [hrun]
  by_cases hdot : ∃ rest, tail = '.' :: rest
  · obtain ⟨rest, rfl⟩ := hdot
    rw [Pattern.float_point hwhole] at h ⊢
    rw [if_neg fun hz => h (if_pos hz)]
    omega
  · have hnot : ∀ rest, tail ≠ '.' :: rest := fun rest hrest => hdot ⟨rest, hrest⟩
    rw [Pattern.float_scaled hwhole hr hnot] at h ⊢
    have hne : whole ≠ [] := fun hz => h (if_pos hz)
    rw [if_neg hne] at h ⊢
    have hex : Pattern.exponent tail ≠ 0 := fun hz => h (by simp [Pattern.after, hz])
    rw [Pattern.after_ne_zero hex]
    omega

/-- A name that goes on as the name of a cell is not all of it. -/
theorem ident_lt_rowName {cs : List Char} (h : Pattern.rowName cs ≠ 0) :
    Pattern.ident cs < Pattern.rowName cs := by
  obtain ⟨w, rest, rfl, hlength, hw⟩ := Pattern.munches_rowName.sound cs h
  cases hw with
  | @mk array digits accesses harray hdigits haccess =>
    have hsplit : array ++ '[' :: (digits ++ ']' :: accesses) ++ rest =
        array ++ '[' :: (digits ++ ']' :: (accesses ++ rest)) := by simp
    rw [← hlength, hsplit, Pattern.ident_append_cons harray Pattern.isIdentPart_bracket,
      List.length_append, List.length_cons]
    omega

/-- Whatever a text starts with, its first lexeme is at least as long, and of the same kind if it is
just as long. -/
theorem exists_lexeme {kind? : Option TokenKind} {w : List Char} (h : Spelled kind? w)
    (rest : List Char) :
    ∃ kind?' n, lexeme? (w ++ rest) = some (kind?', n) ∧ w.length ≤ n ∧
      (n = w.length → kind?' = kind?) := by
  cases h with
  | blank hw =>
    obtain ⟨c, w, rfl⟩ := List.exists_cons_of_ne_nil hw.1
    exact ⟨none, _, lexeme?_of_blank (hw.2 c List.mem_cons_self),
      (Pattern.munches_run isBlank).longest _ rest hw, fun _ => rfl⟩
  | float hw =>
    have hlong := Pattern.munches_float.longest w rest hw
    have hpos := hw.one_lt_length
    exact ⟨_, _, lexeme?_of_float (by omega), hlong, fun _ => rfl⟩
  | int hw =>
    have hlong := (Pattern.munches_run isDecimal).longest w rest hw
    obtain ⟨c, w, rfl⟩ := List.exists_cons_of_ne_nil hw.1
    by_cases hfloat : Pattern.float (c :: w ++ rest) = 0
    · exact ⟨_, _, lexeme?_of_digit (hw.2 c List.mem_cons_self) hfloat, hlong, fun _ => rfl⟩
    · have hlt := run_lt_float hfloat
      exact ⟨_, _, lexeme?_of_float hfloat, by omega, fun h => absurd h (by omega)⟩
  | text hq hw =>
    exact ⟨_, _, lexeme?_quoted hq hw rest, le_rfl, fun _ => rfl⟩
  | rowName hw =>
    have hlong := Pattern.munches_rowName.longest w rest hw
    obtain ⟨c, w, rfl, hc⟩ := hw.exists_start
    rw [List.cons_append] at hlong ⊢
    rw [List.length_cons] at hlong ⊢
    exact ⟨_, _, (lexeme?_of_name hc).trans (if_neg (by omega)), hlong, fun _ => rfl⟩
  | ident hw =>
    have hlong := Pattern.munches_ident.longest w rest hw
    obtain ⟨c, w, rfl, hc⟩ := hw.exists_start
    rw [List.cons_append] at hlong ⊢
    by_cases hrow : Pattern.rowName (c :: (w ++ rest)) = 0
    · exact ⟨_, _, (lexeme?_of_name hc).trans (if_pos hrow), hlong, fun _ => rfl⟩
    · have hlt := ident_lt_rowName hrow
      exact ⟨_, _, (lexeme?_of_name hc).trans (if_neg hrow), by omega, fun h => absurd h (by omega)⟩
  | @mark kind w hw =>
    by_cases hdot : (kind, w) = (.dot, ['.'])
    · obtain ⟨rfl, rfl⟩ := Prod.mk.inj hdot
      rw [List.singleton_append, List.length_singleton]
      by_cases hfloat : Pattern.float ('.' :: rest) = 0
      · exact ⟨_, _, lexeme?_of_dot hfloat, le_rfl, fun _ => rfl⟩
      · obtain ⟨w, tail, -, hlength, hw⟩ := Pattern.munches_float.sound _ hfloat
        have hlt := hw.one_lt_length
        exact ⟨_, _, lexeme?_of_float hfloat, by omega, fun h => absurd h (by omega)⟩
    · obtain ⟨e, he, hpre, hlexeme⟩ := lexeme?_of_mark hw hdot rest
      refine ⟨_, _, hlexeme, hpre.length_le, fun h => ?_⟩
      have hsame := hpre.eq_of_length h.symm
      rw [marks_injective e he (kind, w) hw hsame.symm]

/-! ## The longest text -/

/-- What a pattern reads is spelled as its kind of token. -/
theorem exists_spelled {kind? : Option TokenKind} {length : List Char → Nat} {cs : List Char}
    (hm : (kind?, length) ∈ patterns) (hn : length cs ≠ 0) :
    ∃ w rest, cs = w ++ rest ∧ w.length = length cs ∧ Spelled kind? w := by
  have hspelled {L : List Char → Prop} (hpattern : Munches length L)
      (hL : ∀ w, L w → Spelled kind? w) :
      ∃ w rest, cs = w ++ rest ∧ w.length = length cs ∧ Spelled kind? w := by
    obtain ⟨w, rest, hsplit, hlength, hw⟩ := hpattern.sound cs hn
    exact ⟨w, rest, hsplit, hlength, hL w hw⟩
  rw [patterns_eq, List.mem_append] at hm
  rcases hm with hm | hm
  · simp only [List.mem_cons, List.not_mem_nil, or_false, Prod.mk.injEq] at hm
    rcases hm with ⟨rfl, rfl⟩ | ⟨rfl, rfl⟩ | ⟨rfl, rfl⟩ | ⟨rfl, rfl⟩ | ⟨rfl, rfl⟩ | ⟨rfl, rfl⟩ |
      ⟨rfl, rfl⟩
    · exact hspelled (Pattern.munches_run isBlank) fun _ => .blank
    · exact hspelled Pattern.munches_float fun _ => .float
    · exact hspelled (Pattern.munches_run isDecimal) fun _ => .int
    · exact hspelled (Pattern.munches_text (by decide)) fun _ => .text (.inl rfl)
    · exact hspelled (Pattern.munches_text (by decide)) fun _ => .text (.inr rfl)
    · exact hspelled Pattern.munches_rowName fun _ => .rowName
    · exact hspelled Pattern.munches_ident fun _ => .ident
  · obtain ⟨⟨kind, mark⟩, hmark, heq⟩ := List.mem_map.mp hm
    obtain ⟨rfl, rfl⟩ := Prod.mk.inj heq
    exact hspelled (Pattern.munches_exact mark) fun w hw => .mark (hw ▸ hmark)

theorem spelled_of_lexeme? {cs : List Char} {kind? : Option TokenKind} {n : Nat}
    (h : lexeme? cs = some (kind?, n)) :
    ∃ w rest, cs = w ++ rest ∧ w.length = n ∧ Spelled kind? w := by
  obtain ⟨length, hm, rfl, hn⟩ := lexeme?_eq_some h
  exact exists_spelled hm hn

/-- Nothing that the text starts with is longer than its first lexeme. -/
theorem length_le_of_lexeme? {cs w : List Char} {kind? kind?' : Option TokenKind} {n : Nat}
    (h : lexeme? cs = some (kind?, n)) (hw : Spelled kind?' w) (hcs : w <+: cs) : w.length ≤ n := by
  obtain ⟨rest, rfl⟩ := hcs
  obtain ⟨_, m, hlexeme, hle, -⟩ := exists_lexeme hw rest
  rw [h] at hlexeme
  obtain ⟨-, rfl⟩ := Prod.mk.inj (Option.some.inj hlexeme)
  exact hle

/-- The first lexeme is the longest text of any kind that the text starts with, and has that kind. -/
theorem lexeme?_append_iff {w rest : List Char} {kind? : Option TokenKind} :
    lexeme? (w ++ rest) = some (kind?, w.length) ↔
      Spelled kind? w ∧ ∀ kind?' w', Spelled kind?' w' → w' <+: w ++ rest → w'.length ≤ w.length := by
  constructor
  · intro h
    obtain ⟨w', rest', hsplit, hlength, hw'⟩ := spelled_of_lexeme? h
    obtain ⟨rfl, rfl⟩ := List.append_inj hsplit hlength.symm
    exact ⟨hw', fun _ _ hs hp => length_le_of_lexeme? h hs hp⟩
  · intro ⟨hw, hlongest⟩
    obtain ⟨kind?', n, hlexeme, hle, hkind⟩ := exists_lexeme hw rest
    obtain ⟨w', rest', hsplit, rfl, hw'⟩ := spelled_of_lexeme? hlexeme
    have hlength := le_antisymm (hlongest _ _ hw' ⟨rest', hsplit.symm⟩) hle
    rw [hlexeme, hkind hlength, hlength]

/-- There is no lexeme just where the text starts with nothing that is spelled as a token. -/
theorem lexeme?_eq_none_iff {cs : List Char} :
    lexeme? cs = none ↔ ∀ kind? w, Spelled kind? w → ¬w <+: cs := by
  constructor
  · intro h kind? w hw hcs
    obtain ⟨rest, rfl⟩ := hcs
    obtain ⟨_, _, hlexeme, -⟩ := exists_lexeme hw rest
    rw [h] at hlexeme
    cases hlexeme
  · intro h
    cases hlexeme : lexeme? cs with
    | none => rfl
    | some lexeme =>
      obtain ⟨w, rest, rfl, -, hw⟩ := spelled_of_lexeme? hlexeme
      exact absurd (List.prefix_append w rest) (h _ w hw)

/-- No pattern reads more than the first lexeme. -/
theorem pattern_le {cs : List Char} {kind? kind?' : Option TokenKind} {n : Nat}
    {length : List Char → Nat} (h : lexeme? cs = some (kind?, n)) (hm : (kind?', length) ∈ patterns) :
    length cs ≤ n := by
  by_cases hn : length cs = 0
  · omega
  · obtain ⟨w, rest, rfl, hlength, hw⟩ := exists_spelled hm hn
    exact hlength ▸ length_le_of_lexeme? h hw (List.prefix_append w rest)

end Token

/-! ## White space ends a token -/

/-- A text has one kind only. -/
theorem Spelled.kind_unique {kind? kind?' : Option TokenKind} {w : List Char} (h : Spelled kind? w)
    (h' : Spelled kind?' w) : kind? = kind?' := by
  obtain ⟨first, n, hlexeme, hle, hkind⟩ := Token.exists_lexeme h []
  obtain ⟨w', rest, hsplit, hlength, -⟩ := Token.spelled_of_lexeme? hlexeme
  obtain ⟨first', n', hlexeme', -, hkind'⟩ := Token.exists_lexeme h' []
  obtain ⟨rfl, rfl⟩ := Prod.mk.inj (Option.some.inj (hlexeme.symm.trans hlexeme'))
  have hn : n = w.length := by
    have hcut := congrArg List.length hsplit
    simp only [List.length_append, List.length_nil] at hcut
    omega
  rw [← hkind hn, ← hkind' hn]

theorem isBlank_mark : ∀ e ∈ marks, ∀ c ∈ e.2, isBlank c = false := by
  have hall : ∀ e ∈ marks, e.2.all fun c => !isBlank c := by decide +kernel
  intro e he c hc
  simpa using List.all_eq_true.mp (hall e he) c hc

theorem Exponent.not_isBlank {w : List Char} (h : Exponent w) {c : Char} (hc : c ∈ w) :
    isBlank c = false := by
  have hmark {mark : Char} (hm : mark = 'e' ∨ mark = 'E') : isBlank mark = false := by
    rcases hm with rfl | rfl <;> decide
  cases h with
  | unsigned hm hdigits =>
    rcases List.mem_cons.mp hc with rfl | hc
    · exact hmark hm
    · exact not_isBlank_of_isDecimal (hdigits.2 c hc)
  | signed hm hs hdigits =>
    rcases List.mem_cons.mp hc with rfl | hc
    · exact hmark hm
    rcases List.mem_cons.mp hc with rfl | hc
    · rcases hs with rfl | rfl <;> decide
    · exact not_isBlank_of_isDecimal (hdigits.2 c hc)

theorem Floating.not_isBlank {w : List Char} (h : Floating w) {c : Char} (hc : c ∈ w) :
    isBlank c = false := by
  cases h with
  | point hwhole hplaces _ hex =>
    simp only [List.mem_append, List.mem_cons] at hc
    rcases hc with hc | rfl | hc | hc
    · exact not_isBlank_of_isDecimal (hwhole c hc)
    · decide
    · exact not_isBlank_of_isDecimal (hplaces c hc)
    · rcases hex with rfl | hex
      · simp at hc
      · exact hex.not_isBlank hc
  | scaled hwhole hex =>
    rcases List.mem_append.mp hc with hc | hc
    · exact not_isBlank_of_isDecimal (hwhole.2 c hc)
    · exact hex.not_isBlank hc

theorem Identifier.not_isBlank {w : List Char} (h : Identifier w) {c : Char} (hc : c ∈ w) :
    isBlank c = false := by
  by_contra hb
  obtain ⟨-, hstart, hpart⟩ := isBlank_apart (c := c) (by simpa using hb)
  rcases h.of_mem hc with h | h
  · rw [hstart] at h
    cases h
  · rw [hpart] at h
    cases h

theorem Accesses.not_isBlank {w : List Char} (h : Accesses w) {c : Char} (hc : c ∈ w) :
    isBlank c = false := by
  induction h with
  | last hname =>
    rcases List.mem_cons.mp hc with rfl | hc
    · decide
    · exact hname.not_isBlank hc
  | more hname _ ih =>
    rcases List.mem_cons.mp hc with rfl | hc
    · decide
    rcases List.mem_append.mp hc with hc | hc
    · exact hname.not_isBlank hc
    · exact ih hc

theorem CellName.not_isBlank {w : List Char} (h : CellName w) {c : Char} (hc : c ∈ w) :
    isBlank c = false := by
  cases h with
  | mk harray hdigits haccess =>
    simp only [List.mem_append, List.mem_cons] at hc
    rcases hc with hc | rfl | hc | rfl | hc
    · exact harray.not_isBlank hc
    · decide
    · exact not_isBlank_of_isDecimal (hdigits.2 c hc)
    · decide
    · exact haccess.not_isBlank hc

/-- Of the tokens only texts can have white space in them. -/
theorem Spelled.quoted_of_blank {kind : TokenKind} {w : List Char} (h : Spelled (some kind) w)
    {c : Char} (hc : c ∈ w) (hb : isBlank c) :
    ∃ quote, (quote = '"' ∨ quote = '\'') ∧ Quoted quote w := by
  have hnone (hn : isBlank c = false) : False := by rw [hn] at hb; cases hb
  cases h with
  | float hw => exact (hnone (hw.not_isBlank hc)).elim
  | int hw => exact (hnone (not_isBlank_of_isDecimal (hw.2 c hc))).elim
  | text hq hw => exact ⟨_, hq, hw⟩
  | rowName hw => exact (hnone (hw.not_isBlank hc)).elim
  | ident hw => exact (hnone (hw.not_isBlank hc)).elim
  | mark hw => exact (hnone (isBlank_mark _ hw c hc)).elim

/-- A token that starts with a quote is a text. -/
theorem Spelled.quoted_of_quote {kind : TokenKind} {quote : Char} {w : List Char}
    (h : Spelled (some kind) (quote :: w)) (hq : quote = '"' ∨ quote = '\'') :
    Quoted quote (quote :: w) := by
  obtain ⟨-, hdecimal, hstart, hdot, -, -⟩ := quote_apart hq
  have hmark : ∀ e ∈ marks, e.2.head? ≠ some quote := by
    rcases hq with rfl | rfl <;> decide +kernel
  cases h with
  | float hw =>
    obtain ⟨c, rest, hsplit, hc⟩ := hw.exists_head
    obtain rfl := (List.cons.inj hsplit).1
    rcases hc with hc | hc
    · rw [hdecimal] at hc
      cases hc
    · exact absurd hc hdot
  | int hw =>
    have hc := hw.2 quote List.mem_cons_self
    rw [hdecimal] at hc
    cases hc
  | text _ hw =>
    obtain ⟨rest, hsplit, hclosing⟩ := hw
    obtain ⟨rfl, rfl⟩ := List.cons.inj hsplit
    exact ⟨w, rfl, hclosing⟩
  | rowName hw =>
    obtain ⟨c, rest, hsplit, hc⟩ := hw.exists_start
    obtain rfl := (List.cons.inj hsplit).1
    rw [hstart] at hc
    cases hc
  | ident hw =>
    obtain ⟨c, rest, hsplit, hc⟩ := hw.exists_start
    obtain rfl := (List.cons.inj hsplit).1
    rw [hstart] at hc
    cases hc
  | mark hw => exact absurd rfl (hmark _ hw)

/-- A token with white space behind it is the front of no longer one. -/
theorem Spelled.not_spelled_of_blank {kind : TokenKind} {kind? : Option TokenKind}
    {w more : List Char} {b : Char} (h : Spelled (some kind) w) (hb : isBlank b) (hmore : b ∈ more) :
    ¬Spelled kind? (w ++ more) := by
  intro hw
  obtain ⟨c, w, rfl⟩ := List.exists_cons_of_ne_nil h.ne_nil
  cases kind? with
  | none =>
    cases hw with
    | blank hrun =>
      have hall : ∀ d ∈ c :: w, isBlank d := fun d hd => hrun.2 d (List.mem_append_left _ hd)
      cases h.kind_unique (.blank ⟨by simp, hall⟩)
  | some kind' =>
    -- the longer token would be a text in quotes, and so would the token, which ends at its quote
    obtain ⟨quote, hq, hquoted⟩ := hw.quoted_of_blank (List.mem_append_right _ hmore) hb
    obtain ⟨-, -, -, -, hslash, -⟩ := quote_apart hq
    obtain rfl : c = quote := by
      obtain ⟨rest, hsplit, -⟩ := hquoted
      exact (List.cons.inj hsplit).1
    have hshort := Pattern.text_append hslash (h.quoted_of_quote hq) more
    have hlong := Pattern.text_append hslash hquoted []
    rw [List.append_nil, hshort, List.length_append] at hlong
    have hpos := List.length_pos_of_mem hmore
    omega

end LiveForm
