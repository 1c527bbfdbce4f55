import LiveForm.Proofs.Expr.Lexemes
import LiveForm.Proofs.Expr.Spelling

/-! # Patterns read the longest text

Each pattern reads, off the front of any text, the longest one that is spelled as its kind of token is,
and nothing when there is none. A pattern that goes on from a part that it has read never has to come
back to it: the character behind a part tells where the part ends. -/

namespace LiveForm

open Text

/-- A pattern reads the longest text of a kind off the front of any text, or nothing at all. -/
structure Munches (pattern : List Char → Nat) (spelled : List Char → Prop) : Prop where
  sound : ∀ cs, pattern cs ≠ 0 → ∃ w rest, cs = w ++ rest ∧ w.length = pattern cs ∧ spelled w
  longest : ∀ w rest, spelled w → w.length ≤ pattern (w ++ rest)

namespace Pattern

section Runs

variable {p : Char → Bool} {w rest : List Char} {c : Char}

theorem run_append (h : ∀ c ∈ w, p c) : run p (w ++ rest) = w.length + run p rest := by
  rw [run, List.takeWhile_append_of_pos h, List.length_append, run]

theorem run_cons_of_pos (h : p c) : run p (c :: rest) = run p rest + 1 := by
  rw [run, List.takeWhile_cons_of_pos h, List.length_cons, run]

theorem run_cons_of_neg (h : p c = false) : run p (c :: rest) = 0 := by
  simp [run, h]

/-- A run ends where the class does. -/
theorem run_append_cons (h : ∀ c ∈ w, p c) (hc : p c = false) : run p (w ++ c :: rest) = w.length := by
  rw [run_append h, run_cons_of_neg hc, Nat.add_zero]

/-- A text is a run of a class and what does not go on with it. -/
theorem exists_run (p : Char → Bool) (cs : List Char) :
    ∃ w rest, cs = w ++ rest ∧ (∀ c ∈ w, p c) ∧ run p rest = 0 ∧ run p cs = w.length := by
  have hsplit := List.takeWhile_append_dropWhile (p := p) (l := cs)
  have hall : ∀ c ∈ cs.takeWhile p, p c := fun c hc => List.mem_takeWhile_imp hc
  refine ⟨cs.takeWhile p, cs.dropWhile p, hsplit.symm, hall, ?_, rfl⟩
  have hlength : run p (cs.takeWhile p ++ cs.dropWhile p) =
      (cs.takeWhile p).length + run p (cs.dropWhile p) := run_append hall
  rw [hsplit] at hlength
  have hrun : run p cs = (cs.takeWhile p).length := rfl
  omega

theorem munches_run (p : Char → Bool) : Munches (run p) (Run p) where
  sound cs h := by
    obtain ⟨w, rest, rfl, hall, -, hrun⟩ := exists_run p cs
    refine ⟨w, rest, rfl, hrun.symm, ?_, hall⟩
    rintro rfl
    exact h hrun
  longest w rest h := by
    rw [run_append h.2]
    omega

end Runs

theorem exact_append (mark rest : List Char) : exact mark (mark ++ rest) = mark.length := by
  simp [exact]

theorem munches_exact (mark : List Char) : Munches (exact mark) (· = mark) where
  sound cs h := by
    by_cases hp : mark.isPrefixOf cs
    · obtain ⟨rest, rfl⟩ := List.isPrefixOf_iff_prefix.mp hp
      exact ⟨mark, rest, rfl, (exact_append mark rest).symm, rfl⟩
    · exact absurd (if_neg hp) h
  longest w rest h := by
    subst h
    exact (exact_append w rest).ge

/-! ### Numbers -/

theorem sign_eq_one {c : Char} {rest : List Char} (h : IsSign c) : sign (c :: rest) = 1 := by
  rcases h with rfl | rfl <;> rfl

theorem sign_eq_zero {c : Char} {rest : List Char} (h : ¬IsSign c) : sign (c :: rest) = 0 := by
  simpa [sign, IsSign] using h

theorem not_isSign_of_isDecimal {c : Char} (h : isDecimal c) : ¬IsSign c := by
  rintro (rfl | rfl) <;> exact absurd h (by decide)

theorem after_ne_zero {count rest : Nat} (h : rest ≠ 0) : after count rest = count + rest := if_neg h

/-- An exponent by its mark, its sign and its digits. -/
theorem exponent_unsigned {mark c : Char} {rest : List Char} (hm : mark = 'e' ∨ mark = 'E')
    (hc : ¬IsSign c) :
    exponent (mark :: c :: rest) = after 1 (run isDecimal (c :: rest)) := by
  rcases hm with rfl | rfl <;> simp [exponent, sign_eq_zero hc]

theorem exponent_signed {mark c : Char} {rest : List Char} (hm : mark = 'e' ∨ mark = 'E')
    (hc : IsSign c) : exponent (mark :: c :: rest) = after 2 (run isDecimal rest) := by
  rcases hm with rfl | rfl <;> simp [exponent, sign_eq_one hc]

theorem exponent_of_ne {c : Char} {rest : List Char} (h : ¬(c = 'e' ∨ c = 'E')) :
    exponent (c :: rest) = 0 := by
  simp [exponent, h]

theorem munches_exponent : Munches exponent Exponent where
  sound cs h := by
    match cs with
    | [] => exact absurd rfl h
    | [c] =>
      by_cases hm : c = 'e' ∨ c = 'E'
      · rcases hm with rfl | rfl <;> exact absurd rfl h
      · exact absurd (exponent_of_ne hm) h
    | mark :: c :: rest =>
      by_cases hm : mark = 'e' ∨ mark = 'E'
      · by_cases hc : IsSign c
        · rw [exponent_signed hm hc] at h ⊢
          have hrun : run isDecimal rest ≠ 0 := fun hz => h (by simp [after, hz])
          obtain ⟨digits, rest', rfl, hlength, hdigits⟩ := (munches_run isDecimal).sound rest hrun
          refine ⟨mark :: c :: digits, rest', rfl, ?_, .signed hm hc hdigits⟩
          rw [after_ne_zero hrun, ← hlength, List.length_cons, List.length_cons]
          omega
        · rw [exponent_unsigned hm hc] at h ⊢
          have hrun : run isDecimal (c :: rest) ≠ 0 := fun hz => h (by simp [after, hz])
          obtain ⟨digits, rest', hsplit, hlength, hdigits⟩ :=
            (munches_run isDecimal).sound (c :: rest) hrun
          refine ⟨mark :: digits, rest', by rw [hsplit]; rfl, ?_, .unsigned hm hdigits⟩
          rw [after_ne_zero hrun, ← hlength, List.length_cons]
          omega
      · exact absurd (exponent_of_ne hm) h
  longest w rest h := by
    cases h with
    | @unsigned mark digits hm hdigits =>
      obtain ⟨c, digits, rfl⟩ := List.exists_cons_of_ne_nil hdigits.1
      have hc : ¬IsSign c := not_isSign_of_isDecimal (hdigits.2 c List.mem_cons_self)
      have hrun := (munches_run isDecimal).longest (c :: digits) rest hdigits
      rw [List.cons_append] at hrun
      rw [List.cons_append, List.cons_append, exponent_unsigned hm hc,
        after_ne_zero (by rw [List.length_cons] at hrun; omega), List.length_cons]
      omega
    | @signed mark sign digits hm hs hdigits =>
      have hrun := (munches_run isDecimal).longest digits rest hdigits
      have hpos := List.length_pos_iff.mpr hdigits.1
      rw [List.cons_append, List.cons_append, exponent_signed hm hs, after_ne_zero (by omega),
        List.length_cons, List.length_cons]
      omega

/-- An exponent, or nothing. -/
theorem exists_exponent (cs : List Char) :
    ∃ w rest, cs = w ++ rest ∧ w.length = exponent cs ∧ (w = [] ∨ Exponent w) := by
  by_cases h : exponent cs = 0
  · exact ⟨[], cs, rfl, h.symm, .inl rfl⟩
  · obtain ⟨w, rest, hw, hlength, hs⟩ := munches_exponent.sound cs h
    exact ⟨w, rest, hw, hlength, .inr hs⟩

theorem not_isDecimal_of_mark {c : Char} (h : c = 'e' ∨ c = 'E') : isDecimal c = false := by
  rcases h with rfl | rfl <;> decide

section Floating

variable {whole rest : List Char}

theorem float_point (hw : ∀ c ∈ whole, isDecimal c) :
    float (whole ++ '.' :: rest) =
      if whole = [] ∧ run isDecimal rest = 0 then 0
      else whole.length + 1 + run isDecimal rest + exponent (rest.drop (run isDecimal rest)) := by
  have hrun : run isDecimal (whole ++ '.' :: rest) = whole.length := run_append_cons hw (by decide)
  simp [float, hrun]

theorem float_scaled (hw : ∀ c ∈ whole, isDecimal c) (hr : run isDecimal rest = 0)
    (hdot : ∀ tail, rest ≠ '.' :: tail) :
    float (whole ++ rest) = if whole = [] then 0 else after whole.length (exponent rest) := by
  have hrun : run isDecimal (whole ++ rest) = whole.length := by rw [run_append hw, hr, Nat.add_zero]
  unfold float
  simp only [hrun, List.drop_left, List.length_eq_zero_iff]

theorem munches_float : Munches float Floating where
  sound cs h := by
    obtain ⟨whole, tail, rfl, hwhole, hr, -⟩ := exists_run isDecimal cs
    by_cases hdot : ∃ rest, tail = '.' :: rest
    · obtain ⟨rest, rfl⟩ := hdot
      obtain ⟨places, tail, rfl, hplaces, -, hrun⟩ := exists_run isDecimal rest
      obtain ⟨ex, rest, rfl, hlength, hex⟩ := exists_exponent tail
      rw [float_point hwhole, hrun, List.drop_left] at h ⊢
      have hsome : ¬(whole = [] ∧ places.length = 0) := fun hz => h (if_pos hz)
      refine ⟨whole ++ '.' :: (places ++ ex), rest, by simp, ?_, .point hwhole hplaces ?_ hex⟩
      · rw [if_neg hsome, ← hlength]
        simp only [List.length_append, List.length_cons]
        omega
      · by_contra hnone
        rw [not_or, not_not, not_not] at hnone
        exact hsome ⟨hnone.1, List.length_eq_zero_iff.mpr hnone.2⟩
    · have hnot : ∀ rest, tail ≠ '.' :: rest := fun rest hrest => hdot ⟨rest, hrest⟩
      rw [float_scaled hwhole hr hnot] at h ⊢
      have hne : whole ≠ [] := fun hz => h (if_pos hz)
      rw [if_neg hne] at h ⊢
      have hex : exponent tail ≠ 0 := fun hz => h (by simp [after, hz])
      obtain ⟨ex, rest, rfl, hlength, hs⟩ := munches_exponent.sound tail hex
      refine ⟨whole ++ ex, rest, by simp, ?_, .scaled ⟨hne, hwhole⟩ hs⟩
      rw [after_ne_zero hex, ← hlength, List.length_append]
  longest w rest h := by
    cases h with
    | @point whole places ex hwhole hplaces hsome hex =>
      have hsplit : whole ++ '.' :: (places ++ ex) ++ rest =
          whole ++ '.' :: (places ++ (ex ++ rest)) := by simp
      have hplaces' : run isDecimal (places ++ (ex ++ rest)) =
          places.length + run isDecimal (ex ++ rest) := run_append hplaces
      have hnot : ¬(whole = [] ∧ run isDecimal (places ++ (ex ++ rest)) = 0) := by
        rintro ⟨hz, hrun⟩
        have hp : places = [] := List.length_eq_zero_iff.mp (by omega)
        exact hsome.elim (fun h => h hz) (fun h => h hp)
      rw [hsplit, float_point hwhole, if_neg hnot]
      simp only [List.length_append, List.length_cons]
      rcases hex with rfl | hex
      · rw [List.length_nil]
        omega
      · -- the mark ends the digits behind the point
        obtain ⟨mark, tail, rfl, hm⟩ := hex.exists_mark
        have hrun : run isDecimal (places ++ (mark :: tail ++ rest)) = places.length :=
          run_append_cons hplaces (not_isDecimal_of_mark hm)
        have hlong := munches_exponent.longest _ rest hex
        rw [hrun, List.drop_left]
        omega
    | @scaled whole ex hwhole hex =>
      have hlong := munches_exponent.longest ex rest hex
      obtain ⟨mark, tail, rfl, hm⟩ := hex.exists_mark
      have hr : run isDecimal (mark :: tail ++ rest) = 0 :=
        run_cons_of_neg (not_isDecimal_of_mark hm)
      have hdot : ∀ tail', mark :: tail ++ rest ≠ '.' :: tail' := by
        intro tail' heq
        obtain rfl := (List.cons.inj heq).1
        exact absurd hm (by decide)
      rw [List.length_cons] at hlong
      rw [List.append_assoc, float_scaled hwhole.2 hr hdot, if_neg hwhole.1,
        after_ne_zero (by omega), List.length_append, List.length_cons]
      omega

end Floating

/-! ### Texts between quotes -/

section Quotes

variable {quote : Char}

/-- The closing quote of a text is found, whatever follows it. -/
theorem closing_append (hq : quote ≠ '\\') {w : List Char} (h : Closing quote w) (rest : List Char) :
    closing quote (w ++ rest) = some w.length := by
  induction h with
  | close => cases rest <;> simp [closing]
  | @plain c w hc hb hw ih =>
    have hne : ∃ d tail, w ++ rest = d :: tail := by
      cases hw <;> exact ⟨_, _, rfl⟩
    obtain ⟨d, tail, hd⟩ := hne
    rw [hd] at ih
    rw [List.cons_append, hd, closing]
    simp [hc, hb, ih]
  | @escaped c w hc hw ih =>
    rw [List.cons_append, List.cons_append, closing]
    simp [hq.symm, hc, ih]

theorem closing_eq_some {cs : List Char} {n : Nat} (h : closing quote cs = some n) :
    ∃ w rest, cs = w ++ rest ∧ w.length = n ∧ Closing quote w := by
  fun_induction closing quote cs generalizing n with
  | case1 => cases h
  | case2 c hc =>
    obtain rfl := Option.some.inj h
    exact ⟨[c], [], rfl, rfl, by rw [eq_of_beq hc]; exact .close⟩
  | case3 c hc => cases h
  | case4 c d rest hc =>
    obtain rfl := Option.some.inj h
    exact ⟨[c], d :: rest, rfl, rfl, by rw [eq_of_beq hc]; exact .close⟩
  | case5 => cases h
  | case6 c d rest hc hb hd ih =>
    obtain ⟨m, hm, rfl⟩ := Option.map_eq_some_iff.mp h
    obtain ⟨w, rest, rfl, rfl, hw⟩ := ih hm
    refine ⟨c :: d :: w, rest, rfl, rfl, ?_⟩
    rw [eq_of_beq hb]
    exact .escaped (by simpa using hd) hw
  | case7 c d rest hc hb ih =>
    obtain ⟨m, hm, rfl⟩ := Option.map_eq_some_iff.mp h
    obtain ⟨w, rest, hsplit, rfl, hw⟩ := ih hm
    exact ⟨c :: w, rest, by rw [hsplit]; rfl, rfl, .plain (by simpa using hc) (by simpa using hb) hw⟩

theorem text_append (hq : quote ≠ '\\') {w : List Char} (h : Quoted quote w) (rest : List Char) :
    text quote (w ++ rest) = w.length := by
  obtain ⟨body, rfl, hbody⟩ := h
  simp [text, closing_append hq hbody rest]

theorem munches_text (hq : quote ≠ '\\') : Munches (text quote) (Quoted quote) where
  sound cs h := by
    match cs with
    | [] => exact absurd rfl h
    | c :: rest =>
      by_cases hc : c = quote
      · subst hc
        cases hclosing : closing c rest with
        | none => exact absurd (by simp [text, hclosing]) h
        | some n =>
          obtain ⟨body, rest, rfl, rfl, hbody⟩ := closing_eq_some hclosing
          exact ⟨c :: body, rest, rfl, by simp [text, hclosing], body, rfl, hbody⟩
      · exact absurd (by simp [text, hc]) h
  longest w rest h := (text_append hq h rest).ge

end Quotes

/-! ### Names -/

section Names

variable {w rest : List Char} {c : Char}

theorem ident_cons (h : isIdentStart c) : ident (c :: rest) = 1 + run isIdentPart rest := if_pos h

theorem munches_ident : Munches ident Identifier where
  sound cs h := by
    match cs with
    | [] => exact absurd rfl h
    | c :: rest =>
      by_cases hc : isIdentStart c
      · obtain ⟨part, rest, rfl, hpart, -, hrun⟩ := exists_run isIdentPart rest
        refine ⟨c :: part, rest, rfl, ?_, .mk hc hpart⟩
        rw [ident_cons hc, hrun, List.length_cons]
        omega
      · exact absurd (if_neg hc) h
  longest w rest h := by
    cases h with
    | mk hc hpart =>
      rw [List.cons_append, ident_cons hc, run_append hpart, List.length_cons]
      omega

/-- A name ends where its characters do. -/
theorem ident_append_cons (h : Identifier w) (hc : isIdentPart c = false) :
    ident (w ++ c :: rest) = w.length := by
  cases h with
  | mk hstart hpart =>
    rw [List.cons_append, ident_cons hstart, run_append_cons hpart hc, List.length_cons]
    omega

theorem accesses_cons (fuel : Nat) (rest : List Char) :
    accesses (fuel + 1) ('.' :: rest) =
      if ident rest = 0 then 0 else 1 + ident rest + accesses fuel (rest.drop (ident rest)) := rfl

theorem exists_accesses (fuel : Nat) {cs : List Char} (h : accesses fuel cs ≠ 0) :
    ∃ w rest, cs = w ++ rest ∧ w.length = accesses fuel cs ∧ Accesses w := by
  induction fuel generalizing cs with
  | zero => exact absurd (by simp [accesses]) h
  | succ fuel ih =>
    obtain ⟨tail, rfl⟩ := accesses_ne_zero h
    rw [accesses_cons] at h ⊢
    have hident : ident tail ≠ 0 := fun hz => h (if_pos hz)
    obtain ⟨name, tail, rfl, hlength, hname⟩ := munches_ident.sound tail hident
    rw [if_neg hident, ← hlength, List.drop_left]
    by_cases hz : accesses fuel tail = 0
    · refine ⟨'.' :: name, tail, rfl, ?_, .last hname⟩
      rw [hz, List.length_cons]
      omega
    · obtain ⟨w, rest, rfl, hw, hs⟩ := ih hz
      refine ⟨'.' :: (name ++ w), rest, by simp, ?_, .more hname hs⟩
      rw [← hw, List.length_cons, List.length_append]
      omega

theorem isIdentPart_dot : isIdentPart '.' = false := by decide

theorem isIdentPart_bracket : isIdentPart '[' = false := by decide

theorem le_accesses (h : Accesses w) (rest : List Char) {fuel : Nat} (hf : w.length ≤ fuel) :
    w.length ≤ accesses fuel (w ++ rest) := by
  induction h generalizing fuel with
  | @last name hname =>
    obtain ⟨fuel, rfl⟩ : ∃ n, fuel = n + 1 := ⟨fuel - 1, by rw [List.length_cons] at hf; omega⟩
    have hlong := munches_ident.longest name rest hname
    have hpos := List.length_pos_iff.mpr hname.ne_nil
    rw [List.cons_append, accesses_cons, if_neg (by omega), List.length_cons]
    omega
  | @more name w hname hw ih =>
    obtain ⟨fuel, rfl⟩ : ∃ n, fuel = n + 1 := ⟨fuel - 1, by rw [List.length_cons] at hf; omega⟩
    rw [List.length_cons, List.length_append] at hf
    have hrest : w.length ≤ accesses fuel (w ++ rest) := ih (by omega)
    -- the dot before the next name ends this one
    obtain ⟨tail, rfl⟩ := hw.exists_dot
    have hident : ident (name ++ ('.' :: tail ++ rest)) = name.length :=
      ident_append_cons hname isIdentPart_dot
    have hpos := List.length_pos_iff.mpr hname.ne_nil
    rw [List.cons_append, List.append_assoc, accesses_cons, hident, if_neg (by omega),
      List.drop_left, List.length_cons, List.length_append]
    omega

theorem index_bracketed {digits : List Char} (h : Run isDecimal digits) :
    index ('[' :: (digits ++ ']' :: rest)) = digits.length + 2 := by
  have hrun : run isDecimal (digits ++ ']' :: rest) = digits.length :=
    run_append_cons h.2 (by decide)
  simp [index, hrun, h.1]

theorem exists_index {cs : List Char} (h : index cs ≠ 0) :
    ∃ digits rest, cs = '[' :: (digits ++ ']' :: rest) ∧ Run isDecimal digits := by
  match cs with
  | [] => exact absurd rfl h
  | c :: tail =>
    by_cases hc : c = '['
    · subst hc
      obtain ⟨digits, tail, rfl, hdigits, -, hrun⟩ := exists_run isDecimal tail
      have hne : digits ≠ [] := by
        rintro rfl
        have hz : run isDecimal tail = 0 := hrun
        exact h (by simp [index, hz])
      match tail with
      | [] =>
        rw [List.append_nil] at hrun h
        exact absurd (by simp [index, hrun]) h
      | d :: rest =>
        by_cases hd : d = ']'
        · exact ⟨digits, rest, by rw [hd], hne, hdigits⟩
        · exact absurd (by simp [index, hrun, hd]) h
    · exact absurd (by simp [index, hc]) h

/-- The name of a cell by its parts. -/
theorem rowName_append {array digits : List Char} (ha : Identifier array)
    (hd : Run isDecimal digits) (rest : List Char) :
    rowName (array ++ '[' :: (digits ++ ']' :: rest)) =
      after (array.length + (digits.length + 2)) (accesses rest.length rest) := by
  have hident : ident (array ++ '[' :: (digits ++ ']' :: rest)) = array.length :=
    ident_append_cons ha isIdentPart_bracket
  have hlength : array.length + (digits.length + 2) = (array ++ '[' :: (digits ++ [']'])).length := by
    simp
  have hsplit : array ++ '[' :: (digits ++ ']' :: rest) = array ++ '[' :: (digits ++ [']']) ++ rest := by
    simp
  have hrest : (array ++ '[' :: (digits ++ ']' :: rest)).drop (array.length + (digits.length + 2)) =
      rest := by
    rw [hlength, hsplit, List.drop_left]
  have hpos := List.length_pos_iff.mpr ha.ne_nil
  simp only [rowName, hident, List.drop_left, index_bracketed hd, hrest]
  rw [if_neg (by omega), if_neg (by omega)]

theorem munches_rowName : Munches rowName CellName where
  sound cs h := by
    have hident : ident cs ≠ 0 := fun hz => h (by simp [rowName, hz])
    obtain ⟨array, tail, rfl, hlength, harray⟩ := munches_ident.sound cs hident
    have hindex : index tail ≠ 0 := by
      intro hz
      refine h ?_
      simp [rowName, ← hlength, hz]
    obtain ⟨digits, tail, rfl, hdigits⟩ := exists_index hindex
    rw [rowName_append harray hdigits] at h ⊢
    have haccess : accesses tail.length tail ≠ 0 := fun hz => h (by simp [after, hz])
    obtain ⟨w, rest, rfl, hw, hs⟩ := exists_accesses _ haccess
    refine ⟨array ++ '[' :: (digits ++ ']' :: w), rest, by simp, ?_, .mk harray hdigits hs⟩
    rw [after_ne_zero haccess, ← hw]
    simp only [List.length_append, List.length_cons]
    omega
  longest w rest h := by
    cases h with
    | @mk array digits w harray hdigits haccess =>
      have hlong : w.length ≤ accesses (w ++ rest).length (w ++ rest) :=
        le_accesses haccess rest (by rw [List.length_append]; omega)
      obtain ⟨tail, rfl⟩ := haccess.exists_dot
      have hsplit : array ++ '[' :: (digits ++ ']' :: '.' :: tail) ++ rest =
          array ++ '[' :: (digits ++ ']' :: ('.' :: tail ++ rest)) := by simp
      rw [List.length_cons] at hlong
      rw [hsplit, rowName_append harray hdigits, after_ne_zero (by omega)]
      simp only [List.length_append, List.length_cons] at hlong ⊢
      omega

end Names

end Pattern

end LiveForm
