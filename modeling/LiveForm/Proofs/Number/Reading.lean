import LiveForm.Number.Numeral
import Mathlib.Data.List.TakeWhile

/-! # Text that reads as a number

A text that reads as a double holds nothing but the characters of a numeral, or of a name of a double, and
the blanks around it, of which none is an information separator. So it reads as the text without any
blanks around it does, unless one of those blanks is such a separator. -/

namespace LiveForm

namespace Text

/-- The blanks with which a number may not be padded. -/
def isInformationSeparator (c : Char) : Bool := 28 ≤ c.toNat && c.toNat ≤ 31

/-- The blanks before a text and behind it. -/
def padding (cs : List Char) : List Char :=
  cs.takeWhile isBlank ++ (cs.dropWhile isBlank).reverse.takeWhile isBlank

section Trimming

variable {p q : Char → Bool} {cs front body back : List Char} {c : Char}

theorem mem_separators (h : isInformationSeparator c) : c ∈ ['\x1c', '\x1d', '\x1e', '\x1f'] := by
  have hall : ∀ n < 32, isInformationSeparator (Char.ofNat n) →
      Char.ofNat n ∈ ['\x1c', '\x1d', '\x1e', '\x1f'] := by decide
  have hlt : c.toNat < 32 := by
    simp only [isInformationSeparator, Bool.and_eq_true, decide_eq_true_eq] at h
    omega
  have hc := hall c.toNat hlt
  rw [Char.ofNat_toNat] at hc
  exact hc h

theorem isNumberPadding_iff :
    isNumberPadding c ↔ isBlank c ∧ isInformationSeparator c = false := by
  rw [isNumberPadding, Bool.and_eq_true, Bool.not_eq_true']
  rfl

theorem mem_trimWith (hc : c ∈ cs) (hp : p c = false) : c ∈ trimWith p cs := by
  have hdrop {ds : List Char} (hc : c ∈ ds) : c ∈ ds.dropWhile p := by
    rw [← List.takeWhile_append_dropWhile (p := p) (l := ds)] at hc
    refine (List.mem_append.mp hc).resolve_left fun htake => ?_
    rw [List.mem_takeWhile_imp htake] at hp
    cases hp
  exact List.mem_reverse.mpr (hdrop (List.mem_reverse.mpr (hdrop hc)))

/-- What stands between blanks, and neither starts nor ends with one, is the text without them. -/
theorem trimWith_append (hfront : ∀ c ∈ front, p c) (hback : ∀ c ∈ back, p c)
    (hhead : ∀ c ∈ body.head?, p c = false) (hlast : ∀ c ∈ body.getLast?, p c = false) :
    trimWith p (front ++ body ++ back) = body := by
  cases body with
  | nil =>
    have hall : (front ++ back).dropWhile p = [] := List.dropWhile_eq_nil_iff.mpr fun c hc =>
      (List.mem_append.mp hc).elim (hfront c) (hback c)
    rw [List.append_nil, trimWith, hall]
    rfl
  | cons c rest =>
    obtain ⟨d, init, hinit⟩ : ∃ d init, (c :: rest).reverse = d :: init :=
      List.exists_cons_of_ne_nil (by simp)
    have hd : p d = false := hlast d (by rw [← List.head?_reverse, hinit]; rfl)
    rw [trimWith, List.append_assoc, List.dropWhile_append_of_pos hfront, List.cons_append,
      List.dropWhile_cons_of_neg (by simp [hhead c rfl]), ← List.cons_append, List.reverse_append,
      List.dropWhile_append_of_pos fun c hc => hback c (List.mem_reverse.mp hc), hinit,
      List.dropWhile_cons_of_neg (by simp [hd]), ← hinit, List.reverse_reverse]

theorem not_of_mem_head?_trimWith (h : c ∈ (trimWith p cs).head?) : p c = false := by
  have hstart : trimWith p cs <+: cs.dropWhile p := by
    have hend := List.reverse_prefix.mpr (List.dropWhile_suffix p (l := (cs.dropWhile p).reverse))
    rwa [List.reverse_reverse] at hend
  obtain ⟨after, hafter⟩ := hstart
  have hhead := List.head?_dropWhile_not p cs
  rw [← hafter, List.head?_append, Option.mem_def.mp h] at hhead
  exact hhead

theorem not_of_mem_getLast?_trimWith (h : c ∈ (trimWith p cs).getLast?) : p c = false := by
  have hhead := List.head?_dropWhile_not p (cs.dropWhile p).reverse
  rw [trimWith, List.getLast?_reverse] at h
  rw [Option.mem_def.mp h] at hhead
  exact hhead

theorem mem_of_mem_padding (h : c ∈ padding cs) : c ∈ cs := by
  rcases List.mem_append.mp h with h | h
  · exact (List.takeWhile_sublist _).subset h
  · exact (List.dropWhile_sublist _).subset (List.mem_reverse.mp ((List.takeWhile_sublist _).subset h))

theorem eq_append_trimWith (cs : List Char) : cs = cs.takeWhile isBlank ++ trimWith isBlank cs ++
    ((cs.dropWhile isBlank).reverse.takeWhile isBlank).reverse := by
  have hback : (cs.dropWhile isBlank).reverse.takeWhile isBlank ++
      (cs.dropWhile isBlank).reverse.dropWhile isBlank = (cs.dropWhile isBlank).reverse :=
    List.takeWhile_append_dropWhile
  have hdrop := congrArg List.reverse hback
  rw [List.reverse_append, List.reverse_reverse] at hdrop
  rw [List.append_assoc, trimWith, hdrop, List.takeWhile_append_dropWhile]

/-- A trimmed text neither starts nor ends with a character of a smaller class than the blanks. -/
theorem ends_trimWith (hq : ∀ c, q c → isBlank c) (cs : List Char) :
    (∀ c ∈ (trimWith isBlank cs).head?, q c = false) ∧
      ∀ c ∈ (trimWith isBlank cs).getLast?, q c = false := by
  have hnot {c : Char} (hblank : isBlank c = false) : q c = false :=
    Bool.eq_false_iff.mpr fun hc => Bool.eq_false_iff.mp hblank (hq c hc)
  exact ⟨fun c hc => hnot (not_of_mem_head?_trimWith hc),
    fun c hc => hnot (not_of_mem_getLast?_trimWith hc)⟩

/-- Taking off characters of such a class is enough, if all the blanks around the text are in it. -/
theorem trimWith_eq_of_padding (hq : ∀ c, q c → isBlank c) (h : ∀ c ∈ padding cs, q c) :
    trimWith q cs = trimWith isBlank cs := by
  obtain ⟨hhead, hlast⟩ := ends_trimWith hq cs
  have htrim := trimWith_append (fun c hc => h c (List.mem_append_left _ hc))
    (fun c hc => h c (List.mem_append_right _ (List.mem_reverse.mp hc))) hhead hlast
  rwa [← eq_append_trimWith] at htrim

theorem trimWith_trimWith (hq : ∀ c, q c → isBlank c) (cs : List Char) :
    trimWith q (trimWith isBlank cs) = trimWith isBlank cs := by
  obtain ⟨hhead, hlast⟩ := ends_trimWith hq cs
  have htrim : trimWith q ([] ++ trimWith isBlank cs ++ []) = trimWith isBlank cs :=
    trimWith_append (List.forall_mem_nil _) (List.forall_mem_nil _) hhead hlast
  rwa [List.nil_append, List.append_nil] at htrim

end Trimming

/-! ## The start of a numeral -/

/-- A digit starts the text, or a point with a digit behind it. -/
def Numeral.Starts (cs : List Char) : Prop :=
  ∃ c rest, isDecimal c ∧ (cs = c :: rest ∨ cs = '.' :: c :: rest)

section Starting

variable {cs rest : List Char} {c : Char}

theorem isSome_scan?_of_isDecimal (hc : isDecimal c) : (Numeral.scan? (c :: rest)).isSome := by
  simp only [Numeral.scan?, List.takeWhile_cons_of_pos hc, List.isEmpty_cons, Bool.false_and,
    Bool.false_eq_true, if_false]
  split <;> rfl

theorem isSome_scan?_point : (Numeral.scan? ('.' :: rest)).isSome ↔ ∃ c ∈ rest.head?, isDecimal c := by
  have hpoint : isDecimal '.' = false := rfl
  cases rest with
  | nil => exact ⟨fun h => (by cases h), fun ⟨_, h, _⟩ => (by cases h)⟩
  | cons d rest =>
    simp only [Numeral.scan?, List.takeWhile_cons, List.dropWhile_cons, hpoint, List.isEmpty_nil,
      Bool.true_and, Bool.false_eq_true, if_false, List.head?_cons, Option.mem_def, Option.some.injEq,
      exists_eq_left']
    by_cases hd : isDecimal d <;> simp [hd]

theorem scan?_of_not_isDecimal (hc : ¬isDecimal c) (hpoint : c ≠ '.') :
    Numeral.scan? (c :: rest) = none := by
  simp only [Numeral.scan?, List.takeWhile_cons_of_neg hc, List.dropWhile_cons_of_neg hc]
  split
  · rename_i h
    exact absurd (List.cons.inj h).1 hpoint
  · rfl

theorem isSome_scan?_iff : (Numeral.scan? cs).isSome ↔ Numeral.Starts cs := by
  unfold Numeral.Starts
  constructor
  · intro h
    cases cs with
    | nil => cases h
    | cons c rest =>
      by_cases hc : isDecimal c
      · exact ⟨c, rest, hc, .inl rfl⟩
      · by_cases hpoint : c = '.'
        · subst hpoint
          obtain ⟨d, hd, hdigit⟩ := isSome_scan?_point.mp h
          obtain ⟨rest, rfl⟩ := List.head?_eq_some_iff.mp hd
          exact ⟨d, rest, hdigit, .inr rfl⟩
        · rw [scan?_of_not_isDecimal hc hpoint] at h
          cases h
  · intro ⟨c, rest, hc, hcs⟩
    rcases hcs with rfl | rfl
    · exact isSome_scan?_of_isDecimal hc
    · exact isSome_scan?_point.mpr ⟨c, rfl, hc⟩

end Starting

/-! ## The characters of a numeral -/

/-- Digits, and the marks that stand between them in a numeral. -/
def isNumeralChar (c : Char) : Bool := isDecimal c || ['.', 'e', 'E', '+', '-', '_'].contains c

/-- What stands before the rest of a text are characters of a numeral. -/
def Consumed (cs rest : List Char) : Prop := ∀ c ∈ cs, c ∈ rest ∨ isNumeralChar c

section Numerals

variable {cs ds rest : List Char} {c : Char} {n : Numeral} {negative : Bool} {x : Float}

theorem Consumed.refl (cs : List Char) : Consumed cs cs := fun _ hc => .inl hc

theorem Consumed.trans (h : Consumed cs ds) (h' : Consumed ds rest) : Consumed cs rest :=
  fun c hc => (h c hc).elim (h' c) .inr

theorem Consumed.cons (hc : isNumeralChar c) (h : Consumed cs rest) : Consumed (c :: cs) rest := by
  intro d hd
  rcases List.mem_cons.mp hd with rfl | hd
  · exact .inr hc
  · exact h d hd

theorem isNumeralChar_of_isDecimal (h : isDecimal c) : isNumeralChar c := by
  rw [isNumeralChar, h]
  rfl

theorem consumed_dropWhile (cs : List Char) : Consumed cs (cs.dropWhile isDecimal) := by
  intro c hc
  rw [← List.takeWhile_append_dropWhile (p := isDecimal) (l := cs)] at hc
  exact (List.mem_append.mp hc).symm.imp_right fun htake =>
    isNumeralChar_of_isDecimal (List.mem_takeWhile_imp htake)

theorem consumed_takeSign (cs : List Char) : Consumed cs (Numeral.takeSign cs).2 := by
  unfold Numeral.takeSign
  split
  · exact .cons (by decide) (.refl _)
  · exact .cons (by decide) (.refl _)
  · exact .refl _

theorem consumed_takeExponent? {e : Int} (h : Numeral.takeExponent? cs = some (e, rest)) :
    Consumed cs rest := by
  unfold Numeral.takeExponent? at h
  split at h
  · rename_i c after
    split at h
    · rename_i hmark
      dsimp only at h
      split at h
      · cases h
      · obtain ⟨-, rfl⟩ := Prod.mk.inj (Option.some.inj h)
        refine .cons ?_ ((consumed_takeSign after).trans (consumed_dropWhile _))
        simp only [Bool.or_eq_true, beq_iff_eq] at hmark
        rcases hmark with rfl | rfl <;> decide
    · cases h
  · cases h

theorem consumed_withExponent {digits : List Char} {places : Nat}
    (h : Numeral.withExponent digits places cs = (n, rest)) : Consumed cs rest := by
  unfold Numeral.withExponent at h
  split at h
  · rename_i hexponent
    obtain ⟨-, rfl⟩ := Prod.mk.inj h
    exact consumed_takeExponent? hexponent
  · obtain ⟨-, rfl⟩ := Prod.mk.inj h
    exact .refl _

theorem consumed_scan? (h : Numeral.scan? cs = some (n, rest)) : Consumed cs rest := by
  unfold Numeral.scan? at h
  dsimp only at h
  split at h
  · rename_i after hpoint
    split at h
    · cases h
    · have hdigits := consumed_dropWhile cs
      rw [hpoint] at hdigits
      refine hdigits.trans (.cons (by decide) ((consumed_dropWhile after).trans ?_))
      exact consumed_withExponent (Option.some.inj h)
  · split at h
    · cases h
    · exact (consumed_dropWhile cs).trans (consumed_withExponent (Option.some.inj h))

theorem consumed_withoutUnderscores? {afterDigit : Bool} {body : List Char}
    (h : withoutUnderscores? afterDigit cs = some body) : Consumed cs body := by
  fun_induction withoutUnderscores? afterDigit cs generalizing body with
  | case1 => exact fun c hc => by cases hc
  | case2 afterDigit rest hdigits ih => exact .cons (by decide) (ih h)
  | case3 => cases h
  | case4 afterDigit c rest hunderscore ih =>
    obtain ⟨body, hbody, rfl⟩ := Option.map_eq_some_iff.mp h
    intro d hd
    rcases List.mem_cons.mp hd with rfl | hd
    · exact .inl List.mem_cons_self
    · exact (ih hbody d hd).imp_left (List.mem_cons_of_mem c)

/-- The names of doubles have no blanks. -/
theorem not_isInformationSeparator_of_specialFloat? (h : specialFloat? negative cs = some x)
    (hc : c ∈ cs) : isInformationSeparator c = false := by
  have hname : cs.map Char.toLower ∈ ["inf".toList, "infinity".toList, "nan".toList] := by
    unfold specialFloat? at h
    dsimp only at h
    split at h
    · rename_i hinf
      simp only [Bool.or_eq_true, decide_eq_true_eq] at hinf
      rcases hinf with hinf | hinf <;> simp [hinf]
    · split at h
      · rename_i hnan
        simp [hnan]
      · cases h
  by_contra hsep
  have hmem := mem_separators (Bool.not_eq_false _ ▸ hsep)
  have hlower : ['\x1c', '\x1d', '\x1e', '\x1f'].all (fun d =>
      ["inf".toList, "infinity".toList, "nan".toList].all fun name =>
        !name.contains d.toLower) = true := rfl
  have hfree := List.all_eq_true.mp (List.all_eq_true.mp hlower c hmem) _ hname
  rw [Bool.not_eq_true', ← Bool.not_eq_true, List.contains_iff_mem] at hfree
  exact hfree (List.mem_map.mpr ⟨c, hc, rfl⟩)

theorem not_isInformationSeparator_of_isNumeralChar (h : isNumeralChar c) :
    isInformationSeparator c = false := by
  have hall : ['\x1c', '\x1d', '\x1e', '\x1f'].all (fun d => !isNumeralChar d) = true := rfl
  by_contra hsep
  have hnot := List.all_eq_true.mp hall c (mem_separators (Bool.not_eq_false _ ▸ hsep))
  rw [h] at hnot
  cases hnot

/-- A text with an information separator is no number. -/
theorem readFloat?_eq_none (hc : c ∈ cs) (hsep : isInformationSeparator c) : readFloat? cs = none := by
  have hno {d : Char} (hd : isNumeralChar d) : d ≠ c := by
    rintro rfl
    rw [not_isInformationSeparator_of_isNumeralChar hd] at hsep
    cases hsep
  have hpadding : isNumberPadding c = false :=
    Bool.eq_false_iff.mpr fun h => by
      rw [(isNumberPadding_iff.mp h).2] at hsep
      cases hsep
  by_contra hsome
  obtain ⟨x, hx⟩ := Option.ne_none_iff_exists'.mp hsome
  obtain ⟨body, hbody, hx⟩ := Option.bind_eq_some_iff.mp hx
  have hunsigned : c ∈ (Numeral.takeSign body).2 := by
    have hconsumed := (consumed_withoutUnderscores? hbody).trans (consumed_takeSign body)
    exact (hconsumed c (mem_trimWith hc hpadding)).resolve_right fun h => hno h rfl
  dsimp only at hx
  split at hx
  · rename_i hscan
    exact (consumed_scan? hscan c hunsigned).elim (fun h => by cases h) fun h => hno h rfl
  · have hspecial := not_isInformationSeparator_of_specialFloat? hx hunsigned
    rw [hspecial] at hsep
    cases hsep

/-- Without information separators around it, a text reads as it does without any blanks around it. -/
theorem readFloat?_trimWith (h : ∀ c ∈ padding cs, isInformationSeparator c = false) :
    readFloat? (trimWith isBlank cs) = readFloat? cs := by
  have hblank : ∀ c, isNumberPadding c → isBlank c := fun c hc => (isNumberPadding_iff.mp hc).1
  have hpadding : ∀ c ∈ padding cs, isNumberPadding c := by
    intro c hc
    refine isNumberPadding_iff.mpr ⟨?_, h c hc⟩
    exact (List.mem_append.mp hc).elim List.mem_takeWhile_imp List.mem_takeWhile_imp
  unfold readFloat?
  rw [trimWith_trimWith hblank, trimWith_eq_of_padding hblank hpadding]

end Numerals

end Text

end LiveForm
