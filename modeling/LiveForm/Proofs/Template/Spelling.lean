import LiveForm.Template.Path

/-! # Camel and snake spellings of a name

A name is made of words. Its camel spelling capitalizes all words but the first, its snake spelling puts
underscores between them. The two become one when they are normalized, unless the name has a word of a
single letter between two others: the capital after such a word follows a capital, where no words are
told apart. A key in the one spelling is found under the other in just the same cases. -/

namespace LiveForm.Template

open Text

/-! ## Words -/

/-- A lowercase letter or a digit, in ASCII. -/
def isPlain (c : Char) : Bool := isAsciiLower c || isAsciiDigit c

structure Word where
  initial : Char
  rest : List Char
  initial_lower : isAsciiLower initial
  rest_plain : rest.all isPlain

namespace Word

def text (w : Word) : List Char := w.initial :: w.rest

def capitalized (w : Word) : List Char := w.initial.toUpper :: w.rest

end Word

/-- Words behind the first in the camel spelling. -/
def capitals (ws : List Word) : List Char := ws.flatMap Word.capitalized

/-- Words behind the first in the snake spelling. -/
def spaced (ws : List Word) : List Char := ws.flatMap fun v => '_' :: v.text

theorem capitals_cons (v : Word) (ws : List Word) :
    capitals (v :: ws) = v.initial.toUpper :: (v.rest ++ capitals ws) := rfl

theorem spaced_cons (v : Word) (ws : List Word) :
    spaced (v :: ws) = '_' :: (v.text ++ spaced ws) := rfl

def camel (w : Word) (ws : List Word) : String := String.ofList (w.text ++ capitals ws)

def snake (w : Word) (ws : List Word) : String := String.ofList (w.text ++ spaced ws)

/-- No word but the last is a single letter. -/
def Separable (ws : List Word) : Prop := ∀ v ∈ ws.dropLast, v.rest ≠ []

instance (ws : List Word) : Decidable (Separable ws) :=
  inferInstanceAs (Decidable (∀ v ∈ ws.dropLast, v.rest ≠ []))

/-! ## Characters -/

section Characters

variable {c : Char}

theorem lt_of_isPlain (h : isPlain c) : c.toNat < 123 := by
  simp only [isPlain, isAsciiLower, isAsciiDigit, Bool.or_eq_true, Bool.and_eq_true,
    decide_eq_true_eq] at h
  omega

theorem not_isAsciiUpper_of_isPlain (h : isPlain c) : isAsciiUpper c = false := by
  simp only [isPlain, isAsciiLower, isAsciiDigit, isAsciiUpper, Bool.or_eq_true, Bool.and_eq_true,
    decide_eq_true_eq, Bool.and_eq_false_iff, decide_eq_false_iff_not] at h ⊢
  omega

theorem lowerChar_of_isPlain (h : isPlain c) : lowerChar c = c := by
  have hlt : c.toNat < 128 := Nat.lt_trans (lt_of_isPlain h) (by decide)
  simp [lowerChar, hlt, not_isAsciiUpper_of_isPlain h]

theorem ne_of_isPlain (h : isPlain c) {d : Char} (hd : isPlain d = false) : c ≠ d := by
  rintro rfl
  rw [h] at hd
  cases hd

/-- What holds of the lowercase letters, one by one. -/
theorem of_isAsciiLower {p : Char → Bool} (hall : ∀ n < 26, p (Char.ofNat (97 + n)))
    (h : isAsciiLower c) : p c := by
  simp only [isAsciiLower, Bool.and_eq_true, decide_eq_true_eq] at h
  have hc := hall (c.toNat - 97) (by omega)
  rwa [Nat.add_sub_cancel' h.1, Char.ofNat_toNat] at hc

theorem isAsciiUpper_toUpper (h : isAsciiLower c) : isAsciiUpper c.toUpper :=
  of_isAsciiLower (p := fun c => isAsciiUpper c.toUpper) (by decide) h

theorem lowerChar_toUpper (h : isAsciiLower c) : lowerChar c.toUpper = c :=
  eq_of_beq (of_isAsciiLower (p := fun c => lowerChar c.toUpper == c) (by decide) h)

/-- An ASCII character, and not the one that is replaced in dashed spellings. -/
def IsUndashed (c : Char) : Prop := c.toNat < 128 ∧ c ≠ '-'

theorem undashed_of_isPlain (h : isPlain c) : IsUndashed c :=
  ⟨Nat.lt_trans (lt_of_isPlain h) (by decide), ne_of_isPlain h (by decide)⟩

theorem undashed_of_isAsciiUpper (h : isAsciiUpper c) : IsUndashed c := by
  refine ⟨?_, ?_⟩
  · simp only [isAsciiUpper, Bool.and_eq_true, decide_eq_true_eq] at h
    omega
  · rintro rfl
    cases h

end Characters

/-- In ASCII each character becomes lowercase on its own. -/
theorem lower_of_ascii {cs : List Char} (h : ∀ c ∈ cs, c.toNat < 128) : lower cs = cs.map lowerChar := by
  have hfrom (inWord : Bool) : lowerFrom inWord cs = cs.map lowerChar := by
    induction cs generalizing inWord with
    | nil => rfl
    | cons c rest ih =>
      obtain ⟨hc, hrest⟩ := List.forall_mem_cons.mp h
      have hsigma : (c == 'Σ') = false := beq_false_of_ne fun heq => by simp [heq] at hc
      have hdotted : (c == 'İ') = false := beq_false_of_ne fun heq => by simp [heq] at hc
      rw [lowerFrom, hsigma, hdotted]
      exact congrArg (List.cons _) (ih hrest _)
  exact hfrom false

namespace Word

variable (w : Word)

theorem isPlain_of_mem_rest {c : Char} (h : c ∈ w.rest) : isPlain c :=
  List.all_eq_true.mp w.rest_plain c h

theorem isPlain_of_mem {c : Char} (h : c ∈ w.text) : isPlain c := by
  rcases List.mem_cons.mp h with rfl | h
  · simp [isPlain, w.initial_lower]
  · exact w.isPlain_of_mem_rest h

theorem underscore_not_mem : '_' ∉ w.text := fun h => ne_of_isPlain (w.isPlain_of_mem h) (by decide) rfl

theorem initial_ne_underscore : w.initial ≠ '_' :=
  ne_of_isPlain (w.isPlain_of_mem List.mem_cons_self) (by decide)

theorem map_lowerChar_text : w.text.map lowerChar = w.text :=
  (List.map_congr_left fun _ h => lowerChar_of_isPlain (w.isPlain_of_mem h)).trans (List.map_id _)

theorem map_lowerChar_capitalized : w.capitalized.map lowerChar = w.text := by
  obtain ⟨-, hrest⟩ := List.cons.inj w.map_lowerChar_text
  rw [capitalized, List.map_cons, lowerChar_toUpper w.initial_lower, hrest, text]

theorem undashed_of_mem_capitalized {c : Char} (h : c ∈ w.capitalized) : IsUndashed c := by
  rcases List.mem_cons.mp h with rfl | h
  · exact undashed_of_isAsciiUpper (isAsciiUpper_toUpper w.initial_lower)
  · exact undashed_of_isPlain (w.isPlain_of_mem_rest h)

end Word

/-! ## Splitting into words -/

/-- Characters after which a capital starts a word: an underscore comes between. -/
theorem splitWords_append_upper {cs : List Char} (c : Char) (hcs : ∀ d ∈ cs, isPlain d) {u : Char}
    (hu : isAsciiUpper u) (rest : List Char) :
    splitWords (c :: cs ++ u :: rest) =
      c :: cs ++ (if isPlain c || !cs.isEmpty then ['_'] else []) ++ splitWords (u :: rest) := by
  induction cs generalizing c with
  | nil =>
    simp only [List.cons_append, List.nil_append, splitWords, hu, Bool.and_true]
    cases h : isPlain c <;> simp [show (isAsciiLower c || isAsciiDigit c) = isPlain c from rfl, h]
  | cons d ds ih =>
    obtain ⟨hd, hds⟩ := List.forall_mem_cons.mp hcs
    have hupper := not_isAsciiUpper_of_isPlain hd
    have hnext := ih d hds
    simp only [List.cons_append] at hnext ⊢
    rw [splitWords, hnext, hupper]
    simp [hd]

theorem splitWords_of_not_upper {cs : List Char} (c : Char) (hcs : ∀ d ∈ cs, isAsciiUpper d = false) :
    splitWords (c :: cs) = c :: cs := by
  induction cs generalizing c with
  | nil => rfl
  | cons d ds ih =>
    obtain ⟨hd, hds⟩ := List.forall_mem_cons.mp hcs
    rw [splitWords, ih d hds, hd]
    simp

/-- Words as they come from their capitalized spelling. -/
def joined : List Word → List Char
  | [] => []
  | [v] => v.text
  | v :: next :: rest => v.text ++ (if v.rest.isEmpty then [] else ['_']) ++ joined (next :: rest)

/-- Words behind an underscore are told apart exactly if each can be. -/
theorem joined_eq_spaced_iff (v : Word) (ws : List Word) :
    '_' :: joined (v :: ws) = spaced (v :: ws) ↔ Separable (v :: ws) := by
  induction ws generalizing v with
  | nil => simp [joined, spaced, Separable]
  | cons next rest ih =>
    have hseparable : Separable (v :: next :: rest) ↔ v.rest ≠ [] ∧ Separable (next :: rest) := by
      rw [Separable, List.dropLast_cons_of_ne_nil (by simp), List.forall_mem_cons, Separable]
    rw [spaced_cons, hseparable, joined, ← ih next, List.cons_inj_right, List.append_assoc,
      List.append_cancel_left_eq]
    cases hrest : v.rest with
    | nil =>
      have hhead : joined (next :: rest) ≠ spaced (next :: rest) := by
        intro h
        have hcons : ∃ more, joined (next :: rest) = next.initial :: more := by
          cases rest <;> exact ⟨_, rfl⟩
        obtain ⟨more, hmore⟩ := hcons
        exact next.initial_ne_underscore (List.cons.inj (hmore.symm.trans h)).1
      simpa using hhead
    | cons c cs => simp

/-- Capitals behind a word start words of their own. -/
theorem splitWords_capitals (v : Word) (ws : List Word) :
    (splitWords (capitals (v :: ws))).map lowerChar = joined (v :: ws) := by
  have hword : (v.initial.toUpper :: v.rest).map lowerChar = v.text := v.map_lowerChar_capitalized
  induction ws generalizing v with
  | nil =>
    rw [capitals, List.flatMap_singleton, Word.capitalized,
      splitWords_of_not_upper _ fun d hd => not_isAsciiUpper_of_isPlain (v.isPlain_of_mem_rest hd)]
    exact hword
  | cons next rest ih =>
    -- The capital itself does not count as a letter that a word can end with.
    have hplain : isPlain v.initial.toUpper = false :=
      Bool.eq_false_iff.mpr fun h => by
        simpa [isAsciiUpper_toUpper v.initial_lower] using not_isAsciiUpper_of_isPlain h
    have hsplit := splitWords_append_upper v.initial.toUpper (fun _ => v.isPlain_of_mem_rest)
      (isAsciiUpper_toUpper next.initial_lower) (next.rest ++ capitals rest)
    rw [capitals_cons, ← List.cons_append, capitals_cons, hsplit, List.map_append, List.map_append,
      ← capitals_cons, ih next next.map_lowerChar_capitalized, hplain, hword, joined]
    cases v.rest <;> rfl

/-! ## Normalized spellings -/

section Spellings

variable (w : Word) (ws : List Word)

/-- Splitting adds underscores only. -/
theorem mem_splitWords {cs : List Char} {c : Char} (h : c ∈ splitWords cs) : c ∈ cs ∨ c = '_' := by
  fun_induction splitWords cs with
  | case1 d e rest hboundary ih =>
    rcases List.mem_cons.mp h with rfl | h
    · exact .inl List.mem_cons_self
    · rcases List.mem_cons.mp h with rfl | h
      · exact .inr rfl
      · exact (ih h).imp (List.mem_cons_of_mem d) id
  | case2 d e rest hboundary ih =>
    rcases List.mem_cons.mp h with rfl | h
    · exact .inl List.mem_cons_self
    · exact (ih h).imp (List.mem_cons_of_mem d) id
  | case3 cs hcs => exact .inl h

theorem normalize_ofList {cs : List Char} (h : ∀ c ∈ cs, IsUndashed c) :
    normalize (String.ofList cs) = (splitWords cs).map lowerChar := by
  have hsplit : ∀ c ∈ splitWords cs, IsUndashed c := by
    intro c hc
    obtain hc | rfl := mem_splitWords hc
    · exact h c hc
    · exact ⟨by decide, by decide⟩
  have hdash : ((splitWords cs).map fun c => if c == '-' then '_' else c) = splitWords cs := by
    refine (List.map_congr_left fun c hc => ?_).trans (List.map_id _)
    rw [beq_false_of_ne (hsplit c hc).2]
    rfl
  rw [normalize, String.toList_ofList, hdash, lower_of_ascii fun c hc => (hsplit c hc).1]

theorem undashed_camel : ∀ c ∈ w.text ++ capitals ws, IsUndashed c := by
  intro c hc
  rcases List.mem_append.mp hc with hc | hc
  · exact undashed_of_isPlain (w.isPlain_of_mem hc)
  · obtain ⟨v, -, hc⟩ := List.mem_flatMap.mp hc
    exact v.undashed_of_mem_capitalized hc

theorem mem_snake {c : Char} (h : c ∈ w.text ++ spaced ws) : isPlain c ∨ c = '_' := by
  rcases List.mem_append.mp h with h | h
  · exact .inl (w.isPlain_of_mem h)
  · obtain ⟨v, -, h⟩ := List.mem_flatMap.mp h
    rcases List.mem_cons.mp h with rfl | h
    · exact .inr rfl
    · exact .inl (v.isPlain_of_mem h)

theorem undashed_snake : ∀ c ∈ w.text ++ spaced ws, IsUndashed c := by
  intro c hc
  obtain hc | rfl := mem_snake w ws hc
  · exact undashed_of_isPlain hc
  · exact ⟨by decide, by decide⟩

theorem map_lowerChar_snake : (w.text ++ spaced ws).map lowerChar = w.text ++ spaced ws := by
  refine (List.map_congr_left fun c hc => ?_).trans (List.map_id _)
  obtain hc | rfl := mem_snake w ws hc
  · exact lowerChar_of_isPlain hc
  · decide

/-- The snake spelling is normalized. -/
theorem normalize_snake : normalize (snake w ws) = w.text ++ spaced ws := by
  have hsplit : splitWords (w.text ++ spaced ws) = w.text ++ spaced ws := by
    refine splitWords_of_not_upper w.initial fun d hd => ?_
    obtain hd | rfl := mem_snake w ws (List.mem_cons_of_mem _ hd)
    · exact not_isAsciiUpper_of_isPlain hd
    · decide
  rw [snake, normalize_ofList (undashed_snake w ws), hsplit, map_lowerChar_snake]

theorem normalize_camel : normalize (camel w ws) =
    w.text ++ (if ws.isEmpty then [] else '_' :: joined ws) := by
  rw [camel, normalize_ofList (undashed_camel w ws)]
  cases ws with
  | nil =>
    have hsplit : splitWords w.text = w.text := splitWords_of_not_upper w.initial fun d hd =>
      not_isAsciiUpper_of_isPlain (w.isPlain_of_mem_rest hd)
    simp [capitals, hsplit, w.map_lowerChar_text]
  | cons v ws =>
    have hinitial : isPlain w.initial := w.isPlain_of_mem List.mem_cons_self
    have hsplit := splitWords_append_upper w.initial (fun _ => w.isPlain_of_mem_rest)
      (isAsciiUpper_toUpper v.initial_lower) (v.rest ++ capitals ws)
    have htext : (w.initial :: w.rest).map lowerChar = w.text := w.map_lowerChar_text
    rw [capitals_cons, Word.text, hsplit, List.map_append, List.map_append, ← capitals_cons,
      splitWords_capitals, htext, hinitial]
    simp [Word.text, show lowerChar '_' = '_' by decide]

theorem normalize_camel_eq_iff : normalize (camel w ws) = normalize (snake w ws) ↔ Separable ws := by
  rw [normalize_camel, normalize_snake, List.append_cancel_left_eq]
  cases ws with
  | nil => simp [spaced, Separable]
  | cons v ws => exact joined_eq_spaced_iff v ws

/-! ## Keys in the other spelling -/

/-- The words with nothing between them. -/
def compact : List Char := w.text ++ ws.flatMap Word.text

theorem lower_camel : lower (camel w ws).toList = compact w ws := by
  have hcapitals : (capitals ws).map lowerChar = ws.flatMap Word.text := by
    rw [capitals, List.map_flatMap]
    exact congrArg ws.flatMap (funext Word.map_lowerChar_capitalized)
  rw [camel, String.toList_ofList, lower_of_ascii fun c hc => (undashed_camel w ws c hc).1,
    List.map_append, w.map_lowerChar_text, hcapitals, compact]

theorem lower_snake : lower (snake w ws).toList = w.text ++ spaced ws := by
  rw [snake, String.toList_ofList, lower_of_ascii fun c hc => (undashed_snake w ws c hc).1,
    map_lowerChar_snake]

theorem underscore_not_mem_compact : '_' ∉ compact w ws := by
  intro h
  rcases List.mem_append.mp h with h | h
  · exact w.underscore_not_mem h
  · obtain ⟨v, -, h⟩ := List.mem_flatMap.mp h
    exact v.underscore_not_mem h

theorem filter_of_underscore_not_mem {cs : List Char} (h : '_' ∉ cs) : cs.filter (· != '_') = cs :=
  List.filter_eq_self.mpr fun _ hc => bne_iff_ne.mpr fun heq => h (heq ▸ hc)

/-- Without its underscores the snake spelling is compact. -/
theorem filter_snake : (w.text ++ spaced ws).filter (· != '_') = compact w ws := by
  have hspaced : (spaced ws).filter (· != '_') = ws.flatMap Word.text := by
    induction ws with
    | nil => rfl
    | cons v ws ih =>
      rw [spaced_cons, List.filter_cons_of_neg (by decide), List.filter_append, ih,
        filter_of_underscore_not_mem v.underscore_not_mem, List.flatMap_cons]
  rw [List.filter_append, filter_of_underscore_not_mem w.underscore_not_mem, hspaced, compact]

end Spellings

theorem infix_of_contains {part cs : List Char} (h : contains part cs) : part <:+: cs := by
  induction cs with
  | nil => exact (List.isEmpty_iff.mp h) ▸ List.infix_rfl
  | cons c rest ih =>
    rcases Bool.or_eq_true_iff.mp h with h | h
    · exact (List.isPrefixOf_iff_prefix.mp h).isInfix
    · exact (ih h).trans (List.suffix_cons c rest).isInfix

/-- The words can not be found in one piece where underscores stand between them. -/
theorem not_infix_snake (w v : Word) (ws : List Word) :
    ¬compact w (v :: ws) <:+: w.text ++ spaced (v :: ws) := by
  rintro ⟨before, after, h⟩
  have hcompact := filter_of_underscore_not_mem (underscore_not_mem_compact w (v :: ws))
  have hbefore : before.filter (· != '_') = [] := by
    have hfilter := congrArg (List.filter (· != '_')) h
    rw [List.filter_append, List.filter_append, hcompact, filter_snake] at hfilter
    have hlength := congrArg List.length hfilter
    rw [List.length_append, List.length_append] at hlength
    exact List.length_eq_zero_iff.mp (by omega)
  cases before with
  | nil =>
    have htail : (v :: ws).flatMap Word.text ++ after = spaced (v :: ws) := by
      rw [List.nil_append, compact, List.append_assoc] at h
      exact List.append_cancel_left h
    exact v.initial_ne_underscore (List.cons.inj htail).1
  | cons c before =>
    obtain ⟨rfl, -⟩ := List.cons.inj h
    simp [w.initial_ne_underscore] at hbefore

theorem lookupKey?_singleton (key name : String) (v : Value) :
    lookupKey? ⟨[(.text key, v)]⟩ name =
      if Match.all.any fun kind => kind.holds name key then some key else none := by
  simp only [lookupKey?, Table.keys, List.map_cons, List.map_nil, List.filterMap_cons, Key.text?,
    List.filterMap_nil, List.find?_singleton]
  induction Match.all with
  | nil => rfl
  | cons kind kinds ih =>
    rw [List.findSome?_cons, List.any_cons, ih]
    cases kind.holds name key <;> rfl

/-- **A key is found in the other spelling exactly if both normalize to one.** Where they do not, no
other kind of match holds either. -/
theorem lookupKey?_spellings (w : Word) (ws : List Word) (v : Value) :
    lookupKey? ⟨[(.text (camel w ws), v)]⟩ (snake w ws) =
        (if Separable ws then some (camel w ws) else none) ∧
      lookupKey? ⟨[(.text (snake w ws), v)]⟩ (camel w ws) =
        if Separable ws then some (snake w ws) else none := by
  have hnormalize := normalize_camel_eq_iff w ws
  rw [lookupKey?_singleton, lookupKey?_singleton]
  by_cases h : Separable ws
  · have hspelling := hnormalize.mpr h
    simp [Match.all, Match.holds, hspelling, h]
  · obtain ⟨next, rest, rfl⟩ : ∃ next rest, ws = next :: rest := by
      cases ws with
      | nil => exact absurd (fun _ hv => by cases hv) h
      | cons next rest => exact ⟨next, rest, rfl⟩
    have hunderscore : '_' ∈ w.text ++ spaced (next :: rest) :=
      List.mem_append_right _ List.mem_cons_self
    have hcompact := underscore_not_mem_compact w (next :: rest)
    have hspelling : normalize (camel w (next :: rest)) ≠ normalize (snake w (next :: rest)) :=
      fun heq => h (hnormalize.mp heq)
    have hsame : camel w (next :: rest) ≠ snake w (next :: rest) :=
      fun heq => hspelling (congrArg normalize heq)
    have hcase : compact w (next :: rest) ≠ w.text ++ spaced (next :: rest) :=
      fun heq => hcompact (heq ▸ hunderscore)
    have hsnake : contains (w.text ++ spaced (next :: rest)) (compact w (next :: rest)) = false :=
      Bool.eq_false_iff.mpr fun hin => hcompact ((infix_of_contains hin).subset hunderscore)
    have hcamel : contains (compact w (next :: rest)) (w.text ++ spaced (next :: rest)) = false :=
      Bool.eq_false_iff.mpr fun hin => not_infix_snake w next rest (infix_of_contains hin)
    simp [Match.all, Match.holds, lower_camel, lower_snake, h, hspelling, hspelling.symm, hsame,
      hsame.symm, hcase, hcase.symm, hsnake, hcamel]

/-- **Camel and snake spellings are one name.** They normalize to the same, and a mapping whose only key
is the one is found to have it under the other, for all names but those with a word of a single letter
between two others; for those neither holds. -/
theorem spellings_interchangeable (w : Word) (ws : List Word) :
    (normalize (camel w ws) = normalize (snake w ws) ↔ Separable ws) ∧
      ∀ v : Value,
        lookupKey? ⟨[(.text (camel w ws), v)]⟩ (snake w ws) =
          (if Separable ws then some (camel w ws) else none) ∧
        lookupKey? ⟨[(.text (snake w ws), v)]⟩ (camel w ws) =
          if Separable ws then some (snake w ws) else none :=
  ⟨normalize_camel_eq_iff w ws, lookupKey?_spellings w ws⟩

example : normalize "item2Price" = normalize "item2_price" := by decide +kernel

def letterX : Word := ⟨'x', [], by decide, by decide⟩

def letterY : Word := ⟨'y', [], by decide, by decide⟩

def position : Word := ⟨'p', "osition".toList, by decide, by decide⟩

/-- A single letter in the middle stays with the word after it. -/
theorem not_interchangeable :
    camel letterX [letterY, position] = "xYPosition" ∧
      snake letterX [letterY, position] = "x_y_position" ∧
      normalize "xYPosition" = "x_yposition".toList ∧ normalize "x_y_position" = "x_y_position".toList ∧
      lookupKey? ⟨[(.text "x_y_position", .int 1)]⟩ "xYPosition" = none ∧
      lookupKey? ⟨[(.text "xYPosition", .int 1)]⟩ "x_y_position" = none ∧
      ¬∀ w ws, normalize (camel w ws) = normalize (snake w ws) := by
  refine ⟨by decide +kernel, by decide +kernel, by decide +kernel, by decide +kernel,
    by decide +kernel, by decide +kernel, fun h => ?_⟩
  have hsame := h letterX [letterY, position]
  revert hsame
  decide +kernel

end LiveForm.Template
