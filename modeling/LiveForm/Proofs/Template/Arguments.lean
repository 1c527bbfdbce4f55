import LiveForm.Proofs.Number.Reading
import LiveForm.Template

/-! # Lists of arguments

The arguments of a helper stand between commas, and a comma in quotes is no such comma. Arguments that
are joined by commas come back when they are split, quotes and empty arguments included, if none of them
could be taken for more than one or runs on into the next. Just such lists come from splitting any text;
only the last argument may leave a quote open. -/

namespace LiveForm.Template

open Text

/-! ## Commas and quotes -/

def isQuote (c : Char) : Bool := c == '"' || c == '\''

/-- No comma of the text stands outside quotes. What is in quotes ends at the next quote of the same
sort; a quote without such a one is left open, and is given with the text. -/
inductive Uncut : Option Char → List Char → Prop
  | stop : Uncut none []
  | plain {left : Option Char} {c : Char} {rest : List Char} (hquote : isQuote c = false)
      (hcomma : c ≠ ',') (hrest : Uncut left rest) : Uncut left (c :: rest)
  | quoted {left : Option Char} {q : Char} {inside rest : List Char} (hquote : isQuote q)
      (hinside : q ∉ inside) (hrest : Uncut left rest) : Uncut left (q :: (inside ++ q :: rest))
  | opened {q : Char} {inside : List Char} (hquote : isQuote q) (hinside : q ∉ inside) :
      Uncut (some q) (q :: inside)

section Uncut

variable {left : Option Char} {q c : Char} {cs ds gap : List Char}

theorem isQuote_eq_false_of_isBlank (h : isBlank c) : isQuote c = false := by
  rw [isQuote, Bool.or_eq_false_iff]
  constructor
  · exact beq_false_of_ne fun heq => absurd (heq ▸ h) (by decide)
  · exact beq_false_of_ne fun heq => absurd (heq ▸ h) (by decide)

theorem ne_comma_of_isBlank (h : isBlank c) : c ≠ ',' := fun heq => absurd (heq ▸ h) (by decide)

theorem Uncut.append (hc : Uncut none cs) (hd : Uncut left ds) : Uncut left (cs ++ ds) := by
  generalize hnone : none = final at hc
  induction hc with
  | stop => exact hd
  | plain hquote hcomma _ ih => exact .plain hquote hcomma (ih hnone)
  | quoted hquote hinside _ ih =>
    rw [List.cons_append, List.append_assoc, List.cons_append]
    exact .quoted hquote hinside (ih hnone)
  | opened => cases hnone

/-- One more character behind an open quote, which it may close. -/
theorem Uncut.concat (h : Uncut (some q) cs) :
    Uncut (if c == q then none else some q) (cs ++ [c]) := by
  generalize hsome : some q = final at h
  induction h with
  | stop => cases hsome
  | plain hquote hcomma _ ih => exact .plain hquote hcomma (ih hsome)
  | quoted hquote hinside _ ih =>
    rw [List.cons_append, List.append_assoc, List.cons_append]
    exact .quoted hquote hinside (ih hsome)
  | opened hquote hinside =>
    obtain rfl := Option.some.inj hsome
    split
    · rename_i hclose
      obtain rfl := eq_of_beq hclose
      exact .quoted hquote hinside .stop
    · rename_i hother
      refine .opened hquote fun hmem => ?_
      rcases List.mem_append.mp hmem with hmem | hmem
      · exact hinside hmem
      · exact hother (beq_iff_eq.mpr (List.mem_singleton.mp hmem).symm)

theorem isQuote_of_uncut (h : Uncut (some q) cs) : isQuote q := by
  generalize hsome : some q = final at h
  induction h with
  | stop => cases hsome
  | plain _ _ _ ih => exact ih hsome
  | quoted _ _ _ ih => exact ih hsome
  | opened hquote => exact Option.some.inj hsome ▸ hquote

theorem Uncut.of_cons (hc : isQuote c = false) (h : Uncut left (c :: cs)) : Uncut left cs := by
  generalize htext : c :: cs = text at h
  cases h with
  | stop => cases htext
  | plain _ _ hrest => exact (List.cons.inj htext).2 ▸ hrest
  | quoted hquote => exact absurd ((List.cons.inj htext).1 ▸ hquote) (by simp [hc])
  | opened hquote => exact absurd ((List.cons.inj htext).1 ▸ hquote) (by simp [hc])

end Uncut

/-! ## The walk through a list of arguments -/

namespace Splitter

variable {s : Splitter} {left : Option Char} {q c : Char} {cs gap inside current : List Char}
  {done : List (List Char)}

theorem next_plain (hquote : isQuote c = false) (hcomma : c ≠ ',') :
    next ⟨done, current, none⟩ c = ⟨done, current ++ [c], none⟩ := by
  rw [isQuote] at hquote
  simp [next, hquote, hcomma]

theorem next_quote (hquote : isQuote c) :
    next ⟨done, current, none⟩ c = ⟨done, current ++ [c], some c⟩ := by
  rw [isQuote] at hquote
  simp [next, hquote]

theorem next_comma :
    next ⟨done, current, none⟩ ',' = ⟨done ++ [trimWith isBlank current], [], none⟩ := rfl

theorem next_inside (c : Char) : next ⟨done, current, some q⟩ c =
    ⟨done, current ++ [c], if c == q then none else some q⟩ := rfl

/-- What reading a character can do. -/
inductive Step : Splitter → Char → Splitter → Prop
  | inside {done : List (List Char)} {current : List Char} {q c : Char} :
      Step ⟨done, current, some q⟩ c ⟨done, current ++ [c], if c == q then none else some q⟩
  | quote {done : List (List Char)} {current : List Char} {c : Char} (hquote : isQuote c) :
      Step ⟨done, current, none⟩ c ⟨done, current ++ [c], some c⟩
  | comma {done : List (List Char)} {current : List Char} :
      Step ⟨done, current, none⟩ ',' ⟨done ++ [trimWith isBlank current], [], none⟩
  | plain {done : List (List Char)} {current : List Char} {c : Char} (hquote : isQuote c = false)
      (hcomma : c ≠ ',') : Step ⟨done, current, none⟩ c ⟨done, current ++ [c], none⟩

theorem step_next (s : Splitter) (c : Char) : Step s c (next s c) := by
  obtain ⟨done, current, _ | q⟩ := s
  · by_cases hquote : isQuote c
    · exact next_quote hquote ▸ .quote hquote
    · rw [Bool.not_eq_true] at hquote
      by_cases hcomma : c = ','
      · exact hcomma ▸ .comma
      · exact next_plain hquote hcomma ▸ .plain hquote hcomma
  · exact .inside

/-- What has been read of an argument has no comma outside quotes, and its open quote is known. -/
theorem uncut_next (h : Uncut s.quote s.current) : Uncut (next s c).quote (next s c).current := by
  have hstep := step_next s c
  generalize next s c = t at hstep ⊢
  cases hstep with
  | inside => exact h.concat
  | quote hquote => exact h.append (.opened hquote List.not_mem_nil)
  | comma => exact .stop
  | plain hquote hcomma => exact h.append (.plain hquote hcomma .stop)

theorem uncut_foldl (h : Uncut s.quote s.current) :
    Uncut (cs.foldl next s).quote (cs.foldl next s).current := by
  induction cs generalizing s with
  | nil => exact h
  | cons c cs ih => exact ih (uncut_next h)

theorem foldl_inside (h : q ∉ inside) :
    inside.foldl next ⟨done, current, some q⟩ = ⟨done, current ++ inside, some q⟩ := by
  induction inside generalizing current with
  | nil => rw [List.append_nil, List.foldl_nil]
  | cons c inside ih =>
    obtain ⟨hc, hinside⟩ := not_or.mp (mt List.mem_cons.mpr h)
    rw [List.foldl_cons, next_inside, if_neg (by simpa using Ne.symm hc), ih hinside,
      List.append_assoc, List.singleton_append]

/-- A text that no comma cuts is put behind what there is of the argument. -/
theorem foldl_uncut (h : Uncut left cs) :
    cs.foldl next ⟨done, current, none⟩ = ⟨done, current ++ cs, left⟩ := by
  induction h generalizing current with
  | stop => rw [List.append_nil, List.foldl_nil]
  | plain hquote hcomma _ ih =>
    rw [List.foldl_cons, next_plain hquote hcomma, ih, List.append_assoc, List.singleton_append]
  | quoted hquote hinside _ ih =>
    rw [List.foldl_cons, next_quote hquote, List.foldl_append, foldl_inside hinside, List.foldl_cons,
      next_inside, if_pos (beq_self_eq_true _), ih]
    simp
  | opened hquote hinside =>
    rw [List.foldl_cons, next_quote hquote, foldl_inside hinside, List.append_assoc,
      List.singleton_append]

theorem next_blank (h : Uncut s.quote s.current) (hc : isBlank c) :
    next s c = { s with current := s.current ++ [c] } := by
  have hno := isQuote_eq_false_of_isBlank hc
  have hstep := step_next s c
  generalize next s c = t at hstep ⊢
  cases hstep with
  | @inside _ _ q =>
    have hne : c ≠ q := fun heq => Bool.eq_false_iff.mp hno (heq ▸ isQuote_of_uncut h)
    rw [if_neg (by simpa using hne)]
  | quote hquote => exact absurd hquote (Bool.eq_false_iff.mp hno)
  | comma => exact absurd rfl (ne_comma_of_isBlank hc)
  | plain => rfl

theorem foldl_blanks (h : Uncut s.quote s.current) (hgap : ∀ c ∈ gap, isBlank c) :
    gap.foldl next s = { s with current := s.current ++ gap } := by
  induction gap generalizing s with
  | nil => rw [List.append_nil, List.foldl_nil]
  | cons c gap ih =>
    have hnext := next_blank h (hgap c List.mem_cons_self)
    rw [List.foldl_cons, ih (uncut_next h) fun d hd => hgap d (List.mem_cons_of_mem _ hd), hnext,
      List.append_assoc, List.singleton_append]

end Splitter

section Trimming

variable {left : Option Char} {cs gap : List Char}

/-- The texts that no comma cuts are those that the walk takes for one argument. -/
theorem uncut_iff : Uncut left cs ↔ cs.foldl Splitter.next {} = ⟨[], cs, left⟩ := by
  refine ⟨fun h => Splitter.foldl_uncut h, fun h => ?_⟩
  have hread : Uncut (cs.foldl Splitter.next {}).quote (cs.foldl Splitter.next {}).current :=
    Splitter.uncut_foldl .stop
  rwa [h] at hread

deriving instance DecidableEq for Splitter

instance : Decidable (Uncut left cs) := decidable_of_iff _ uncut_iff.symm

theorem Uncut.of_blanks_append (hgap : ∀ c ∈ gap, isBlank c) (h : Uncut left (gap ++ cs)) :
    Uncut left cs := by
  induction gap with
  | nil => exact h
  | cons b gap ih =>
    have hb := isQuote_eq_false_of_isBlank (hgap b List.mem_cons_self)
    exact ih (fun c hc => hgap c (List.mem_cons_of_mem _ hc)) (h.of_cons hb)

theorem Uncut.of_append_blanks (hgap : ∀ c ∈ gap, isBlank c) (h : Uncut left (cs ++ gap)) :
    Uncut left cs := by
  -- Blanks change neither the finished arguments nor the open quote.
  have hread : Uncut (cs.foldl Splitter.next {}).quote (cs.foldl Splitter.next {}).current :=
    Splitter.uncut_foldl .stop
  have hwalk := uncut_iff.mp h
  rw [List.foldl_append, Splitter.foldl_blanks hread hgap, Splitter.mk.injEq] at hwalk
  obtain ⟨-, hcurrent, hquote⟩ := hwalk
  rwa [hquote, List.append_cancel_right hcurrent] at hread

theorem Uncut.trim (h : Uncut left cs) : Uncut left (trimWith isBlank cs) := by
  rw [eq_append_trimWith cs] at h
  refine (h.of_append_blanks fun c hc => ?_).of_blanks_append fun c hc => ?_
  · exact List.mem_takeWhile_imp (List.mem_reverse.mp hc)
  · exact List.mem_takeWhile_imp hc

end Trimming

/-! ## Splitting and joining -/

/-- A list that splitting can give: no comma cuts its arguments, they are trimmed, and each but the last
closes its quotes. A text without any argument gives the empty list and not an empty argument. -/
structure IsSplit (args : List String) : Prop where
  ne_blank : args ≠ [""]
  trimmed : ∀ a ∈ args, trim a = a
  closed : ∀ a ∈ args.dropLast, Uncut none a.toList
  last : ∀ a ∈ args.getLast?, ∃ left, Uncut left a.toList

/-- The arguments, when the text ends here. -/
def Splitter.pieces (s : Splitter) : List (List Char) := s.done ++ [trimWith isBlank s.current]

/-- The finished arguments are trimmed, and no comma cuts them or what has been read since. -/
structure Splitter.Sound (s : Splitter) : Prop where
  done : ∀ a ∈ s.done, trimWith isBlank a = a ∧ Uncut none a
  current : Uncut s.quote s.current

section Range

variable {s : Splitter} {cs : List Char}

theorem trim_eq_iff {a : String} : trim a = a ↔ trimWith isBlank a.toList = a.toList := by
  rw [trim, ← String.toList_inj, String.toList_ofList]

theorem Splitter.Sound.next (h : s.Sound) (c : Char) : (s.next c).Sound := by
  refine ⟨?_, uncut_next h.current⟩
  have hstep := step_next s c
  generalize s.next c = t at hstep ⊢
  cases hstep with
  | comma =>
    -- The one step that finishes an argument.
    intro a ha
    rcases List.mem_append.mp ha with ha | ha
    · exact h.done a ha
    · rw [List.mem_singleton.mp ha]
      exact ⟨trimWith_trimWith (fun _ hc => hc) _, Uncut.trim h.current⟩
  | inside => exact h.done
  | quote => exact h.done
  | plain => exact h.done

theorem Splitter.sound_foldl (h : s.Sound) : (cs.foldl Splitter.next s).Sound := by
  induction cs generalizing s with
  | nil => exact h
  | cons c cs ih => exact ih (h.next c)

theorem splitArgs_eq (cs : List Char) : splitArgs cs =
    if (cs.foldl Splitter.next {}).pieces = [[]] then []
    else (cs.foldl Splitter.next {}).pieces.map String.ofList := by
  unfold splitArgs Splitter.pieces
  generalize cs.foldl Splitter.next {} = s
  dsimp only
  have hblank : (trimWith isBlank s.current).isEmpty && s.done.isEmpty ↔
      s.done ++ [trimWith isBlank s.current] = [[]] := by
    cases hdone : s.done <;> simp
  simp only [hblank]
  split <;> rfl

theorem Splitter.Sound.isSplit (h : s.Sound) (hne : s.pieces ≠ [[]]) :
    IsSplit (s.pieces.map String.ofList) := by
  have hmap : s.pieces.map String.ofList =
      s.done.map String.ofList ++ [String.ofList (trimWith isBlank s.current)] :=
    List.map_append
  refine ⟨fun hblank => hne ?_, fun a ha => ?_, fun a ha => ?_, fun a ha => ?_⟩
  · have hinj : ∀ cs ds, String.ofList cs = String.ofList ds → cs = ds := fun _ _ =>
      String.ofList_inj.mp
    have hlist : s.pieces.map String.ofList = [[]].map String.ofList := hblank
    exact (List.map_inj_right hinj).mp hlist
  · obtain ⟨piece, hpiece, rfl⟩ := List.mem_map.mp ha
    rw [trim_eq_iff, String.toList_ofList]
    rcases List.mem_append.mp hpiece with hpiece | hpiece
    · exact (h.done piece hpiece).1
    · rw [List.mem_singleton.mp hpiece, trimWith_trimWith fun _ hc => hc]
  · rw [hmap, List.dropLast_concat] at ha
    obtain ⟨piece, hpiece, rfl⟩ := List.mem_map.mp ha
    rw [String.toList_ofList]
    exact (h.done piece hpiece).2
  · rw [hmap, List.getLast?_concat] at ha
    rw [← Option.mem_some.mp ha, String.toList_ofList]
    exact ⟨s.quote, h.current.trim⟩

/-- **Splitting any text gives such a list.** -/
theorem isSplit_splitArgs (cs : List Char) : IsSplit (splitArgs cs) := by
  have hsound : (cs.foldl Splitter.next {}).Sound :=
    Splitter.sound_foldl ⟨List.forall_mem_nil _, .stop⟩
  rw [splitArgs_eq]
  split
  · exact ⟨(List.cons_ne_nil _ _).symm, List.forall_mem_nil _, List.forall_mem_nil _,
      fun a ha => (by cases ha)⟩
  · rename_i hne
    exact hsound.isSplit hne

end Range

section Joining

variable {args : List String} {a : String} {gap : List Char}

theorem trimWith_gap (hgap : ∀ c ∈ gap, isBlank c) (h : trim a = a) :
    trimWith isBlank (gap ++ a.toList) = a.toList := by
  rw [trim_eq_iff] at h
  have hhead : ∀ c ∈ a.toList.head?, isBlank c = false := fun c hc =>
    not_of_mem_head?_trimWith (h.symm ▸ hc)
  have hlast : ∀ c ∈ a.toList.getLast?, isBlank c = false := fun c hc =>
    not_of_mem_getLast?_trimWith (h.symm ▸ hc)
  have htrim := trimWith_append hgap (List.forall_mem_nil _) hhead hlast
  rwa [List.append_nil] at htrim

/-- A comma and a space behind an argument finish it, and the space is left. -/
theorem foldl_separated (done : List (List Char)) (hgap : ∀ c ∈ gap, isBlank c) (htrim : trim a = a)
    (h : Uncut none a.toList) : (a.toList ++ [',', ' ']).foldl Splitter.next ⟨done, gap, none⟩ =
      ⟨done ++ [a.toList], [' '], none⟩ := by
  rw [List.foldl_append, Splitter.foldl_uncut h, List.foldl_cons, Splitter.next_comma,
    trimWith_gap hgap htrim]
  rfl

/-- A walk over arguments that are joined finishes all but the last of them. What it starts with are
the blanks behind the comma before. -/
theorem pieces_foldl_joined (done : List (List Char)) (hgap : ∀ c ∈ gap, isBlank c)
    (htrim : ∀ b ∈ a :: args, trim b = b) (hclosed : ∀ b ∈ (a :: args).dropLast, Uncut none b.toList)
    (hlast : ∀ b ∈ (a :: args).getLast?, ∃ left, Uncut left b.toList) :
    (([',', ' '].intercalate ((a :: args).map String.toList)).foldl Splitter.next
      ⟨done, gap, none⟩).pieces = done ++ (a :: args).map String.toList := by
  induction args generalizing a done gap with
  | nil =>
    obtain ⟨left, hleft⟩ := hlast a rfl
    rw [List.map_singleton, List.intercalate_singleton, Splitter.foldl_uncut hleft]
    exact congrArg (fun last => done ++ [last]) (trimWith_gap hgap (htrim a List.mem_cons_self))
  | cons b args ih =>
    rw [List.dropLast_cons_cons] at hclosed
    rw [List.getLast?_cons_cons] at hlast
    have hfirst := foldl_separated done hgap (htrim a List.mem_cons_self)
      (hclosed a List.mem_cons_self)
    have hspace : ∀ c ∈ [' '], isBlank c := fun c hc => List.mem_singleton.mp hc ▸ rfl
    have hrest := ih (done ++ [a.toList]) hspace (fun c hc => htrim c (List.mem_cons_of_mem _ hc))
      (fun c hc => hclosed c (List.mem_cons_of_mem _ hc)) hlast
    rw [List.map_cons, List.map_cons, List.intercalate_cons_cons, List.foldl_append, hfirst,
      ← List.map_cons, hrest, List.append_assoc, List.singleton_append]

theorem map_ofList_toList (args : List String) :
    (args.map String.toList).map String.ofList = args := by
  simp [Function.comp_def]

/-- **Arguments come back exactly if they are of such a list.** -/
theorem splitArgs_intercalate_iff (args : List String) :
    splitArgs (String.intercalate ", " args).toList = args ↔ IsSplit args := by
  refine ⟨fun h => h ▸ isSplit_splitArgs _, fun h => ?_⟩
  cases args with
  | nil => rfl
  | cons a args =>
    have hpieces : (([',', ' '].intercalate ((a :: args).map String.toList)).foldl Splitter.next
        {}).pieces = (a :: args).map String.toList :=
      pieces_foldl_joined [] (List.forall_mem_nil _) h.trimmed h.closed h.last
    have hne : (a :: args).map String.toList ≠ [[]] := fun hblank => h.ne_blank <| by
      rw [← map_ofList_toList (a :: args), hblank]
      rfl
    have hseparator : ", ".toList = [',', ' '] := rfl
    rw [String.toList_intercalate, hseparator, splitArgs_eq, hpieces, if_neg hne, map_ofList_toList]

/-- **Arguments that are joined come back when they are split**, if each is trimmed, closes the quotes
that it opens and has no comma outside quotes. A single empty argument leaves nothing to split. -/
theorem splitArgs_intercalate (hne : args ≠ [""])
    (h : ∀ a ∈ args, trim a = a ∧ Uncut none a.toList) :
    splitArgs (String.intercalate ", " args).toList = args := by
  refine (splitArgs_intercalate_iff args).mpr
    ⟨hne, fun a ha => (h a ha).1, fun a ha => ?_, fun a ha => ⟨none, ?_⟩⟩
  · exact (h a ((List.dropLast_sublist args).subset ha)).2
  · exact (h a (List.mem_of_getLast? ha)).2

end Joining

/-- Commas and quotes of the other sort in quotes, quoted parts side by side, and empty arguments. -/
def quotedArguments : List String := ["", "a.b", "'x, \"y' + \"it's, z\"", "", "''\",\"", ""]

theorem splitArgs_intercalate_quotedArguments :
    quotedArguments ≠ [""] ∧ (∀ a ∈ quotedArguments, trim a = a ∧ Uncut none a.toList) ∧
      splitArgs ", a.b, 'x, \"y' + \"it's, z\", , ''\",\", ".toList = quotedArguments := by
  have hne : quotedArguments ≠ [""] := by decide
  have hargs : ∀ a ∈ quotedArguments, trim a = a ∧ Uncut none a.toList := by decide +kernel
  have htext : String.intercalate ", " quotedArguments =
      ", a.b, 'x, \"y' + \"it's, z\", , ''\",\", " := by decide +kernel
  exact ⟨hne, hargs, htext ▸ splitArgs_intercalate hne hargs⟩

end LiveForm.Template
