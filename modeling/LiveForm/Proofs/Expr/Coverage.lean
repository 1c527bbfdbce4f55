import LiveForm.Proofs.Engine
import LiveForm.Proofs.Expr.OneToken
import LiveForm.Proofs.Row

/-! # What extraction covers

An evaluation reads names that stand in the tree; extraction mentions names that stand in the tree.
They differ along chains of accesses. Of a chain extraction mentions the whole id only, or what it
leaves when accesses `value` at its end are taken off, while an evaluation may read the id of any
part of the chain that starts where it starts. The heads of the mentioned ids make up for the
shortest part. Reserved names are never mentioned, but read when a scope binds them. And extraction
walks all of a tree, which may take more room than to evaluate the part that is needed. -/

namespace LiveForm

open Text

/-! ## Parts of dotted ids -/

/-- An id goes on from another one with a dot. -/
def GoesOn (part id : String) : Prop := ∃ rest, id = part ++ "." ++ rest

/-- An id with a number of accesses `value` behind it. -/
def valued (id : String) : Nat → String
  | 0 => id
  | n + 1 => valued id n ++ "." ++ "value"

section Parts

variable {part id field : String}

theorem GoesOn.access (h : GoesOn part id) (field : String) :
    GoesOn part (id ++ "." ++ field) := by
  obtain ⟨rest, rfl⟩ := h
  exact ⟨rest ++ "." ++ field, by simp [String.append_assoc]⟩

theorem GoesOn.toList (h : GoesOn part id) : ∃ rest, id.toList = part.toList ++ '.' :: rest := by
  obtain ⟨rest, rfl⟩ := h
  exact ⟨rest.toList, by simp⟩

theorem GoesOn.hasDot (h : GoesOn part id) : hasChar '.' id := by
  obtain ⟨rest, hrest⟩ := h.toList
  simp [hasChar, hrest]

theorem GoesOn.beforeDot_eq (h : GoesOn part id) : beforeDot id = beforeDot part := by
  obtain ⟨rest, hrest⟩ := h.toList
  rw [beforeDot, hrest, List.takeWhile_append]
  split
  · rename_i hall
    have hpart := (List.takeWhile_prefix _).eq_of_length hall
    simp [beforeDot, hpart]
  · rfl

theorem beforeDot_of_not_mem (h : '.' ∉ id.toList) : beforeDot id = id := by
  have hall : id.toList.takeWhile (· != '.') = id.toList :=
    List.takeWhile_eq_self_iff.mpr fun c hc => by
      simp only [bne_iff_ne, ne_eq]
      rintro rfl
      exact h hc
  rw [beforeDot, hall, String.ofList_toList]

theorem beforeDot_of_isReserved (h : Expr.isReserved id) : beforeDot id = id := by
  have hall : ∀ name ∈ Builtin.reserved, beforeDot name = name := by decide +kernel
  exact hall id (by simpa [Expr.isReserved] using h)

end Parts

namespace Expr

/-! ## Names as scanning leaves them -/

mutual

/-- Whether brackets stand only in names that have dots as well, as cells of rows have. -/
def wellNamed : Expr → Bool
  | literal _ => true
  | name id => hasChar '.' id || !hasChar '[' id
  | binary _ left right => left.wellNamed && right.wellNamed
  | unary _ operand => operand.wellNamed
  | call _ args => argumentsWellNamed args
  | access object field => object.wellNamed && !hasChar '[' field
  | choice condition whenTrue whenFalse =>
    condition.wellNamed && whenTrue.wellNamed && whenFalse.wellNamed

def argumentsWellNamed : List Expr → Bool
  | [] => true
  | e :: rest => e.wellNamed && argumentsWellNamed rest

end

theorem wellNamed_of_atom {t : Token} {e : Expr} (h : Atom t e) (ht : Lexeme t) : e.wellNamed := by
  cases h with
  | rowName hk => simp [wellNamed, hasChar, ht.rowName hk]
  | ident hk => simp [wellNamed, hasChar, (ht.ident hk).2]
  | _ => simp [wellNamed]

theorem wellNamed_of_derives {phrase : Phrase} {ts : List Token} {e : Expr}
    (h : Derives phrase ts e) (ht : ∀ t ∈ ts, Lexeme t) : e.wellNamed := by
  induction h with
  | choice _ _ _ _ _ ihc iht ihf =>
    simp [wellNamed, ihc fun t hm => ht t (by simp [hm]), iht fun t hm => ht t (by simp [hm]),
      ihf fun t hm => ht t (by simp [hm])]
  | chained _ _ _ _ ihl ihr | compared _ _ _ ihl ihr =>
    simp [wellNamed, ihl fun t hm => ht t (by simp [hm]), ihr fun t hm => ht t (by simp [hm])]
  | signed _ _ ih => simp [wellNamed, ih fun t hm => ht t (by simp [hm])]
  | @access dot field _ _ _ _ hk ih =>
    have hf := ((ht field (by simp)).ident hk).2
    simp [wellNamed, hasChar, hf, ih fun t hm => ht t (by simp [hm])]
  | call _ _ _ _ ih => exact ih fun t hm => ht t (by simp [hm])
  | atom ha => exact wellNamed_of_atom ha (ht _ (by simp))
  | parentheses _ _ _ ih => exact ih fun t hm => ht t (by simp [hm])
  | noArguments => simp [wellNamed, argumentsWellNamed]
  | lastArgument _ ih => simp [wellNamed, argumentsWellNamed, ih ht]
  | nextArgument _ _ _ ihe ihr =>
    have hrest := ihr fun t hm => ht t (by simp [hm])
    rw [wellNamed] at hrest ⊢
    rw [argumentsWellNamed, hrest, ihe fun t hm => ht t (by simp [hm])]
    rfl
  | unconditional _ ih | operand _ ih | unsigned _ ih | unaccessed _ ih | uncalled _ ih =>
    exact ih ht

theorem wellNamed_of_parse {source : String} {e : Expr} (h : parse source = .ok e) :
    e.wellNamed := by
  unfold parse at h
  split at h
  · rename_i tokens hs
    obtain ⟨body, position, rfl, hbody⟩ := Token.scan_eq_ok hs
    exact wellNamed_of_derives (Parser.whole_sound (Lexeme.eof_not_mem hbody) rfl h) hbody
  · cases h

/-! ## Chains of accesses -/

/-- Along a chain only its own parts are looked up. -/
theorem probes_of_dotted {e : Expr} {d x : String} (hd : e.dotted? = some d) (hx : x ∈ e.probes) :
    x = d ∨ GoesOn x d := by
  induction e using dotted?.induct generalizing d with
  | case1 id =>
    obtain rfl := Option.some.inj hd
    exact .inl (by simpa [probes] using hx)
  | case2 object field ih =>
    rw [probes, hd, List.mem_append] at hx
    rw [dotted?] at hd
    obtain ⟨head, hhead, rfl⟩ := Option.map_eq_some_iff.mp hd
    rcases hx with hx | hx
    · exact .inl (by simpa using hx)
    · rcases ih hhead hx with rfl | hgoes
      · exact .inr ⟨field, rfl⟩
      · exact .inr (hgoes.access field)
  | case3 e hname haccess => simp [dotted?] at hd

/-- A chain is mentioned up to the accesses `value` at its end, unless it starts with a reserved
name. -/
theorem mentions_of_dotted {e : Expr} {d : String} (hd : e.dotted? = some d) :
    (∃ id ∈ e.mentions, ∃ n, d = valued id n) ∨ isReserved (beforeDot d) := by
  induction e using dotted?.induct generalizing d with
  | case1 id =>
    obtain rfl := Option.some.inj hd
    by_cases hr : isReserved id
    · exact .inr (by rwa [beforeDot_of_isReserved hr])
    · exact .inl ⟨id, by simp [mentions, hr], 0, rfl⟩
  | case2 object field ih =>
    rw [dotted?] at hd
    obtain ⟨head, hhead, rfl⟩ := Option.map_eq_some_iff.mp hd
    simp only [mentions, hhead]
    split
    · rename_i hfield
      rcases ih hhead with ⟨id, hid, n, rfl⟩ | hr
      · exact .inl ⟨id, hid, n + 1, by rw [hfield, valued]⟩
      · exact .inr (by rwa [GoesOn.beforeDot_eq ⟨field, rfl⟩])
    · split
      · rename_i hr
        exact .inr hr
      · exact .inl ⟨_, by simp, 0, rfl⟩
  | case3 e hname haccess => simp [dotted?] at hd

/-- A chain that starts with a name without dots has no brackets in it. -/
theorem bracket_not_mem_of_dotted {e : Expr} {d x : String} (hw : e.wellNamed)
    (hd : e.dotted? = some d) (hx : x ∈ e.probes) (hdot : '.' ∉ x.toList) : '[' ∉ d.toList := by
  induction e using dotted?.induct generalizing d with
  | case1 id =>
    obtain rfl := Option.some.inj hd
    obtain rfl : x = id := by simpa [probes] using hx
    simpa [wellNamed, hasChar, hdot] using hw
  | case2 object field ih =>
    rw [probes, hd, List.mem_append] at hx
    rw [dotted?] at hd
    obtain ⟨head, hhead, rfl⟩ := Option.map_eq_some_iff.mp hd
    rw [wellNamed, Bool.and_eq_true] at hw
    rcases hx with hx | hx
    · obtain rfl : x = head ++ "." ++ field := by simpa using hx
      exact absurd (by simp) hdot
    · have hhead := ih hw.1 hhead hx
      have hfield : '[' ∉ field.toList := by simpa [hasChar] using hw.2
      simp [hhead, hfield]
  | case3 e hname haccess => simp [dotted?] at hd

/-! ## What is looked up and what is mentioned -/

/-- How a name that an expression looks up stands to the ids that it mentions. -/
inductive Accounted (ids : List String) (x : String) : Prop where
  | mentioned {id : String} (n : Nat) : id ∈ ids → x = valued id n → Accounted ids x
  | part {id : String} : id ∈ ids → GoesOn x id → ('.' ∉ x.toList → '[' ∉ id.toList) →
    Accounted ids x
  | reserved : isReserved (beforeDot x) → Accounted ids x

theorem Accounted.mono {ids ids' : List String} {x : String} (h : Accounted ids x)
    (hs : ∀ id ∈ ids, id ∈ ids') : Accounted ids' x := by
  cases h with
  | mentioned n hid hx => exact .mentioned n (hs _ hid) hx
  | part hid hgoes hb => exact .part (hs _ hid) hgoes hb
  | reserved hr => exact .reserved hr

theorem Accounted.left {ids : List String} {x : String} (h : Accounted ids x)
    (others : List String) : Accounted (ids ++ others) x :=
  h.mono fun _ hid => List.mem_append_left others hid

theorem Accounted.right {ids : List String} {x : String} (h : Accounted ids x)
    (others : List String) : Accounted (others ++ ids) x :=
  h.mono fun _ hid => List.mem_append_right others hid

/-- Chains apart, an access looks up and mentions what its object does. -/
theorem accounted_access {object : Expr} {field x : String} (hw : (access object field).wellNamed)
    (ih : x ∈ object.probes → Accounted object.mentions x)
    (hx : x ∈ (access object field).probes) : Accounted (access object field).mentions x := by
  cases hd : object.dotted? with
  | none =>
    have hnone : (access object field).dotted? = none := by rw [dotted?, hd]; rfl
    rw [probes, hnone] at hx
    simpa [mentions, hd] using ih hx
  | some head =>
    have hsome : (access object field).dotted? = some (head ++ "." ++ field) := by
      rw [dotted?, hd]
      rfl
    rcases probes_of_dotted hsome hx with rfl | hgoes
    · rcases mentions_of_dotted hsome with ⟨id, hid, n, hn⟩ | hr
      · exact .mentioned n hid hn
      · exact .reserved hr
    · have hbracket := bracket_not_mem_of_dotted hw hsome hx
      rw [probes, hsome, List.mem_append] at hx
      simp only [mentions, hd]
      split
      · refine ih (hx.resolve_left fun hx => ?_)
        obtain rfl : x = head ++ "." ++ field := by simpa using hx
        have hlength := congrArg List.length hgoes.toList.choose_spec
        simp at hlength
      · split
        · rename_i hr
          exact .reserved (hgoes.beforeDot_eq ▸ hr)
        · exact .part (List.mem_singleton_self _) hgoes hbracket

mutual

theorem accounted_of_mem_probes {e : Expr} (hw : e.wellNamed) {x : String} (hx : x ∈ e.probes) :
    Accounted e.mentions x := by
  match e with
  | literal v => simp [probes] at hx
  | name id =>
    obtain rfl : x = id := by simpa [probes] using hx
    rcases mentions_of_dotted (e := name x) rfl with ⟨id, hid, n, hn⟩ | hr
    · exact .mentioned n hid hn
    · exact .reserved hr
  | binary op left right =>
    rw [wellNamed, Bool.and_eq_true] at hw
    rw [probes, List.mem_append] at hx
    rw [mentions]
    rcases hx with hx | hx
    · exact (accounted_of_mem_probes hw.1 hx).left right.mentions
    · exact (accounted_of_mem_probes hw.2 hx).right left.mentions
  | unary op operand =>
    rw [wellNamed] at hw
    rw [probes] at hx
    rw [mentions]
    exact accounted_of_mem_probes hw hx
  | call function args =>
    rw [wellNamed] at hw
    rw [probes] at hx
    rw [mentions]
    exact accounted_of_mem_argumentProbes hw hx
  | access object field =>
    have hobject : object.wellNamed := by
      rw [wellNamed, Bool.and_eq_true] at hw
      exact hw.1
    exact accounted_access hw (accounted_of_mem_probes hobject) hx
  | choice condition whenTrue whenFalse =>
    rw [wellNamed, Bool.and_eq_true, Bool.and_eq_true] at hw
    rw [probes, List.mem_append, List.mem_append] at hx
    rw [mentions]
    rcases hx with (hx | hx) | hx
    · exact ((accounted_of_mem_probes hw.1.1 hx).left _).left _
    · exact ((accounted_of_mem_probes hw.1.2 hx).right _).left _
    · exact (accounted_of_mem_probes hw.2 hx).right _

theorem accounted_of_mem_argumentProbes {args : List Expr} (hw : argumentsWellNamed args)
    {x : String} (hx : x ∈ argumentProbes args) : Accounted (argumentMentions args) x := by
  match args with
  | [] => simp [argumentProbes] at hx
  | e :: rest =>
    rw [argumentsWellNamed, Bool.and_eq_true] at hw
    rw [argumentProbes, List.mem_append] at hx
    rw [argumentMentions]
    rcases hx with hx | hx
    · exact (accounted_of_mem_probes hw.1 hx).left _
    · exact (accounted_of_mem_argumentProbes hw.2 hx).right _

end

end Expr

/-! ## What an engine reads and what it extracts -/

namespace Engine

/-- The names that an evaluation may read although extraction leaves them out, when it gives these
ids: functions and constants, which are never mentioned; dotted parts of a mentioned chain, of which
only the head is added; and a mentioned id with accesses `value`, which are taken to mean the id. -/
inductive LeftOut (ids : List String) (x : String) : Prop where
  | reserved : Expr.isReserved (beforeDot x) → LeftOut ids x
  | part {id : String} : hasChar '.' x → id ∈ ids → GoesOn x id → LeftOut ids x
  | valued {id : String} (n : Nat) : id ∈ ids → x = valued id (n + 1) → LeftOut ids x

theorem covered_of_accounted {ids covered : List String} {x : String} (h : Expr.Accounted ids x)
    (hc : withHeads ids [] = .ok covered) : x ∈ covered ∨ LeftOut ids x := by
  cases h with
  | reserved hr => exact .inr (.reserved hr)
  | @mentioned id n hid hx =>
    cases n with
    | zero =>
      obtain rfl : x = id := hx
      exact .inl (mem_withHeads hc hid)
    | succ n => exact .inr (.valued n hid hx)
  | @part id hid hgoes hbracket =>
    by_cases hdot : '.' ∈ x.toList
    · exact .inr (.part (by simpa [hasChar] using hdot) hid hgoes)
    · have hhead : dottedHead? id = .ok (some x) := by
        rw [dottedHead?, if_pos hgoes.hasDot, isRowId, RowRef.parse?_of_not_mem (hbracket hdot),
          hgoes.beforeDot_eq, beforeDot_of_not_mem hdot]
        rfl
      exact .inl (head_mem_withHeads hc hid (by simp) hhead)

/-- What an evaluation that succeeds reads, the tree of its text looks up. -/
theorem reply_eq_ok {text : String} {scope : Scope} {answer : Answer}
    (h : reply text scope = .ok answer) (hok : answer.error = none) :
    ∃ e, Expr.parse text = .ok e ∧ ∀ x ∈ answer.dependencies, x ∈ e.probes := by
  obtain ⟨e, hp, hreads⟩ := reads_of_reply h hok
  refine ⟨e, hp, fun x hx => ?_⟩
  rw [hreads] at hx
  exact e.reads_subset_probes depthLimit scope (List.mem_eraseDups.mp hx)

/-- **Extraction covers what an evaluation reads.** When a text evaluates, whatever the scope, its
ids can be extracted, unless its tree is too high for that. Every id that was read is among them and
their heads, or of a kind that extraction leaves out. The heads cannot be told only when an extracted
cell of a row has an index of too many digits. -/
theorem evaluate_covered {g h : Engine} (hg : g.Faithful) {text : String} {scope : Scope}
    {answer : Answer} (hr : (evaluate text scope).run g = (.ok answer, h))
    (hok : answer.error = none) :
    ∃ e, Expr.parse text = .ok e ∧
      (depthLimit < e.height → Answers (dependencies text) (.error .depth)) ∧
      (e.height ≤ depthLimit → ∃ ids, Answers (dependencies text) (.ok ids) ∧
        ((∃ covered, withHeads ids [] = .ok covered ∧
            ∀ x ∈ answer.dependencies, x ∈ covered ∨ LeftOut ids x) ∨
          ∃ id ∈ ids, ∃ c, RowRef.parse? id = .error c)) := by
  obtain ⟨g', hg', -⟩ := answers_evaluate text scope g hg
  have hreply : reply text scope = .ok answer := by
    rw [hr] at hg'
    exact (Prod.mk.inj hg').1.symm
  obtain ⟨e, hp, hprobes⟩ := reply_eq_ok hreply hok
  have hids : mentionedIn text =
      if depthLimit < e.height then .error .depth else .ok e.references := by
    rw [mentionedIn, hp, mentioned]
  have hanswers := answers_dependencies text
  refine ⟨e, hp, fun hhigh => ?_, fun hlow => ⟨e.references, ?_, ?_⟩⟩
  · rwa [hids, if_pos hhigh] at hanswers
  · rwa [hids, if_neg (Nat.not_lt.mpr hlow)] at hanswers
  · cases hc : withHeads e.references [] with
    | error c =>
      obtain ⟨id, hid, hf⟩ := withHeads_eq_error hc
      exact .inr ⟨id, hid, c, hf⟩
    | ok covered =>
      refine .inl ⟨covered, rfl, fun x hx => ?_⟩
      have hmentions := Expr.accounted_of_mem_probes (Expr.wellNamed_of_parse hp) (hprobes x hx)
      have hreferences : Expr.Accounted e.references x :=
        hmentions.mono fun id hid => List.mem_eraseDups.mpr hid
      exact covered_of_accounted hreferences hc

/-- A scope that binds one name. -/
def only (id : String) (v : Value) : Scope := fun x => if x = id then some v else none

theorem evaluate_covered_length :
    ∃ ids, Answers (dependencies "rows.length") (.ok ids) ∧
      ((∃ covered, withHeads ids [] = .ok covered ∧
          ∀ x ∈ ["rows"], x ∈ covered ∨ LeftOut ids x) ∨
        ∃ id ∈ ids, ∃ c, RowRef.parse? id = .error c) := by
  obtain ⟨g, hr⟩ : ∃ g, (evaluate "rows.length" (only "rows" (.list [.null, .null]))).run {} =
      (.ok ⟨.int 2, none, ["rows"]⟩, g) := ⟨_, rfl⟩
  obtain ⟨e, hp, -, hlow⟩ := evaluate_covered faithful_new hr rfl
  have htree : Expr.parse "rows.length" = .ok (.access (.name "rows") "length") := rfl
  obtain rfl : e = .access (.name "rows") "length" := Except.ok.inj (hp.symm.trans htree)
  exact hlow (by decide)

/-! ### An index that cannot be read -/

/-- The id of a cell with so many ones, and one more, as index. -/
def onesId (n : Nat) : List Char := 'a' :: '[' :: (List.replicate (n + 1) '1' ++ [']', '.', 'b'])

theorem takeWhile_ones (n : Nat) :
    (List.replicate n '1' ++ [']', '.', 'b']).takeWhile isDecimal = List.replicate n '1' := by
  rw [List.takeWhile_append_of_pos fun c hc => by rw [List.eq_of_mem_replicate hc]; rfl]
  simp [List.takeWhile, isDecimal]

theorem cellName_onesId (n : Nat) : CellName (onesId n) := by
  have hdigits : Run isDecimal (List.replicate (n + 1) '1') :=
    ⟨by simp, fun c hc => by rw [List.eq_of_mem_replicate hc]; rfl⟩
  have harray : Identifier ['a'] := .mk (by decide) (by simp)
  have hchild : Identifier ['b'] := .mk (by decide) (by simp)
  exact .mk harray hdigits (.last hchild)

theorem cellName_toList_onesId (n : Nat) : CellName (String.ofList (onesId n)).toList := by
  rw [String.toList_ofList]
  exact cellName_onesId n

theorem parse?_onesId (n : Nat) :
    RowRef.parse? (String.ofList (onesId n)) =
      (Numeral.whole (List.replicate (n + 1) '1')).map fun index => some ⟨"a", index, "b"⟩ := by
  have harray : (onesId n).takeWhile (fun c => !RowRef.isBracket c) = ['a'] := rfl
  have hrow : (onesId n).dropWhile (fun c => !RowRef.isBracket c) =
      '[' :: (List.replicate (n + 1) '1' ++ [']', '.', 'b']) := rfl
  have hchild : (List.replicate (n + 1) '1' ++ [']', '.', 'b']).dropWhile isDecimal =
      [']', '.', 'b'] := by
    rw [List.dropWhile_append_of_pos fun c hc => by rw [List.eq_of_mem_replicate hc]; rfl]
    simp [List.dropWhile, isDecimal]
  simp only [RowRef.parse?, String.toList_ofList, harray, hrow, hchild, takeWhile_ones]
  rfl

theorem reply_onesId (n : Nat) :
    reply (String.ofList (onesId n)) (only (String.ofList (onesId n)) (.int 1)) =
      .ok ⟨.int 1, none, [String.ofList (onesId n)]⟩ := by
  have houtcome : outcome depthLimit (only (String.ofList (onesId n)) (.int 1))
      (.name (String.ofList (onesId n))) = .ok (.ok (.int 1), [String.ofList (onesId n)]) := by
    simp [outcome, depthLimit, Expr.evaluateWithin, Scope.read, only, bind, Except.bind, finalize,
      List.eraseDups_cons]
  simp only [reply, parse_name (.cell (cellName_toList_onesId n)), houtcome]

/-- With more digits than can be read there is no telling the heads. -/
theorem withHeads_onesId {n : Nat} (h : digitLimit ≤ n) :
    withHeads [String.ofList (onesId n)] [] = .error .domain := by
  have hlong : Numeral.whole (List.replicate (n + 1) '1') = .error .domain := by
    rw [Numeral.whole, orTooLong, if_neg (by rw [List.length_replicate]; omega)]
  have hdot : hasChar '.' (String.ofList (onesId n)) := by simp [hasChar, onesId]
  have hhead : dottedHead? (String.ofList (onesId n)) = .error .domain := by
    rw [dottedHead?, if_pos hdot, isRowId, parse?_onesId, hlong]
    rfl
  rw [withHeads, List.mapM_cons, hhead]
  rfl

/-! ### A tree that is too high -/

/-- A tree multiplied by so many ones. -/
def timesOnes (e : Expr) : Nat → Expr
  | 0 => e
  | n + 1 => timesOnes (.binary .mul e (.literal (.int 1))) n

def moreOnes (n : Nat) : List Char := (List.replicate n ['*', '1']).flatten

/-- A choice of one, with a product of ones for the other branch. -/
def spareProduct (n : Nat) : String := String.ofList ('1' :: '?' :: '1' :: ':' :: '1' :: moreOnes n)

def spareTree (n : Nat) : Expr :=
  .choice (.literal (.int 1)) (.literal (.int 1)) (timesOnes (.literal (.int 1)) n)

theorem height_timesOnes (n : Nat) (e : Expr) : e.height + n ≤ (timesOnes e n).height := by
  induction n generalizing e with
  | zero => exact Nat.le_refl _
  | succ n ih =>
    have hstep : e.height + 1 ≤ (Expr.binary .mul e (.literal (.int 1))).height :=
      Nat.succ_le_succ (Nat.le_max_left _ _)
    have hrest := ih (.binary .mul e (.literal (.int 1)))
    rw [timesOnes]
    omega

theorem height_spareTree (n : Nat) : n < (spareTree n).height := by
  have hbranch := height_timesOnes n (.literal (.int 1))
  rw [spareTree, Expr.height]
  omega

theorem lexeme?_one (n : Nat) : Token.lexeme? ('1' :: moreOnes n) = some (some .int, 1) := by
  cases n <;> rfl

theorem derives_one (position : Nat) :
    Derives .signed [⟨.int, "1", position⟩] (.literal (.int 1)) := by
  have hone : Parser.intLiteral "1" = .ok (.int 1) := rfl
  exact .unsigned (.unaccessed (.uncalled (.atom (.int rfl hone))))

/-- Factors scan to tokens that go on with any product, and none of them nests. -/
theorem scanFrom_moreOnes (n position : Nat) :
    ∃ ts ending, Token.scanFrom position 0 (moreOnes n) = .ok (ts ++ [ending]) ∧
      ending.kind = .eof ∧ Parser.nesting ts = 0 ∧
      ∀ front e, Derives (.level .product) front e →
        Derives (.level .product) (front ++ ts) (timesOnes e n) := by
  induction n generalizing position with
  | zero => exact ⟨[], _, rfl, rfl, rfl, fun front e h => by rwa [List.append_nil]⟩
  | succ n ih =>
    obtain ⟨ts, ending, hscan, hend, hnesting, hproduct⟩ := ih (position + 1 + 1)
    have hstar : Token.lexeme? ('*' :: '1' :: moreOnes n) = some (some .star, 1) := rfl
    have htokens := Parser.scanFrom_mark hstar (by decide)
      (Parser.scanFrom_mark (lexeme?_one n) (by decide) hscan)
    refine ⟨_ :: _ :: ts, ending, htokens, hend, hnesting, fun front e h => ?_⟩
    have hlonger : Derives (.level .product)
        (front ++ ⟨.star, "*", position⟩ :: [⟨.int, "1", position + 1⟩])
        (.binary .mul e (.literal (.int 1))) :=
      .chained (by decide) h .mul (derives_one _)
    simpa [timesOnes] using hproduct _ _ hlonger

theorem parse_spareProduct (n : Nat) : Expr.parse (spareProduct n) = .ok (spareTree n) := by
  obtain ⟨ts, ending, hscan, hend, hnesting, hproduct⟩ := scanFrom_moreOnes n 5
  have hs : Token.scan (spareProduct n) =
      .ok ([⟨.int, "1", 0⟩] ++ ⟨.question, "?", 1⟩ :: [⟨.int, "1", 2⟩] ++
        ⟨.colon, ":", 3⟩ :: ([⟨.int, "1", 4⟩] ++ ts) ++ [ending]) := by
    rw [Token.scan, spareProduct, String.toList_ofList]
    exact Parser.scanFrom_mark rfl (by decide) <| Parser.scanFrom_mark rfl (by decide) <|
      Parser.scanFrom_mark rfl (by decide) <| Parser.scanFrom_mark rfl (by decide) <|
      Parser.scanFrom_mark (lexeme?_one n) (by decide) hscan
  have hdisjunction {ts : List Token} {e : Expr} (h : Derives (.level .product) ts e) :
      Derives (.level .disjunction) ts e := .operand <| .operand <| .operand <| .operand h
  have hone (position : Nat) := hdisjunction (.operand (derives_one position))
  refine Parser.parse_eq_ok hs hend ?_ ?_
  · exact .choice (hone 0) rfl (.unconditional (hone 2)) rfl
      (.unconditional (hdisjunction (hproduct _ _ (.operand (derives_one 4)))))
  · unfold Parser.nesting at hnesting ⊢
    simp only [List.countP_append, List.countP_cons, List.countP_nil, hnesting, hend]
    decide

/-- A text whose ids cannot be listed has a value where the part that is too high is not needed. -/
theorem reply_spareProduct (n : Nat) (scope : Scope) :
    reply (spareProduct n) scope = .ok ⟨.int 1, none, []⟩ := by
  have houtcome : outcome depthLimit scope (spareTree n) = .ok (.ok (.int 1), []) := by
    simp [outcome, depthLimit, spareTree, Expr.evaluateWithin, bind, Reading.bind, pure, Reading.pure,
      Value.truthy, Except.bind, finalize]
  simp only [reply, parse_spareProduct, houtcome]

theorem mentionedIn_spareProduct {n : Nat} (h : depthLimit ≤ n) :
    mentionedIn (spareProduct n) = .error .depth := by
  rw [mentionedIn, parse_spareProduct, mentioned, if_pos (Nat.lt_of_le_of_lt h (height_spareTree n))]

/-! ### Names left out -/

/-- A name is read in a scope that is neither extracted from the text nor a head of what is. -/
def ReadsUncovered (text : String) (scope : Scope) : Prop :=
  ∃ answer g ids h covered, (evaluate text scope).run {} = (.ok answer, g) ∧ answer.error = none ∧
    (dependencies text).run {} = (.ok ids, h) ∧ withHeads ids [] = .ok covered ∧
    ∃ x ∈ answer.dependencies, x ∉ covered

/-- Names of each kind that extraction leaves out are read, there is an id whose heads cannot be told,
and a text that evaluates although its ids cannot be listed. -/
theorem not_covered :
    ReadsUncovered "Math" (only "Math" (.int 1)) ∧
      ReadsUncovered "a.b.c" (only "a.b" (.mapping [(.text "c", .int 1)])) ∧
      ReadsUncovered "a.value" (only "a.value" (.int 1)) ∧
      (∃ text answer g ids h, (evaluate text (only text (.int 1))).run {} = (.ok answer, g) ∧
        answer.error = none ∧ (dependencies text).run {} = (.ok ids, h) ∧
        withHeads ids [] = .error .domain) ∧
      ∃ text answer g h, (evaluate text fun _ => none).run {} = (.ok answer, g) ∧
        answer.error = none ∧ (dependencies text).run {} = (.error .depth, h) := by
  refine ⟨?_, ?_, ?_, ?_, ?_⟩
  · exact ⟨⟨.int 1, none, ["Math"]⟩, _, [], _, [], rfl, rfl, rfl, rfl, by decide⟩
  · exact ⟨⟨.int 1, none, ["a.b"]⟩, _, ["a.b.c"], _, ["a.b.c", "a"], rfl, rfl, rfl, rfl, by decide⟩
  · exact ⟨⟨.int 1, none, ["a.value"]⟩, _, ["a"], _, ["a"], rfl, rfl, rfl, rfl, by decide⟩
  · let text := String.ofList (onesId digitLimit)
    obtain ⟨g, hg, -⟩ := answers_evaluate text (only text (.int 1)) {} faithful_new
    obtain ⟨h, hh, -⟩ := answers_dependencies text {} faithful_new
    refine ⟨text, ⟨.int 1, none, [text]⟩, g, [text], h, ?_, rfl, ?_,
      withHeads_onesId (Nat.le_refl digitLimit)⟩
    · rw [hg, reply_onesId]
    · rw [hh, mentionedIn_cell (cellName_toList_onesId digitLimit)]
  · let text := spareProduct depthLimit
    obtain ⟨g, hg, -⟩ := answers_evaluate text (fun _ => none) {} faithful_new
    obtain ⟨h, hh, -⟩ := answers_dependencies text {} faithful_new
    refine ⟨text, ⟨.int 1, none, []⟩, g, h, ?_, rfl, ?_⟩
    · rw [hg, reply_spareProduct]
    · rw [hh, mentionedIn_spareProduct (Nat.le_refl depthLimit)]

end Engine

end LiveForm
