import LiveForm.Proofs.Expr.Munch

/-! # Scanning loses nothing

What has been scanned is a row of tokens and white space, each token the longest at its place. A scan
goes on until the text ends or no pattern matches, and white space may be put in wherever no token is
cut apart. -/

namespace LiveForm

open Text

namespace Token

/-! ## Texts cut into tokens -/

/-- The text `read`, at a position and with `rest` behind it, is a row of tokens and white space. -/
inductive Cuts : Nat → List Char → List Char → List Token → Prop where
  | stop {position : Nat} {rest : List Char} : Cuts position [] rest []
  | blank {position : Nat} {c : Char} {read rest : List Char} {tokens : List Token} :
    isBlank c → Cuts (position + 1) read rest tokens → Cuts position (c :: read) rest tokens
  | token {position : Nat} {kind : TokenKind} {w read rest : List Char} {tokens : List Token} :
    lexeme? (w ++ (read ++ rest)) = some (some kind, w.length) →
    Cuts (position + w.length) read rest tokens →
    Cuts position (w ++ read) rest (ofLexeme kind w position :: tokens)

variable {position : Nat} {read read' rest : List Char} {tokens tokens' : List Token}

section Lexemes

variable (kind : TokenKind) (w : List Char) (position : Nat)

theorem position_ofLexeme : (ofLexeme kind w position).position = position := rfl

theorem toList_ofLexeme : (ofLexeme kind w position).text.toList = w := String.toList_ofList

theorem length_ofLexeme : (ofLexeme kind w position).text.length = w.length := String.length_ofList

end Lexemes

theorem scanFrom_skip (position : Nat) (w rest : List Char) :
    scanFrom position w.length (w ++ rest) = scanFrom (position + w.length) 0 rest := by
  induction w generalizing position with
  | nil => rfl
  | cons c w ih =>
    rw [List.cons_append, List.length_cons, scanFrom, ih, Nat.add_right_comm, Nat.add_assoc]

/-- A run of white space is passed over one character at a time as well. -/
theorem scanFrom_run (position : Nat) (cs : List Char) :
    scanFrom position (Pattern.run isBlank cs) cs = scanFrom position 0 cs := by
  cases cs with
  | nil => rfl
  | cons c rest =>
    cases hc : isBlank c with
    | false => rw [Pattern.run_cons_of_neg hc]
    | true =>
      rw [Pattern.run_cons_of_pos hc, scanFrom, scanFrom, lexeme?_of_blank hc,
        Pattern.run_cons_of_pos hc]
      exact (bind_pure _).symm

theorem scanFrom_blank {c : Char} (hc : isBlank c) :
    scanFrom position 0 (c :: rest) = scanFrom (position + 1) 0 rest := by
  rw [← scanFrom_run, Pattern.run_cons_of_pos hc, scanFrom, scanFrom_run]

theorem scanFrom_token {kind : TokenKind} {w : List Char}
    (h : lexeme? (w ++ rest) = some (some kind, w.length)) :
    scanFrom position 0 (w ++ rest) =
      (ofLexeme kind w position :: ·) <$> scanFrom (position + w.length) 0 rest := by
  obtain ⟨c, w, rfl⟩ := List.exists_cons_of_ne_nil (lexeme?_append_iff.mp h).1.ne_nil
  have hskip := scanFrom_skip (position + 1) w rest
  have htake : (c :: (w ++ rest)).take (w.length + 1) = c :: w := by simp
  rw [List.cons_append] at h
  rw [List.cons_append, scanFrom, h]
  simp only [List.length_cons, Nat.add_sub_cancel, hskip, htake]
  rw [Nat.add_right_comm, Nat.add_assoc]
  rfl

/-- The scan of a text that is cut goes on behind the tokens. -/
theorem Cuts.scanFrom_eq (h : Cuts position read rest tokens) :
    scanFrom position 0 (read ++ rest) =
      (tokens ++ ·) <$> scanFrom (position + read.length) 0 rest := by
  induction h with
  | stop => exact (id_map _).symm
  | blank hc _ ih =>
    rw [List.cons_append, scanFrom_blank hc, ih, List.length_cons, Nat.add_right_comm, Nat.add_assoc]
  | token hlexeme _ ih =>
    rw [List.append_assoc, scanFrom_token hlexeme, ih, List.length_append, ← Nat.add_assoc,
      ← comp_map]
    rfl

/-- A text is cut until it ends or nothing matches. -/
theorem exists_cuts (position : Nat) (cs : List Char) :
    ∃ read rest tokens, cs = read ++ rest ∧ Cuts position read rest tokens ∧
      (rest = [] ∨ lexeme? rest = none) := by
  -- by the length of what is left: a blank is one character off it, a token at least one
  induction h : cs.length using Nat.strong_induction_on generalizing position cs with
  | _ n ih =>
    subst h
    cases hlexeme : lexeme? cs with
    | none => exact ⟨[], cs, [], rfl, .stop, .inr hlexeme⟩
    | some lexeme =>
      obtain ⟨kind?, n⟩ := lexeme
      obtain ⟨w, rest, rfl, rfl, hw⟩ := spelled_of_lexeme? hlexeme
      obtain ⟨c, tail, rfl⟩ := List.exists_cons_of_ne_nil hw.ne_nil
      cases kind? with
      | none =>
        cases hw with
        | blank hrun =>
          obtain ⟨read, rest', tokens, hsplit, hcuts, hend⟩ :=
            ih (tail ++ rest).length (by simp) (position + 1) (tail ++ rest) rfl
          refine ⟨c :: read, rest', tokens, ?_, .blank (hrun.2 c List.mem_cons_self) hcuts, hend⟩
          rw [List.cons_append, hsplit, List.cons_append]
      | some kind =>
        obtain ⟨read, rest', tokens, rfl, hcuts, hend⟩ :=
          ih rest.length (by rw [List.length_append, List.length_cons]; omega)
            (position + (c :: tail).length) rest rfl
        refine ⟨c :: tail ++ read, rest', _, ?_, .token hlexeme hcuts, hend⟩
        rw [List.append_assoc]

/-- A text that is cut to its end is scanned. -/
theorem Cuts.scanFrom_ok (h : Cuts position read [] tokens) :
    scanFrom position 0 read = .ok (tokens ++ [⟨.eof, "", position + read.length⟩]) := by
  have heq := h.scanFrom_eq
  rw [List.append_nil] at heq
  rw [heq]
  rfl

/-! ## Other texts behind -/

/-- Tokens stay the longest when less of the text follows, or white space. -/
theorem lexeme?_before {kind : TokenKind} {w rest rest' : List Char}
    (h : lexeme? (w ++ (read ++ rest)) = some (some kind, w.length))
    (hrest : ∀ b ∈ rest'.head?, isBlank b) :
    lexeme? (w ++ (read ++ rest')) = some (some kind, w.length) := by
  obtain ⟨hw, hlongest⟩ := lexeme?_append_iff.mp h
  refine lexeme?_append_iff.mpr ⟨hw, fun kind?' w' hw' hp => ?_⟩
  rw [← List.append_assoc] at hp
  have hfront : w ++ read <+: w ++ (read ++ rest) := by
    rw [← List.append_assoc]
    exact List.prefix_append _ _
  -- a longer token either lies in the same text or reaches into the white space behind it
  rcases List.prefix_or_prefix_of_prefix hp (List.prefix_append (w ++ read) rest') with hshort | hlong
  · exact hlongest kind?' w' hw' (hshort.trans hfront)
  · obtain ⟨tail, rfl⟩ := hlong
    cases tail with
    | nil =>
      rw [List.append_nil] at hw' ⊢
      exact hlongest kind?' _ hw' hfront
    | cons b tail =>
      obtain ⟨more, rfl⟩ := (List.prefix_append_right_inj _).mp hp
      rw [List.append_assoc] at hw'
      exact absurd hw' (hw.not_spelled_of_blank (hrest b rfl) (by simp))

theorem Cuts.before (h : Cuts position read rest tokens) {rest' : List Char}
    (hrest : ∀ b ∈ rest'.head?, isBlank b) : Cuts position read rest' tokens := by
  induction h with
  | stop => exact .stop
  | blank hc _ ih => exact .blank hc ih
  | token hlexeme _ ih => exact .token (lexeme?_before hlexeme hrest) ih

theorem Cuts.append {behind : List Char} (h : Cuts position read behind tokens)
    (hbehind : behind = read' ++ rest)
    (h' : Cuts (position + read.length) read' rest tokens') :
    Cuts position (read ++ read') rest (tokens ++ tokens') := by
  induction h with
  | stop => exact h'
  | blank hc _ ih =>
    rw [List.length_cons, ← Nat.add_assoc, Nat.add_right_comm] at h'
    exact .blank hc (ih hbehind h')
  | token hlexeme _ ih =>
    rw [List.length_append, ← Nat.add_assoc] at h'
    subst hbehind
    rw [List.append_assoc]
    exact .token (by rw [List.append_assoc]; exact hlexeme) (ih rfl h')

theorem Cuts.blanks {blanks : List Char} (hb : ∀ c ∈ blanks, isBlank c) (position : Nat)
    (rest : List Char) : Cuts position blanks rest [] := by
  induction blanks generalizing position with
  | nil => exact .stop
  | cons c blanks ih =>
    exact .blank (hb c List.mem_cons_self) (ih (fun d hd => hb d (List.mem_cons_of_mem c hd)) _)

/-! ## Places of the tokens -/

/-- Where a token stands after so many more characters. -/
def shift (count : Nat) (t : Token) : Token := { t with position := t.position + count }

theorem Cuts.shift (h : Cuts position read rest tokens) (count : Nat) :
    Cuts (position + count) read rest (tokens.map (Token.shift count)) := by
  induction h with
  | stop => exact .stop
  | blank hc _ ih =>
    rw [Nat.add_right_comm] at ih
    exact .blank hc ih
  | token hlexeme _ ih =>
    rw [Nat.add_right_comm] at ih
    exact .token hlexeme ih

/-- The tokens of the part of a text from `start` to `stop`: each stands where its text does and is
the longest there, and between them there is white space only. -/
structure Munched (source : List Char) (start stop : Nat) (tokens : List Token) : Prop where
  inside : ∀ t ∈ tokens, start ≤ t.position ∧ t.position + t.text.length ≤ stop
  apart : tokens.Pairwise fun s t => s.position + s.text.length ≤ t.position
  covered : ∀ i c, start ≤ i → i < stop → source[i]? = some c →
    isBlank c ∨ ∃ t ∈ tokens, t.position ≤ i ∧ i < t.position + t.text.length
  written : ∀ t ∈ tokens, t.text.toList <+: source.drop t.position
  spelled : ∀ t ∈ tokens, ∃ kind, Spelled (some kind) t.text.toList ∧
    t.kind = if kind = .ident then (keyword? t.text).getD .ident else kind
  longest : ∀ t ∈ tokens, ∀ kind? w, Spelled kind? w → w <+: source.drop t.position →
    w.length ≤ t.text.length
  patterns : ∀ t ∈ tokens, ∀ kind? length, (kind?, length) ∈ patterns →
    length (source.drop t.position) ≤ t.text.length

variable {source : List Char} {start stop : Nat}

theorem Munched.of_blank {c : Char} (h : Munched source (start + 1) stop tokens)
    (hc : source[start]? = some c) (hb : isBlank c) : Munched source start stop tokens where
  inside t ht := ⟨by have := (h.inside t ht).1; omega, (h.inside t ht).2⟩
  apart := h.apart
  covered i d hi hstop hd := by
    rcases hi.eq_or_lt with rfl | hi
    · rw [hc] at hd
      obtain rfl := Option.some.inj hd
      exact .inl hb
    · exact h.covered i d hi hstop hd
  written := h.written
  spelled := h.spelled
  longest := h.longest
  patterns := h.patterns

theorem Munched.of_token {kind : TokenKind} {w rest : List Char}
    (h : Munched source (start + w.length) stop tokens) (hstop : start + w.length ≤ stop)
    (hs : source.drop start = w ++ rest) (hlexeme : lexeme? (w ++ rest) = some (some kind, w.length)) :
    Munched source start stop (ofLexeme kind w start :: tokens) := by
  have hlength := length_ofLexeme kind w start
  have hposition := position_ofLexeme kind w start
  constructor
  case inside =>
    intro t ht
    rcases List.mem_cons.mp ht with rfl | ht
    · omega
    · have hin := h.inside t ht
      omega
  case apart =>
    refine List.pairwise_cons.mpr ⟨fun t ht => ?_, h.apart⟩
    have hin := h.inside t ht
    omega
  case covered =>
    intro i c hi hend hc
    by_cases hw : i < start + w.length
    · exact .inr ⟨_, List.mem_cons_self, by omega, by omega⟩
    · rcases h.covered i c (by omega) hend hc with hb | ⟨t, ht, hin⟩
      · exact .inl hb
      · exact .inr ⟨t, List.mem_cons_of_mem _ ht, hin⟩
  case written =>
    refine List.forall_mem_cons.mpr ⟨?_, h.written⟩
    rw [toList_ofLexeme, hposition, hs]
    exact List.prefix_append w rest
  case spelled =>
    refine List.forall_mem_cons.mpr ⟨⟨kind, ?_, rfl⟩, h.spelled⟩
    rw [toList_ofLexeme]
    exact (lexeme?_append_iff.mp hlexeme).1
  case longest =>
    refine List.forall_mem_cons.mpr ⟨?_, h.longest⟩
    intro kind? w' hw' hp
    rw [hposition, hs] at hp
    rw [hlength]
    exact length_le_of_lexeme? hlexeme hw' hp
  case patterns =>
    refine List.forall_mem_cons.mpr ⟨?_, h.patterns⟩
    intro kind? length hm
    rw [hposition, hs, hlength]
    exact pattern_le hlexeme hm

theorem Cuts.munched (h : Cuts position read rest tokens) (hs : source.drop position = read ++ rest) :
    Munched source position (position + read.length) tokens := by
  induction h with
  | stop =>
    constructor <;> simp
    omega
  | @blank position c read rest tokens hc _ ih =>
    rw [List.cons_append] at hs
    have hnext := ih (by rw [← List.tail_drop, hs, List.tail_cons])
    rw [Nat.add_right_comm] at hnext
    refine Munched.of_blank hnext ?_ hc
    rw [← Nat.add_zero position, ← List.getElem?_drop, hs, List.getElem?_cons_zero]
  | @token position kind w read rest tokens hlexeme _ ih =>
    rw [List.append_assoc] at hs
    have hnext := ih (by rw [← List.drop_drop, hs, List.drop_left])
    rw [Nat.add_assoc, ← List.length_append] at hnext
    exact Munched.of_token hnext (by rw [List.length_append]; omega) hs hlexeme

theorem Munched.length_pos (h : Munched source start stop tokens) {t : Token} (ht : t ∈ tokens) :
    0 < t.text.length := by
  obtain ⟨kind, hspelled, -⟩ := h.spelled t ht
  rw [← String.length_toList]
  exact List.length_pos_iff.mpr hspelled.ne_nil

theorem Munched.ne_eof (h : Munched source start stop tokens) {t : Token} (ht : t ∈ tokens) :
    t.kind ≠ .eof := by
  obtain ⟨kind, hspelled, hkind⟩ := h.spelled t ht
  rw [hkind]
  split
  · cases hword : keyword? t.text with
    | none => simp
    | some word =>
      intro (heof : word = .eof)
      have hmem := keyword?_eq_some hword
      simp [heof] at hmem
  · rintro rfl
    cases hspelled with
    | mark hm => simp [marks] at hm

theorem Munched.pairwise_lt (h : Munched source start stop tokens) :
    (tokens ++ [(⟨.eof, "", stop⟩ : Token)]).Pairwise fun s t => s.position < t.position := by
  refine List.pairwise_append.mpr ⟨?_, by simp, fun s hs t ht => ?_⟩
  · refine h.apart.imp_of_mem fun hs _ hst => ?_
    have hpos := h.length_pos hs
    omega
  · obtain rfl := List.mem_singleton.mp ht
    have hpos := h.length_pos hs
    have hin := h.inside s hs
    dsimp only
    omega

/-! ## White space put in -/

/-- A row of tokens can be taken apart wherever no token is cut. -/
theorem Cuts.split {before after : List Char} (h : Cuts position read rest tokens)
    (hread : read = before ++ after)
    (hplace : ∀ t ∈ tokens, ¬(t.position < position + before.length ∧
      position + before.length < t.position + t.text.length)) :
    ∃ front back, tokens = front ++ back ∧ Cuts position before (after ++ rest) front ∧
      Cuts (position + before.length) after rest back := by
  induction h generalizing before with
  | @stop position rest =>
    obtain ⟨rfl, rfl⟩ := List.append_eq_nil_iff.mp hread.symm
    exact ⟨[], [], rfl, .stop, .stop⟩
  | @blank position c read rest tokens hc hcuts ih =>
    cases before with
    | nil =>
      obtain rfl := hread
      exact ⟨[], tokens, rfl, .stop, .blank hc hcuts⟩
    | cons d before =>
      obtain ⟨rfl, rfl⟩ := List.cons.inj hread
      rw [List.length_cons, ← Nat.add_assoc, Nat.add_right_comm] at hplace ⊢
      obtain ⟨front, back, rfl, hfront, hback⟩ := ih rfl hplace
      exact ⟨front, back, rfl, .blank hc hfront, hback⟩
  | @token position kind w read rest tokens hlexeme hcuts ih =>
    cases before with
    | nil =>
      obtain rfl := hread
      exact ⟨[], _, rfl, .stop, .token hlexeme hcuts⟩
    | cons d before =>
      have hhead := hplace _ List.mem_cons_self
      -- the place is not inside the first token, which then stands before it as a whole
      rw [length_ofLexeme, position_ofLexeme, List.length_cons] at hhead
      have hfront : d :: before <+: w ++ read := hread ▸ List.prefix_append _ _
      obtain ⟨tail, hbefore⟩ := List.prefix_of_prefix_length_le (List.prefix_append w read) hfront
        (by rw [List.length_cons]; omega)
      obtain rfl : read = tail ++ after := by
        rw [← hbefore, List.append_assoc] at hread
        exact List.append_cancel_left hread
      rw [← hbefore, List.length_append, ← Nat.add_assoc] at hplace ⊢
      obtain ⟨front, back, rfl, hfront, hback⟩ :=
        ih rfl (fun t ht => hplace t (List.mem_cons_of_mem _ ht))
      refine ⟨_ :: front, back, rfl, .token ?_ hfront, hback⟩
      rw [← List.append_assoc tail]
      exact hlexeme

/-- Where a token stands once white space has been put in at a place. -/
def moved (place count : Nat) (t : Token) : Token :=
  if place ≤ t.position then t.shift count else t

/-- White space goes between the tokens of what is before a place and of what is after it. -/
theorem Cuts.insert {before blanks after : List Char} {front back : List Token}
    (hfront : Cuts position before after front)
    (hback : Cuts (position + before.length) after [] back)
    (hb : ∀ c ∈ blanks, isBlank c) :
    Cuts position (before ++ (blanks ++ after)) [] (front ++ back.map (Token.shift blanks.length)) := by
  have hfront' : Cuts position before (blanks ++ after) front := by
    cases blanks with
    | nil => exact hfront
    | cons b blanks =>
      exact hfront.before fun c hc => hb c (List.mem_of_mem_head? hc)
  refine hfront'.append (List.append_nil _).symm ?_
  exact (Cuts.blanks hb _ after).append (List.append_nil _).symm (hback.shift blanks.length)

theorem map_moved {front back : List Token} {place : Nat} (count : Nat)
    (hfront : ∀ t ∈ front, t.position < place) (hback : ∀ t ∈ back, place ≤ t.position) :
    (front ++ back).map (moved place count) = front ++ back.map (shift count) := by
  have hstay : front.map (moved place count) = front.map id := by
    refine List.map_congr_left fun t ht => if_neg ?_
    have hlt := hfront t ht
    omega
  rw [List.map_append, hstay, List.map_id]
  congr 1
  exact List.map_congr_left fun t ht => if_pos (hback t ht)

/-- White space that cuts no token apart changes nothing but where the tokens behind it stand. -/
theorem Cuts.scanFrom_insert {before blanks after : List Char}
    (h : Cuts 0 (before ++ after) [] tokens) (hb : ∀ c ∈ blanks, isBlank c)
    (hplace : ∀ t ∈ tokens,
      ¬(t.position < before.length ∧ before.length < t.position + t.text.length)) :
    scanFrom 0 0 (before ++ (blanks ++ after)) =
      .ok ((tokens ++ [(⟨.eof, "", (before ++ after).length⟩ : Token)]).map
        (moved before.length blanks.length)) := by
  obtain ⟨front, back, rfl, hfront, hback⟩ := h.split rfl (by rwa [Nat.zero_add])
  rw [List.append_nil] at hfront
  have hplaced : Munched (before ++ after) 0 (0 + before.length) front := hfront.munched rfl
  have hplaced' : Munched (before ++ after) (0 + before.length)
      (0 + before.length + after.length) back := hback.munched (by simp)
  rw [Nat.zero_add] at hplaced hplaced'
  have hlength : 0 + (before ++ (blanks ++ after)).length =
      (before ++ after).length + blanks.length := by
    simp only [List.length_append]
    omega
  rw [(hfront.insert hback hb).scanFrom_ok, hlength, List.append_assoc, List.append_assoc, map_moved,
    List.map_append]
  · rfl
  · intro t ht
    have hpos := hplaced.length_pos ht
    have hin := hplaced.inside t ht
    omega
  · intro t ht
    rcases List.mem_append.mp ht with ht | ht
    · exact (hplaced'.inside t ht).1
    · obtain rfl := List.mem_singleton.mp ht
      exact List.prefix_append before after |>.length_le

/-! ## Whole texts -/

theorem lexeme?_of_spelled {kind : TokenKind} {w : List Char} (h : Spelled (some kind) w) :
    lexeme? (w ++ ([] ++ [])) = some (some kind, w.length) := by
  refine lexeme?_append_iff.mpr ⟨h, fun kind?' w' _ hp => ?_⟩
  simpa using hp.length_le

/-- A text that is spelled as a token is scanned as that token. -/
theorem scan_of_spelled {source : String} {kind : TokenKind} (h : Spelled (some kind) source.toList) :
    scan source = .ok [ofLexeme kind source.toList 0, ⟨.eof, "", source.length⟩] := by
  have hcuts : Cuts 0 (source.toList ++ []) [] [ofLexeme kind source.toList 0] :=
    .token (lexeme?_of_spelled h) .stop
  rw [List.append_nil] at hcuts
  rw [scan, hcuts.scanFrom_ok, String.length_toList, Nat.zero_add]
  rfl

/-- A scan comes to the end of the text, or to a place where nothing matches. -/
theorem scan_cases (source : String) :
    (∃ body, Cuts 0 source.toList [] body ∧
      scan source = .ok (body ++ [⟨.eof, "", source.length⟩])) ∨
    ∃ read c after body, source.toList = read ++ c :: after ∧ Cuts 0 read (c :: after) body ∧
      lexeme? (c :: after) = none ∧ scan source = .error ⟨.unexpectedChar c, read.length⟩ := by
  obtain ⟨read, rest, body, hs, hcuts, hend⟩ := exists_cuts 0 source.toList
  cases rest with
  | nil =>
    rw [List.append_nil] at hs
    rw [← hs] at hcuts
    refine .inl ⟨body, hcuts, ?_⟩
    rw [scan, hcuts.scanFrom_ok, String.length_toList, Nat.zero_add]
  | cons c after =>
    have hnone := hend.resolve_left (by simp)
    refine .inr ⟨read, c, after, body, hs, hcuts, hnone, ?_⟩
    rw [scan, hs, hcuts.scanFrom_eq, scanFrom, hnone, Nat.zero_add]
    rfl

theorem Cuts.munched_whole {source : String} (h : Cuts 0 source.toList [] tokens) :
    Munched source.toList 0 source.length tokens := by
  have hmunched : Munched source.toList 0 (0 + source.toList.length) tokens :=
    h.munched (List.append_nil _).symm
  rwa [Nat.zero_add, String.length_toList] at hmunched

theorem position_le_of_scan {source : String} (h : scan source = .ok tokens) {t : Token}
    (ht : t ∈ tokens) : t.position ≤ source.length := by
  rcases scan_cases source with ⟨body, hcuts, hscan⟩ | ⟨_, _, _, _, _, _, _, hscan⟩
  · have hmunched := hcuts.munched_whole
    obtain rfl := Except.ok.inj (hscan.symm.trans h)
    rcases List.mem_append.mp ht with ht | ht
    · have hin := hmunched.inside t ht
      omega
    · obtain rfl := List.mem_singleton.mp ht
      exact le_rfl
  · rw [hscan] at h
    cases h

theorem position_le_of_scan_error {source : String} {e : SyntaxError} (h : scan source = .error e) :
    e.position ≤ source.length := by
  rcases scan_cases source with ⟨_, _, hscan⟩ | ⟨read, c, after, _, hs, _, _, hscan⟩
  · rw [hscan] at h
    cases h
  · obtain rfl := Except.error.inj (hscan.symm.trans h)
    rw [← String.length_toList, hs, List.length_append]
    exact Nat.le_add_right _ _

/-- Scanning a text is lossless and takes the longest token everywhere. A text that is scanned is a row
of tokens with white space between them, ended at its length; wherever no token is cut apart, white
space can be put in. A text that is not scanned is one up to the place that the error names, where
nothing that is spelled as a token starts. -/
theorem scan_lossless (source : String) :
    match scan source with
    | .ok tokens => ∃ body, tokens = body ++ [⟨.eof, "", source.length⟩] ∧
        Munched source.toList 0 source.length body ∧
        (∀ t ∈ body, t.kind ≠ .eof) ∧
        tokens.Pairwise (fun s t => s.position < t.position) ∧
        ∀ before blanks after, source.toList = before ++ after → (∀ c ∈ blanks, isBlank c) →
          (∀ t ∈ tokens, ¬(t.position < before.length ∧
            before.length < t.position + t.text.length)) →
          scan (String.ofList (before ++ (blanks ++ after))) =
            .ok (tokens.map (moved before.length blanks.length))
    | .error e => ∃ before c after body, source.toList = before ++ c :: after ∧
        e = ⟨.unexpectedChar c, before.length⟩ ∧
        Munched source.toList 0 before.length body ∧
        scan (String.ofList before) = .ok (body ++ [⟨.eof, "", before.length⟩]) ∧
        (∀ kind? length, (kind?, length) ∈ patterns → length (c :: after) = 0) ∧
        ∀ kind? w, Spelled kind? w → ¬w <+: c :: after := by
  rcases scan_cases source with ⟨body, hcuts, hscan⟩ |
    ⟨read, c, after, body, hs, hcuts, hnone, hscan⟩
  · have hmunched := hcuts.munched_whole
    rw [hscan]
    refine ⟨body, rfl, hmunched, fun t ht => hmunched.ne_eof ht, hmunched.pairwise_lt, ?_⟩
    intro before blanks after hsplit hb hplace
    rw [hsplit] at hcuts
    rw [scan, String.toList_ofList, hcuts.scanFrom_insert hb
      (fun t ht => hplace t (List.mem_append_left _ ht)), ← hsplit, String.length_toList]
  · have hmunched : Munched source.toList 0 (0 + read.length) body := hcuts.munched hs
    rw [Nat.zero_add] at hmunched
    rw [hscan]
    refine ⟨read, c, after, body, hs, rfl, hmunched, ?_, ?_, lexeme?_eq_none_iff.mp hnone⟩
    · have hread : Cuts 0 read [] body := hcuts.before (by simp)
      rw [scan, String.toList_ofList, hread.scanFrom_ok, Nat.zero_add]
    · intro kind? length hm
      by_contra hn
      obtain ⟨w, rest, hsplit, -, hw⟩ := exists_spelled hm hn
      exact lexeme?_eq_none_iff.mp hnone kind? w hw ⟨rest, hsplit.symm⟩

end Token

end LiveForm
