import LiveForm.Proofs.Except
import LiveForm.Template
import Mathlib.Data.List.TakeWhile

/-! # A text and its tokens

A text is cut from the left into tokens and single characters, in one way: a token stands wherever one
can start. Rendering keeps the characters and puts the display text of each token in its place, so it
depends on the values through the tokens alone, and what is put in is not looked at again. -/

namespace LiveForm.Template

open Text

/-! ## Cutting a text -/

/-- A token as it is written. -/
def braced (body : List Char) : List Char := '\x7b' :: '\x7b' :: (body ++ ['\x7d', '\x7d'])

/-- A token starts the text: two opening braces, a body without a closing one, two closing braces. -/
def StartsWith (cs body after : List Char) : Prop := '\x7d' ∉ body ∧ cs = braced body ++ after

/-- The text is cut into these pieces, the tokens trimmed. Where a token starts, the text is cut behind
it, and anywhere else behind one character. -/
inductive Cuts : List Char → List Piece → Prop
  | stop : Cuts [] []
  | token {cs body rest : List Char} {ps : List Piece} (h : StartsWith cs body rest)
      (hrest : Cuts rest ps) : Cuts cs (.token (trimWith isBlank body) :: ps)
  | literal {c : Char} {rest : List Char} {ps : List Piece}
      (h : ∀ body after, ¬StartsWith (c :: rest) body after) (hrest : Cuts rest ps) :
      Cuts (c :: rest) (.literal c :: ps)

section Cutting

variable {cs body after rest : List Char} {c : Char} {ps : List Piece}

theorem ne_nil_of_startsWith (h : StartsWith [] body after) : False := by
  obtain ⟨-, h⟩ := h
  cases h

theorem tokenBody?_of_startsWith (h : StartsWith cs body after) : tokenBody? cs = some body := by
  obtain ⟨hbody, rfl⟩ := h
  have hall : ∀ c ∈ body, (c != '\x7d') = true := fun c hc => bne_iff_ne.mpr fun heq => hbody (heq ▸ hc)
  have htext : braced body ++ after = '\x7b' :: '\x7b' :: (body ++ '\x7d' :: '\x7d' :: after) := by
    simp [braced]
  rw [htext, tokenBody?, List.dropWhile_append_of_pos hall, List.takeWhile_append_of_pos hall]
  simp

theorem exists_startsWith (h : tokenBody? cs = some body) : ∃ after, StartsWith cs body after := by
  unfold tokenBody? at h
  split at h
  · rename_i rest
    split at h
    · rename_i after hafter
      obtain rfl := Option.some.inj h
      refine ⟨after, fun hmem => ?_, ?_⟩
      · simpa using List.mem_takeWhile_imp hmem
      · have hrest : rest.takeWhile (· != '\x7d') ++ '\x7d' :: '\x7d' :: after = rest :=
          hafter ▸ List.takeWhile_append_dropWhile
        rw [braced, List.cons_append, List.cons_append, List.append_assoc]
        exact congrArg (fun cs => '\x7b' :: '\x7b' :: cs) hrest.symm
    · cases h
  · cases h

theorem tokenBody?_eq_none_iff :
    tokenBody? cs = none ↔ ∀ body after, ¬StartsWith cs body after := by
  constructor
  · intro h body after hstarts
    rw [tokenBody?_of_startsWith hstarts] at h
    cases h
  · intro h
    cases hbody : tokenBody? cs with
    | none => rfl
    | some body =>
      obtain ⟨after, hstarts⟩ := exists_startsWith hbody
      exact absurd hstarts (h body after)

theorem piecesFrom_drop (skip : Nat) (cs : List Char) :
    piecesFrom skip cs = piecesFrom 0 (cs.drop skip) := by
  induction cs generalizing skip with
  | nil => cases skip <;> rfl
  | cons c rest ih =>
    cases skip with
    | zero => rfl
    | succ skip => exact ih skip

theorem piecesFrom_of_startsWith (h : StartsWith cs body after) :
    piecesFrom 0 cs = .token (trimWith isBlank body) :: piecesFrom 0 after := by
  have hbody := tokenBody?_of_startsWith h
  obtain ⟨-, rfl⟩ := h
  have hrest : (braced body ++ after) = '\x7b' :: ('\x7b' :: (body ++ ['\x7d', '\x7d']) ++ after) := rfl
  have hdrop : ('\x7b' :: (body ++ ['\x7d', '\x7d']) ++ after).drop (body.length + 3) = after :=
    List.drop_left' (by simp)
  rw [hrest] at hbody ⊢
  rw [piecesFrom]
  simp only [hbody]
  rw [piecesFrom_drop, hdrop]

theorem piecesFrom_of_not_startsWith (h : ∀ body after, ¬StartsWith (c :: rest) body after) :
    piecesFrom 0 (c :: rest) = .literal c :: piecesFrom 0 rest := by
  rw [piecesFrom]
  simp only [tokenBody?_eq_none_iff.mpr h]

theorem cuts_piecesFrom (cs : List Char) : Cuts cs (piecesFrom 0 cs) := by
  induction hn : cs.length using Nat.strongRecOn generalizing cs with
  | ind n ih =>
    subst hn
    cases cs with
    | nil => exact .stop
    | cons c rest =>
      cases hbody : tokenBody? (c :: rest) with
      | none =>
        have hno := tokenBody?_eq_none_iff.mp hbody
        rw [piecesFrom_of_not_startsWith hno]
        exact .literal hno (ih _ (Nat.lt_succ_self _) rest rfl)
      | some body =>
        obtain ⟨after, hstarts⟩ := exists_startsWith hbody
        have hlength : after.length < (c :: rest).length := by
          rw [hstarts.2, List.length_append]
          simp [braced]
        rw [piecesFrom_of_startsWith hstarts]
        exact .token hstarts (ih _ hlength after rfl)

/-- **A text is cut in one way.** -/
theorem cuts_iff : Cuts cs ps ↔ piecesFrom 0 cs = ps := by
  refine ⟨fun h => ?_, fun h => h ▸ cuts_piecesFrom cs⟩
  induction h with
  | stop => rfl
  | token h _ ih => rw [piecesFrom_of_startsWith h, ih]
  | literal h _ ih => rw [piecesFrom_of_not_startsWith h, ih]

/-- A text has a token among its pieces wherever it has one at all. -/
theorem exists_token_iff (h : Cuts cs ps) : (∃ body, Piece.token body ∈ ps) ↔
    ∃ before body after, StartsWith (cs.drop before) body after := by
  induction h with
  | stop =>
    refine ⟨fun ⟨_, hmem⟩ => (by cases hmem), fun ⟨before, body, after, hstarts⟩ => ?_⟩
    rw [List.drop_nil] at hstarts
    exact (ne_nil_of_startsWith hstarts).elim
  | token h _ _ => exact ⟨fun _ => ⟨0, _, _, h⟩, fun _ => ⟨_, List.mem_cons_self⟩⟩
  | literal h _ ih =>
    simp only [List.mem_cons, reduceCtorEq, false_or]
    rw [ih]
    constructor
    · rintro ⟨before, body, after, hstarts⟩
      exact ⟨before + 1, body, after, hstarts⟩
    · rintro ⟨before, body, after, hstarts⟩
      cases before with
      | zero => exact absurd hstarts (h body after)
      | succ before => exact ⟨before, body, after, hstarts⟩

end Cutting

/-! ## Putting display texts in -/

/-- The text that a token is rendered to. -/
def displayWithin (room : Nat) (settings : Settings) (m : Mapping) (token : String) :
    Except Abort String := do
  formatValueWithin room settings (← resolve room settings token m)

def display (settings : Settings) (m : Mapping) (token : String) : Except Abort String :=
  displayWithin depthLimit settings m token

/-- A piece with its text put in; the empty token has the placeholder. -/
def Piece.filled (settings : Settings) (shown : String → String) : Piece → String
  | literal c => String.singleton c
  | token [] => settings.emptyPlaceholder
  | token body => shown (String.ofList body)

section Filling

variable {room : Nat} {settings : Settings} {m m' : Mapping} {text : String}

theorem mem_tokens {t : String} :
    t ∈ tokens text ↔ t ≠ "" ∧ ∃ body, .token body ∈ pieces text ∧ String.ofList body = t := by
  have hbody : t ∈ (pieces text).filterMap Piece.token? ↔
      ∃ body, .token body ∈ pieces text ∧ String.ofList body = t := by
    rw [List.mem_filterMap]
    constructor
    · rintro ⟨piece, hmem, ht⟩
      cases piece with
      | literal c => cases ht
      | token body => exact ⟨body, hmem, Option.some.inj ht⟩
    · rintro ⟨body, hmem, rfl⟩
      exact ⟨_, hmem, rfl⟩
  rw [tokens, List.mem_eraseDups, List.mem_filter, hbody]
  simp [and_comm]

theorem displayWithin_empty : displayWithin room settings m "" = .ok settings.emptyPlaceholder := rfl

/-- A piece is a character, the empty token, or one of the tokens of the text. -/
theorem renderPiece_cases {piece : Piece} (h : piece ∈ pieces text) :
    (∃ c, piece = .literal c) ∨ piece = .token [] ∨
      ∃ c body, piece = .token (c :: body) ∧ String.ofList (c :: body) ∈ tokens text := by
  match piece with
  | .literal c => exact .inl ⟨c, rfl⟩
  | .token [] => exact .inr (.inl rfl)
  | .token (c :: body) =>
    have hne : String.ofList (c :: body) ≠ "" := fun heq => by
      have hlist := congrArg String.toList heq
      rw [String.toList_ofList] at hlist
      cases hlist
    exact .inr (.inr ⟨c, body, rfl, mem_tokens.mpr ⟨hne, _, h, rfl⟩⟩)

/-- **A text depends on the values through its tokens.** -/
theorem renderWithin_congr_tokens
    (h : ∀ t ∈ tokens text, displayWithin room settings m t = displayWithin room settings m' t) :
    renderWithin room settings text m = renderWithin room settings text m' := by
  have hpieces : (pieces text).mapM (renderPiece room settings m) =
      (pieces text).mapM (renderPiece room settings m') := by
    refine mapM_congr fun piece hpiece => ?_
    obtain ⟨c, rfl⟩ | rfl | ⟨c, body, rfl, ht⟩ := renderPiece_cases hpiece
    · rfl
    · rfl
    · exact h _ ht
  rw [renderWithin, hpieces, ← renderWithin]

theorem renderWithin_eq_filled {shown : String → String}
    (h : ∀ t ∈ tokens text, displayWithin room settings m t = .ok (shown t)) :
    renderWithin room settings text m =
      .ok (String.join ((pieces text).map (Piece.filled settings shown))) := by
  have hpieces : (pieces text).mapM (renderPiece room settings m) =
      .ok ((pieces text).map (Piece.filled settings shown)) := by
    refine mapM_eq_ok fun piece hpiece => ?_
    obtain ⟨c, rfl⟩ | rfl | ⟨c, body, rfl, ht⟩ := renderPiece_cases hpiece
    · rfl
    · exact displayWithin_empty
    · exact h _ ht
  rw [renderWithin, hpieces]
  rfl

theorem hasTokens_iff : hasTokens text ↔ ∃ body, Piece.token body ∈ pieces text := by
  rw [hasTokens, List.any_eq_true]
  constructor
  · rintro ⟨piece, hmem, hsome⟩
    cases piece with
    | literal c => cases hsome
    | token body => exact ⟨body, hmem⟩
  · rintro ⟨body, hmem⟩
    exact ⟨_, hmem, rfl⟩

/-- Without tokens the pieces are the characters. -/
theorem join_filled_of_literals {cs : List Char} {ps : List Piece} (h : Cuts cs ps)
    (hno : ¬∃ body, Piece.token body ∈ ps) (shown : String → String) :
    String.join (ps.map (Piece.filled settings shown)) = String.ofList cs := by
  induction h with
  | stop => rfl
  | token => exact absurd ⟨_, List.mem_cons_self⟩ hno
  | literal _ _ ih =>
    have htail := ih fun ⟨body, hmem⟩ => hno ⟨body, List.mem_cons_of_mem _ hmem⟩
    rw [List.map_cons, String.join_cons, htail, Piece.filled]
    exact (String.ofList_cons ..).symm

end Filling

/-- **Rendering factors through the tokens.** Values under which the tokens of a text have the same
display texts give the same text. The text is cut in one way; its characters are kept, and each token
gives way to its display text, as it is. Without a place where a token starts, the text stays what it
is. -/
theorem render_factors (settings : Settings) (text : String) :
    (∀ m m', (∀ t ∈ tokens text, display settings m t = display settings m' t) →
      render settings text m = render settings text m') ∧
    (∃ ps, (∀ qs, Cuts text.toList qs ↔ qs = ps) ∧
      (∀ t, t ∈ tokens text ↔ t ≠ "" ∧ ∃ body, .token body ∈ ps ∧ String.ofList body = t) ∧
      ∀ m shown, (∀ t ∈ tokens text, display settings m t = .ok (shown t)) →
        render settings text m = .ok (String.join (ps.map (Piece.filled settings shown)))) ∧
    (hasTokens text ↔ ∃ before body after, StartsWith (text.toList.drop before) body after) ∧
    (hasTokens text = false → ∀ m, render settings text m = .ok text) := by
  have hcuts : Cuts text.toList (pieces text) := cuts_piecesFrom text.toList
  refine ⟨fun m m' h => renderWithin_congr_tokens h, ⟨pieces text, fun qs => ?_, fun t => mem_tokens,
    fun m shown h => renderWithin_eq_filled h⟩, ?_, fun hno m => ?_⟩
  · exact cuts_iff.trans eq_comm
  · exact hasTokens_iff.trans (exists_token_iff hcuts)
  · have hno : ¬∃ body, Piece.token body ∈ pieces text := fun h => by
      rw [hasTokens_iff.mpr h] at hno
      cases hno
    -- No token is there to be shown, so any display texts will do.
    have hshown : ∀ t ∈ tokens text, display settings m t = .ok "" := fun t ht => by
      obtain ⟨-, body, hmem, -⟩ := mem_tokens.mp ht
      exact absurd ⟨body, hmem⟩ hno
    rw [render, renderWithin_eq_filled hshown, join_filled_of_literals hcuts hno, String.ofList_toList]

/-- A token that occurs twice and is shown as a token, one with blanks, the empty one, and braces that
belong to none. -/
def bracedText : String :=
  "\x7b\x7ba\x7d\x7d of \x7b\x7b b.c \x7d\x7d\x7b\x7b\x7d\x7d \x7b\x7ba\x7d\x7d\x7d \x7b\x7b b\x7d"

def wholeCount : Mapping :=
  ⟨[(.text "a", .text "\x7b\x7bb.c\x7d\x7d"), (.text "b", .mapping [(.text "c", .int 2)])]⟩

def writtenCount : Mapping :=
  ⟨[(.text "a", .text "\x7b\x7bb.c\x7d\x7d"), (.text "b", .mapping [(.text "C", .text "2")]),
    (.text "d", .null)]⟩

theorem render_factors_bracedText :
    render {} bracedText wholeCount = render {} bracedText writtenCount ∧
      render {} bracedText wholeCount =
        .ok "\x7b\x7bb.c\x7d\x7d of 2- \x7b\x7bb.c\x7d\x7d\x7d \x7b\x7b b\x7d" ∧
      render {} "\x7b\x7b b\x7d" wholeCount = .ok "\x7b\x7b b\x7d" := by
  have htokens : tokens bracedText = ["a", "b.c"] := by decide +kernel
  have hdisplay : ∀ t ∈ ["a", "b.c"], display {} wholeCount t = display {} writtenCount t := by
    decide +kernel
  have hshown : ∀ t ∈ ["a", "b.c"], display {} wholeCount t =
      .ok (if t = "a" then "\x7b\x7bb.c\x7d\x7d" else "2") := by decide +kernel
  obtain ⟨hsame, ⟨ps, hcuts, -, hfilled⟩, -, -⟩ := render_factors {} bracedText
  rw [htokens] at hsame hfilled
  have hpieces : pieces bracedText = ps := (hcuts _).mp (cuts_piecesFrom _)
  refine ⟨hsame _ _ hdisplay, ?_, (render_factors {} _).2.2.2 (by decide +kernel) _⟩
  rw [hfilled _ _ hshown, ← hpieces]
  exact congrArg Except.ok (by decide +kernel)

end LiveForm.Template
