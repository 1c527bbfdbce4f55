import LiveForm.Expr.Lexer
import LiveForm.Proofs.Except
import Mathlib.Data.List.TakeWhile

/-! # The tokens of a text

Scanning a text that can be scanned gives lexemes with the end behind them. An identifier has no dots
and no brackets in it; what has a bracket in it is the name of a cell, and has a dot as well. -/

namespace LiveForm

open Text

/-- A token as a pattern cuts it off the front of a text. -/
inductive Lexeme : Token → Prop where
  | cut {kind : TokenKind} {length : List Char → Nat} (cs : List Char) (position : Nat) :
    (some kind, length) ∈ patterns → length cs ≠ 0 →
    Lexeme (Token.ofLexeme kind (cs.take (length cs)) position)

theorem Token.lexeme?_eq_some {cs : List Char} {kind? : Option TokenKind} {n : Nat}
    (h : lexeme? cs = some (kind?, n)) :
    ∃ length, (kind?, length) ∈ patterns ∧ length cs = n ∧ n ≠ 0 := by
  obtain ⟨⟨kind, length⟩, hm, hl⟩ := List.exists_of_findSome?_eq_some h
  dsimp only at hl
  split at hl
  · cases hl
  · rename_i hn
    obtain ⟨rfl, rfl⟩ := Prod.mk.inj (Option.some.inj hl)
    exact ⟨length, hm, rfl, hn⟩

theorem Token.scanFrom_eq_ok {cs : List Char} {position skip : Nat} {tokens : List Token}
    (h : scanFrom position skip cs = .ok tokens) :
    ∃ body ending, tokens = body ++ [⟨.eof, "", ending⟩] ∧ ∀ t ∈ body, Lexeme t := by
  induction cs generalizing position skip tokens with
  | nil =>
    obtain rfl := Except.ok.inj h
    exact ⟨[], position, rfl, by simp⟩
  | cons c rest ih =>
    cases skip with
    | succ skip => exact ih h
    | zero =>
      rw [scanFrom] at h
      split at h
      · cases h
      · rename_i kind? n hl
        obtain ⟨length, hm, hn, hpos⟩ := lexeme?_eq_some hl
        obtain ⟨tokens', ht, h⟩ := bind_eq_ok h
        obtain ⟨body, ending, rfl, hbody⟩ := ih ht
        cases kind? with
        | none =>
          obtain rfl := Except.ok.inj h
          exact ⟨body, ending, rfl, hbody⟩
        | some kind =>
          obtain rfl := Except.ok.inj h
          refine ⟨_ :: body, ending, rfl, fun t ht => ?_⟩
          rcases List.mem_cons.mp ht with rfl | ht
          · exact hn ▸ .cut (c :: rest) position hm (hn ▸ hpos)
          · exact hbody t ht

theorem Token.scan_eq_ok {source : String} {tokens : List Token} (h : scan source = .ok tokens) :
    ∃ body ending, tokens = body ++ [⟨.eof, "", ending⟩] ∧ ∀ t ∈ body, Lexeme t :=
  scanFrom_eq_ok h

/-! ## Kinds -/

theorem keyword?_eq_some {word : String} {k : TokenKind} (h : keyword? word = some k) :
    k ∈ [.trueWord, .falseWord, .nullWord, .and, .or, .not] := by
  unfold keyword? at h
  repeat' split at h
  all_goals first | cases h; simp | cases h

/-- A lexeme of a kind that no keyword has is cut by a pattern of that kind. -/
theorem Lexeme.of_kind {t : Token} (h : Lexeme t)
    (hk : t.kind ∉ [.trueWord, .falseWord, .nullWord, .and, .or, .not]) :
    ∃ (length : List Char → Nat) (cs : List Char),
      (some t.kind, length) ∈ patterns ∧ length cs ≠ 0 ∧
        t.text = String.ofList (cs.take (length cs)) := by
  cases h with
  | @cut kind length cs position hm hn =>
    refine ⟨length, cs, ?_, hn, rfl⟩
    have hkind : (Token.ofLexeme kind (cs.take (length cs)) position).kind = kind := by
      unfold Token.ofLexeme at hk ⊢
      dsimp only at hk ⊢
      split
      · rename_i hi
        rw [if_pos hi] at hk
        cases hw : keyword? (String.ofList (cs.take (length cs))) with
        | none => exact hi.symm
        | some k =>
          rw [hw] at hk
          exact absurd (keyword?_eq_some hw) hk
      · rfl
    rwa [hkind]

theorem Lexeme.ne_eof {t : Token} (h : Lexeme t) : t.kind ≠ .eof := by
  intro hk
  obtain ⟨length, cs, hm, -⟩ := h.of_kind (by simp [hk])
  simp [hk, patterns] at hm

theorem Lexeme.eof_not_mem {body : List Token} (h : ∀ t ∈ body, Lexeme t) :
    .eof ∉ body.map Token.kind := by
  intro hm
  obtain ⟨t, ht, hk⟩ := List.mem_map.mp hm
  exact (h t ht).ne_eof hk

/-! ## Names -/

theorem take_run (p : Char → Bool) (cs : List Char) :
    cs.take (Pattern.run p cs) = cs.takeWhile p :=
  (List.prefix_iff_eq_take.mp (List.takeWhile_prefix p)).symm

theorem of_mem_take_ident {cs : List Char} {c : Char} (h : c ∈ cs.take (Pattern.ident cs)) :
    isIdentStart c ∨ isIdentPart c := by
  cases cs with
  | nil => simp at h
  | cons d rest =>
    rw [Pattern.ident] at h
    split at h
    · rename_i hd
      rw [Nat.add_comm, List.take_succ_cons, take_run] at h
      rcases List.mem_cons.mp h with rfl | h
      · exact .inl hd
      · exact .inr (List.mem_takeWhile_imp h)
    · simp at h

theorem Lexeme.ident {t : Token} (h : Lexeme t) (hk : t.kind = .ident) :
    '.' ∉ t.text.toList ∧ '[' ∉ t.text.toList := by
  obtain ⟨length, cs, hm, -, ht⟩ := h.of_kind (by simp [hk])
  obtain rfl : length = Pattern.ident := by simpa [hk, patterns] using hm
  rw [ht, String.toList_ofList]
  constructor <;> (intro hc; exact absurd (of_mem_take_ident hc) (by decide))

theorem accesses_ne_zero {fuel : Nat} {cs : List Char} (h : Pattern.accesses fuel cs ≠ 0) :
    ∃ rest, cs = '.' :: rest := by
  unfold Pattern.accesses at h
  split at h
  · exact ⟨_, rfl⟩
  · exact absurd rfl h

theorem dot_mem_take_rowName {cs : List Char} (h : Pattern.rowName cs ≠ 0) :
    '.' ∈ cs.take (Pattern.rowName cs) := by
  unfold Pattern.rowName Pattern.after at h ⊢
  dsimp only at h ⊢
  split at h
  · exact absurd rfl h
  split at h
  · exact absurd rfl h
  split at h
  · exact absurd rfl h
  · rename_i harray hbracket haccess
    rw [if_neg harray, if_neg hbracket, if_neg haccess]
    obtain ⟨rest, hrest⟩ := accesses_ne_zero haccess
    rw [List.take_add, List.mem_append]
    refine .inr ?_
    obtain ⟨n, hn⟩ := Nat.exists_eq_succ_of_ne_zero haccess
    rw [hn, hrest]
    simp

theorem Lexeme.rowName {t : Token} (h : Lexeme t) (hk : t.kind = .rowName) :
    '.' ∈ t.text.toList := by
  obtain ⟨length, cs, hm, hn, ht⟩ := h.of_kind (by simp [hk])
  obtain rfl : length = Pattern.rowName := by simpa [hk, patterns] using hm
  rw [ht, String.toList_ofList]
  exact dot_mem_take_rowName hn

end LiveForm
