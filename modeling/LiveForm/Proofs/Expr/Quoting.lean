import LiveForm.Proofs.Expr.OneToken

/-! # Texts in quotes

Every text can be written as a token, in quotes of either sort. Two places look at backslashes: the
scanner, for where the token ends, and the parser, for what it says. They agree on what is written
here, whatever quotes, backslashes and line breaks the text has. -/

namespace LiveForm

namespace Quoting

/-- A text with a backslash before each of its backslashes and quotes. -/
def escape (quote : Char) (cs : List Char) : List Char :=
  cs.flatMap fun c => if c = quote ∨ c = '\\' then ['\\', c] else [c]

/-- The text in quotes. -/
def quoted (quote : Char) (s : String) : String :=
  String.ofList (quote :: (escape quote s.toList ++ [quote]))

section Escape

variable {quote c : Char} {cs : List Char}

theorem escape_cons_of_pos (h : c = quote ∨ c = '\\') :
    escape quote (c :: cs) = '\\' :: c :: escape quote cs := by
  simp [escape, h]

theorem escape_cons_of_neg (h : ¬(c = quote ∨ c = '\\')) :
    escape quote (c :: cs) = c :: escape quote cs := by
  simp [escape, h]

/-- The next quote that no backslash stands before is the one behind the text. -/
theorem closing_escape (hq : quote ≠ '\n') (cs : List Char) :
    Closing quote (escape quote cs ++ [quote]) := by
  induction cs with
  | nil => exact .close
  | cons c cs ih =>
    by_cases h : c = quote ∨ c = '\\'
    · have hline : c ≠ '\n' := by
        rcases h with rfl | rfl
        · exact hq
        · decide
      rw [escape_cons_of_pos h]
      exact .escaped hline ih
    · rw [escape_cons_of_neg h]
      rw [not_or] at h
      exact .plain h.1 h.2 ih

/-- A backslash before a backslash or a quote means nothing but that. -/
theorem unescape_escaped (h : c ≠ 'n' ∧ c ≠ 't' ∧ c ≠ 'r') (rest : List Char) :
    Parser.unescape ('\\' :: c :: rest) = c :: Parser.unescape rest := by
  simp [Parser.unescape, h]

theorem unescape_plain (h : c ≠ '\\') (rest : List Char) :
    Parser.unescape (c :: rest) = c :: Parser.unescape rest := by
  simp [Parser.unescape, h]

theorem unescape_escape (hq : quote ≠ 'n' ∧ quote ≠ 't' ∧ quote ≠ 'r') (cs : List Char) :
    Parser.unescape (escape quote cs) = cs := by
  induction cs with
  | nil => rfl
  | cons c cs ih =>
    by_cases h : c = quote ∨ c = '\\'
    · have hapart : c ≠ 'n' ∧ c ≠ 't' ∧ c ≠ 'r' := by
        rcases h with rfl | rfl
        · exact hq
        · decide
      rw [escape_cons_of_pos h, unescape_escaped hapart, ih]
    · rw [escape_cons_of_neg h, unescape_plain (fun hc => h (.inr hc)), ih]

end Escape

variable {quote : Char} {s : String}

theorem unquote_quoted (hq : quote ≠ 'n' ∧ quote ≠ 't' ∧ quote ≠ 'r') (s : String) :
    Parser.unquote (quoted quote s) = s := by
  rw [Parser.unquote, quoted, String.toList_ofList, List.drop_succ_cons, List.drop_zero,
    List.dropLast_concat, unescape_escape hq, String.ofList_toList]

theorem spelled_quoted (hq : quote = '"' ∨ quote = '\'') (s : String) :
    Spelled (some .text) (quoted quote s).toList := by
  refine .text hq ?_
  rw [quoted, String.toList_ofList]
  exact ⟨_, rfl, closing_escape (quote_apart hq).2.2.2.2.2 s.toList⟩

/-- The token of a text in quotes stands for the text. -/
theorem atom_quoted (hq : quote = '"' ∨ quote = '\'') (s : String) (position : Nat) :
    Atom (Token.ofLexeme .text (quoted quote s).toList position) (.literal (.text s)) := by
  let text : Token := ⟨.text, quoted quote s, position⟩
  have htoken : Token.ofLexeme .text (quoted quote s).toList position = text := by
    rw [Token.ofLexeme, String.ofList_toList]
    rfl
  have hmeaning : Parser.unquote text.text = s :=
    unquote_quoted (by rcases hq with rfl | rfl <;> decide) s
  rw [htoken]
  exact hmeaning ▸ .text rfl

/-- **Every text can be written, in quotes of either sort, and is read back exactly.** -/
theorem parse_quoted (hq : quote = '"' ∨ quote = '\'') (s : String) :
    Token.scan (quoted quote s) =
        .ok [⟨.text, quoted quote s, 0⟩, ⟨.eof, "", (quoted quote s).length⟩] ∧
      Expr.parse (quoted quote s) = .ok (.literal (.text s)) := by
  have hspelled := spelled_quoted hq s
  refine ⟨?_, parse_of_spelled hspelled (atom_quoted hq s 0)⟩
  rw [Token.scan_of_spelled hspelled, Token.ofLexeme, String.ofList_toList]
  rfl

/-- Backslashes that stand before quotes, before letters and at the end, and a line break. -/
theorem parse_quoted_backslashes :
    quoted '"' "\\n \"'\n\\\"\\" = "\"\\\\n \\\"'\n\\\\\\\"\\\\\"" ∧
      Expr.parse "\"\\\\n \\\"'\n\\\\\\\"\\\\\"" = .ok (.literal (.text "\\n \"'\n\\\"\\")) := by
  have hq : '"' = '"' ∨ '"' = '\'' := .inl rfl
  have htext : quoted '"' "\\n \"'\n\\\"\\" = "\"\\\\n \\\"'\n\\\\\\\"\\\\\"" := by decide
  exact ⟨htext, htext ▸ (parse_quoted hq _).2⟩

end Quoting

end LiveForm
