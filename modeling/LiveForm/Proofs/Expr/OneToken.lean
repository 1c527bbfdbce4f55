import LiveForm.Proofs.Engine
import LiveForm.Proofs.Expr.Parser.Whole
import LiveForm.Proofs.Expr.Scanning

/-! # Texts of one token

A text that is one token to its end is read as what the token stands for: a plain name and the name of a
cell as that very name. A cell's name is never the name of a function. -/

namespace LiveForm

open Text

theorem parse_of_spelled {source : String} {kind : TokenKind} {e : Expr}
    (h : Spelled (some kind) source.toList) (he : Atom (Token.ofLexeme kind source.toList 0) e) :
    Expr.parse source = .ok e := by
  have hscan : Token.scan source =
      .ok ([Token.ofLexeme kind source.toList 0] ++ [⟨.eof, "", source.length⟩]) :=
    Token.scan_of_spelled h
  exact Parser.parse_eq_ok hscan rfl (Derives.atom he).of_primary
    (List.countP_le_length.trans_lt (show 2 < depthLimit by decide))

/-! ## Names -/

/-- A name that an expression can be: a plain one that is no word of the language, or a cell's. -/
inductive FieldName (x : String) : Prop where
  | plain : Identifier x.toList → keyword? x = none → FieldName x
  | cell : CellName x.toList → FieldName x

section Reading

variable {x : String}

/-- The token of a name stands for the name. -/
theorem FieldName.exists_kind (h : FieldName x) :
    ∃ kind, Spelled (some kind) x.toList ∧
      ∀ position, Atom (Token.ofLexeme kind x.toList position) (.name x) := by
  cases h with
  | plain hx hword =>
    refine ⟨.ident, .ident hx, fun position => ?_⟩
    have htoken : Token.ofLexeme .ident x.toList position = ⟨.ident, x, position⟩ := by
      simp [Token.ofLexeme, hword]
    rw [htoken]
    exact .ident rfl
  | cell hx =>
    refine ⟨.rowName, .rowName hx, fun position => ?_⟩
    have htoken : Token.ofLexeme .rowName x.toList position = ⟨.rowName, x, position⟩ := by
      simp [Token.ofLexeme]
    rw [htoken]
    exact .rowName rfl

theorem parse_name (h : FieldName x) : Expr.parse x = .ok (.name x) := by
  obtain ⟨kind, hspelled, hatom⟩ := h.exists_kind
  exact parse_of_spelled hspelled (hatom 0)

/-- No name of a function is the name of a cell. -/
theorem not_isReserved_of_cell (h : CellName x.toList) : Expr.isReserved x = false := by
  have hall : ∀ name ∈ Builtin.reserved, '[' ∉ name.toList := by decide +kernel
  rw [Expr.isReserved, List.contains_eq_mem, decide_eq_false_iff_not]
  exact fun hm => hall x hm h.bracket_mem

theorem Engine.mentionedIn_cell (h : CellName x.toList) : mentionedIn x = .ok [x] := by
  simp [mentionedIn, parse_name (.cell h), mentioned, Expr.height, depthLimit, Expr.references,
    Expr.mentions, not_isReserved_of_cell h, List.eraseDups_cons]

end Reading

end LiveForm
