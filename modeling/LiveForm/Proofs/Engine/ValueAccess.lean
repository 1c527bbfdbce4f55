import LiveForm.Proofs.Engine.Escape
import LiveForm.Proofs.Expr.OneToken

/-! # The accessor `value`

Behind a plain name the accessor `value` means the name. Behind the name of a cell it does so only with
white space in between: without, the scanner takes the accessor for one more part of the cell's name,
which then is the name of another cell. -/

namespace LiveForm

open Text

/-! ## Reading the accessor -/

/-- The accessor as it is written. -/
def accessor : List Char := ['.', 'v', 'a', 'l', 'u', 'e']

theorem identifier_value : Identifier ['v', 'a', 'l', 'u', 'e'] :=
  .mk (by decide) (List.all_eq_true.mp (by decide))

theorem cuts_accessor (position : Nat) :
    Token.Cuts position accessor []
      [⟨.dot, ".", position⟩, ⟨.ident, "value", position + 1⟩] := by
  have hdot : Token.lexeme? (['.'] ++ (['v', 'a', 'l', 'u', 'e'] ++ [])) = some (some .dot, 1) := rfl
  have hvalue : Token.lexeme? (['v', 'a', 'l', 'u', 'e'] ++ ([] ++ [])) = some (some .ident, 5) := rfl
  exact .token hdot (.token hvalue .stop)

/-- With white space before the accessor every token stays one; a plain name does so without. -/
theorem lexeme?_before_accessor {kind : TokenKind} {w blanks : List Char}
    (h : Spelled (some kind) w) (hb : ∀ c ∈ blanks, isBlank c) (hident : blanks = [] → Identifier w) :
    Token.lexeme? (w ++ (blanks ++ accessor)) = some (some kind, w.length) := by
  cases blanks with
  | nil =>
    have hw := hident rfl
    obtain rfl := Option.some.inj (h.kind_unique (.ident hw))
    exact Token.lexeme?_of_identifier hw Pattern.isIdentPart_dot (by decide) _
  | cons b blanks =>
    have hhead : ∀ c ∈ (b :: blanks ++ accessor).head?, isBlank c := by
      intro c hc
      exact hb c (List.mem_of_mem_head? hc)
    have hlexeme : Token.lexeme? (w ++ ([] ++ (b :: blanks ++ accessor))) =
        some (some kind, w.length) :=
      Token.lexeme?_before (Token.lexeme?_of_spelled h) hhead
    exact hlexeme

/-- White space may stand before the accessor, and has to behind the name of a cell. -/
theorem parse_value {x blanks : String} (h : FieldName x) (hb : ∀ c ∈ blanks.toList, isBlank c)
    (hident : blanks = "" → Identifier x.toList) :
    Expr.parse (x ++ (blanks ++ ".value")) = .ok (.access (.name x) "value") := by
  obtain ⟨kind, hspelled, hatom⟩ := h.exists_kind
  have htext : (x ++ (blanks ++ ".value")).toList = x.toList ++ (blanks.toList ++ accessor) := by
    rw [String.toList_append, String.toList_append]
    rfl
  have hname : Token.lexeme? (x.toList ++ (blanks.toList ++ accessor ++ [])) =
      some (some kind, x.toList.length) := by
    rw [List.append_nil]
    exact lexeme?_before_accessor hspelled hb fun hnil => hident (by simpa using hnil)
  have hrest := (Token.Cuts.blanks hb (0 + x.toList.length) accessor).append
    (List.append_nil accessor).symm (cuts_accessor _)
  have hscan := (Token.Cuts.token hname hrest).scanFrom_ok
  rw [← htext] at hscan
  have hderives (place : Nat) : Derives .accessed
      ([Token.ofLexeme kind x.toList 0] ++ [⟨.dot, ".", place⟩, ⟨.ident, "value", place + 1⟩])
      (.access (.name x) "value") := .access (.unaccessed (.uncalled (.atom (hatom 0)))) rfl rfl
  exact Parser.parse_eq_ok hscan rfl (hderives _).of_accessed
    (List.countP_le_length.trans_lt (show 4 < depthLimit by decide))

/-! ## What it evaluates to -/

namespace Engine

section Replies

variable {x text text' : String} {σ : Scope} {e e' : Expr}

/-- Texts of trees that evaluate the same and mention the same are answered the same. -/
theorem reply_eq_of_parse (hp : Expr.parse text = .ok e) (hp' : Expr.parse text' = .ok e')
    (hh : e.height ≤ depthLimit) (hh' : e'.height ≤ depthLimit)
    (hv : e.evaluateWithin depthLimit σ = e'.evaluateWithin depthLimit σ)
    (hm : e.mentions = e'.mentions) :
    reply text σ = reply text' σ ∧ mentionedIn text = mentionedIn text' := by
  have hids : mentionedIn text = mentionedIn text' := by
    simp only [mentionedIn, hp, hp', mentioned, Expr.references, hm, if_neg (Nat.not_lt.mpr hh),
      if_neg (Nat.not_lt.mpr hh')]
  refine ⟨?_, hids⟩
  simp only [reply, hp, hp', outcome, hv, failedReply, hids]

/-- Where the dotted id is no field, the accessor means the name. -/
theorem evaluateWithin_value (hσ : σ (x ++ ".value") = none) (room : Nat) :
    (Expr.access (.name x) "value").evaluateWithin (room + 2) σ =
      (Expr.name x).evaluateWithin (room + 2) σ := by
  have hid : x ++ "." ++ "value" = x ++ ".value" := by
    rw [String.append_assoc]
    rfl
  simp [Expr.evaluateWithin, Expr.links, Expr.dotted?, hid, hσ]

theorem mentions_value (x : String) :
    (Expr.access (.name x) "value").mentions = (Expr.name x).mentions := by
  simp [Expr.mentions, Expr.dotted?]

/-- The name of a cell that is no field has no value. -/
theorem reply_cell (h : CellName x.toList) (hσ : σ x = none) :
    reply x σ = .ok ⟨.null, some (failed (Fault.undefined x).message), [x]⟩ := by
  have houtcome : outcome depthLimit σ (.name x) = .ok (.error (Fault.undefined x).message, []) := by
    simp [outcome, depthLimit, Expr.evaluateWithin, Scope.read, hσ, Reading.fault, bind, Except.bind]
  simp only [reply, parse_name (.cell h), houtcome, failedReply, mentionedIn_cell h]
  rfl

end Replies

/-- Two texts are answered alike and mention the same ids, whatever each engine has been asked. -/
def Alike (σ : Scope) (text text' : String) : Prop :=
  ∀ calls later : List Call,
    ((evaluate text σ).run (afterCalls calls)).1 = ((evaluate text' σ).run (afterCalls later)).1 ∧
    ((dependencies text).run (afterCalls calls)).1 = ((dependencies text').run (afterCalls later)).1

theorem alike_value {x blanks : String} {σ : Scope} (h : FieldName x)
    (hb : ∀ c ∈ blanks.toList, isBlank c) (hident : blanks = "" → Identifier x.toList)
    (hσ : σ (x ++ ".value") = none) : Alike σ (x ++ (blanks ++ ".value")) x := by
  intro calls later
  have hheight : ((Expr.name x).access "value").height ≤ depthLimit := show 2 ≤ depthLimit by decide
  have hheight' : (Expr.name x).height ≤ depthLimit := show 1 ≤ depthLimit by decide
  rw [run_evaluate_afterCalls, run_evaluate_afterCalls, run_dependencies_afterCalls,
    run_dependencies_afterCalls]
  exact reply_eq_of_parse (parse_value h hb hident) (parse_name h) hheight hheight'
    (evaluateWithin_value hσ (depthLimit - 2)) (mentions_value x)

theorem cellName_value {x : String} (h : CellName x.toList) : CellName (x ++ ".value").toList := by
  rw [String.toList_append]
  exact h.append identifier_value

/-- **The accessor `value` means the name it stands behind, but for cells.** In a scope without a field
of the dotted id a plain name with the accessor is answered as the name. So is the name of a cell with
white space before the accessor; without, the accessor is part of a name that nothing is bound to. -/
theorem value_means_name {x : String} {σ : Scope} (hσ : σ (x ++ ".value") = none) :
    (Identifier x.toList → keyword? x = none → Alike σ (x ++ ".value") x) ∧
    (CellName x.toList →
      (∀ blanks : String, blanks ≠ "" → (∀ c ∈ blanks.toList, isBlank c) →
        Alike σ (x ++ (blanks ++ ".value")) x) ∧
      ∀ calls : List Call,
        ((evaluate (x ++ ".value") σ).run (afterCalls calls)).1 =
          .ok ⟨.null, some (failed (Fault.undefined (x ++ ".value")).message), [x ++ ".value"]⟩ ∧
        ((dependencies (x ++ ".value")).run (afterCalls calls)).1 = .ok [x ++ ".value"] ∧
        ((dependencies x).run (afterCalls calls)).1 = .ok [x]) := by
  refine ⟨fun hx hword => ?_, fun hx => ⟨fun blanks hne hb => ?_, fun calls => ?_⟩⟩
  · have halike : Alike σ (x ++ ("" ++ ".value")) x :=
      alike_value (.plain hx hword) (by simp) (fun _ => hx) hσ
    rwa [String.empty_append] at halike
  · exact alike_value (.cell hx) hb (fun hnil => absurd hnil hne) hσ
  · have hcell := cellName_value hx
    rw [run_evaluate_afterCalls, run_dependencies_afterCalls, run_dependencies_afterCalls]
    exact ⟨reply_cell hcell hσ, mentionedIn_cell hcell, mentionedIn_cell hx⟩

/-- A form with the quantity of the third product. -/
def thirdQuantity : Scope := fun x => if x = "products[2].quantity" then some (.int 3) else none

theorem cellName_quantity : CellName "products[2].quantity".toList := by
  have harray : Identifier "products".toList := .mk (by decide) (List.all_eq_true.mp (by decide))
  have hname : Identifier "quantity".toList := .mk (by decide) (List.all_eq_true.mp (by decide))
  have hdigits : Run isDecimal ['2'] := ⟨by simp, List.all_eq_true.mp (by decide)⟩
  have haccess : Accesses ('.' :: "quantity".toList) := .last hname
  exact .mk harray hdigits haccess

/-- The quantity has no accessor, but with a blank in front of it. -/
theorem value_means_name_quantity :
    thirdQuantity ("products[2].quantity" ++ ".value") = none ∧
      ((evaluate "products[2].quantity.value" thirdQuantity).run (afterCalls [])).1 =
        .ok ⟨.null, some "Expression evaluation failed: undefined: products[2].quantity.value",
          ["products[2].quantity.value"]⟩ ∧
      Alike thirdQuantity "products[2].quantity .value" "products[2].quantity" := by
  have hσ : thirdQuantity ("products[2].quantity" ++ ".value") = none := by decide
  obtain ⟨hblank, hnone⟩ := (value_means_name hσ).2 cellName_quantity
  exact ⟨hσ, (hnone []).1, hblank " " (by decide) (List.all_eq_true.mp (by decide))⟩

/-- A name in a scope without its dotted id need not be answered as the name with the accessor. -/
theorem quantity_not_alike :
    thirdQuantity "products[2].quantity.value" = none ∧
      ¬Alike thirdQuantity "products[2].quantity.value" "products[2].quantity" := by
  refine ⟨by decide, fun halike => ?_⟩
  have hsuffixed : mentionedIn "products[2].quantity.value" = .ok ["products[2].quantity.value"] :=
    mentionedIn_cell (cellName_value cellName_quantity)
  have hids := (halike [] []).2
  rw [run_dependencies_afterCalls, run_dependencies_afterCalls, hsuffixed,
    mentionedIn_cell cellName_quantity] at hids
  exact absurd (Except.ok.inj hids) (by decide)

end Engine

end LiveForm
