import LiveForm.Expr.Token
import LiveForm.Text.Class

/-! # How tokens are spelled

Which texts are tokens of which kind, said without a scanner: numbers, texts between quotes, names,
names of cells, and marks that are always written the same. -/

namespace LiveForm

open Text

/-! ## Texts of a kind -/

/-- One or more characters of a class. -/
def Run (p : Char → Bool) (w : List Char) : Prop := w ≠ [] ∧ ∀ c ∈ w, p c

def IsSign (c : Char) : Prop := c = '+' ∨ c = '-'

/-- A mark, perhaps a sign, and digits. -/
inductive Exponent : List Char → Prop where
  | unsigned {mark : Char} {digits : List Char} :
    mark = 'e' ∨ mark = 'E' → Run isDecimal digits → Exponent (mark :: digits)
  | signed {mark sign : Char} {digits : List Char} :
    mark = 'e' ∨ mark = 'E' → IsSign sign → Run isDecimal digits → Exponent (mark :: sign :: digits)

/-- Numbers with a point, beside which there is a digit, or with an exponent. -/
inductive Floating : List Char → Prop where
  | point {whole places exponent : List Char} :
    (∀ c ∈ whole, isDecimal c) → (∀ c ∈ places, isDecimal c) → whole ≠ [] ∨ places ≠ [] →
    exponent = [] ∨ Exponent exponent → Floating (whole ++ '.' :: (places ++ exponent))
  | scaled {whole exponent : List Char} :
    Run isDecimal whole → Exponent exponent → Floating (whole ++ exponent)

/-- What follows the opening quote of a text, up to and with the closing one. A backslash takes any
character but a line break with it. -/
inductive Closing (quote : Char) : List Char → Prop where
  | close : Closing quote [quote]
  | plain {c : Char} {w : List Char} :
    c ≠ quote → c ≠ '\\' → Closing quote w → Closing quote (c :: w)
  | escaped {c : Char} {w : List Char} : c ≠ '\n' → Closing quote w → Closing quote ('\\' :: c :: w)

/-- A text between quotes of one sort. -/
def Quoted (quote : Char) (w : List Char) : Prop := ∃ rest, w = quote :: rest ∧ Closing quote rest

/-- A name without dots and brackets. -/
inductive Identifier : List Char → Prop where
  | mk {c : Char} {w : List Char} :
    isIdentStart c → (∀ d ∈ w, isIdentPart d) → Identifier (c :: w)

/-- One or more dots, each with a name behind it. -/
inductive Accesses : List Char → Prop where
  | last {name : List Char} : Identifier name → Accesses ('.' :: name)
  | more {name w : List Char} : Identifier name → Accesses w → Accesses ('.' :: (name ++ w))

/-- A name with an index in brackets and accesses. -/
inductive CellName : List Char → Prop where
  | mk {array digits accesses : List Char} :
    Identifier array → Run isDecimal digits → Accesses accesses →
    CellName (array ++ '[' :: (digits ++ ']' :: accesses))

/-- The tokens that are always written the same. -/
def marks : List (TokenKind × List Char) :=
  [(.eq, ['=', '=', '=']), (.eq, ['=', '=']), (.ne, ['!', '=', '=']), (.ne, ['!', '=']),
   (.le, ['<', '=']), (.ge, ['>', '=']), (.and, ['&', '&']), (.or, ['|', '|']), (.not, ['!']),
   (.question, ['?']), (.colon, [':']), (.plus, ['+']), (.minus, ['-']), (.star, ['*']),
   (.slash, ['/']), (.percent, ['%']), (.lt, ['<']), (.gt, ['>']), (.lparen, ['(']),
   (.rparen, [')']), (.comma, [',']), (.dot, ['.'])]

/-- The texts of each kind; white space has none. Words of the language are spelled as names. -/
inductive Spelled : Option TokenKind → List Char → Prop where
  | blank {w : List Char} : Run isBlank w → Spelled none w
  | float {w : List Char} : Floating w → Spelled (some .float) w
  | int {w : List Char} : Run isDecimal w → Spelled (some .int) w
  | text {quote : Char} {w : List Char} :
    quote = '"' ∨ quote = '\'' → Quoted quote w → Spelled (some .text) w
  | rowName {w : List Char} : CellName w → Spelled (some .rowName) w
  | ident {w : List Char} : Identifier w → Spelled (some .ident) w
  | mark {kind : TokenKind} {w : List Char} : (kind, w) ∈ marks → Spelled (some kind) w

theorem Identifier.ne_nil {w : List Char} (h : Identifier w) : w ≠ [] := by
  cases h
  simp

theorem Identifier.of_mem {w : List Char} (h : Identifier w) {c : Char} (hc : c ∈ w) :
    isIdentStart c ∨ isIdentPart c := by
  cases h with
  | mk hstart hpart =>
    rcases List.mem_cons.mp hc with rfl | hc
    · exact .inl hstart
    · exact .inr (hpart c hc)

theorem Identifier.exists_start {w : List Char} (h : Identifier w) :
    ∃ c rest, w = c :: rest ∧ isIdentStart c := by
  cases h with
  | mk hc _ => exact ⟨_, _, rfl, hc⟩

theorem CellName.exists_start {w : List Char} (h : CellName w) :
    ∃ c rest, w = c :: rest ∧ isIdentStart c := by
  cases h with
  | mk harray _ _ =>
    obtain ⟨c, rest, rfl, hc⟩ := harray.exists_start
    exact ⟨c, _, rfl, hc⟩

theorem CellName.bracket_mem {w : List Char} (h : CellName w) : '[' ∈ w := by
  cases h
  simp

theorem Accesses.exists_dot {w : List Char} (h : Accesses w) : ∃ rest, w = '.' :: rest := by
  cases h <;> exact ⟨_, rfl⟩

theorem Accesses.append {w name : List Char} (h : Accesses w) (hname : Identifier name) :
    Accesses (w ++ '.' :: name) := by
  induction h with
  | last hfirst => exact .more hfirst (.last hname)
  | more hfirst _ ih =>
    rw [List.cons_append, List.append_assoc]
    exact .more hfirst ih

/-- The name of a cell goes on with every name behind a dot. -/
theorem CellName.append {w name : List Char} (h : CellName w) (hname : Identifier name) :
    CellName (w ++ '.' :: name) := by
  cases h with
  | mk harray hdigits haccess =>
    rw [List.append_assoc, List.cons_append, List.append_assoc, List.cons_append]
    exact .mk harray hdigits (haccess.append hname)

theorem Exponent.exists_mark {w : List Char} (h : Exponent w) :
    ∃ mark rest, w = mark :: rest ∧ (mark = 'e' ∨ mark = 'E') := by
  cases h with
  | unsigned hm _ => exact ⟨_, _, rfl, hm⟩
  | signed hm _ _ => exact ⟨_, _, rfl, hm⟩

theorem Floating.exists_head {w : List Char} (h : Floating w) :
    ∃ c rest, w = c :: rest ∧ (isDecimal c ∨ c = '.') := by
  cases h with
  | @point whole places exponent hwhole _ _ _ =>
    cases whole with
    | nil => exact ⟨'.', _, rfl, .inr rfl⟩
    | cons c whole => exact ⟨c, _, rfl, .inl (hwhole c List.mem_cons_self)⟩
  | @scaled whole exponent hwhole _ =>
    obtain ⟨c, whole, rfl⟩ := List.exists_cons_of_ne_nil hwhole.1
    exact ⟨c, _, rfl, .inl (hwhole.2 c List.mem_cons_self)⟩

/-- The dot alone is no number, and neither is a digit with nothing behind it. -/
theorem Floating.one_lt_length {w : List Char} (h : Floating w) : 1 < w.length := by
  cases h with
  | point _ _ hsome _ =>
    rcases hsome with hne | hne <;>
    · have hpos := List.length_pos_iff.mpr hne
      simp only [List.length_append, List.length_cons]
      omega
  | scaled hwhole hex =>
    have hpos := List.length_pos_iff.mpr hwhole.1
    obtain ⟨mark, rest, rfl, -⟩ := hex.exists_mark
    rw [List.length_append, List.length_cons]
    omega

theorem Spelled.ne_nil {kind? : Option TokenKind} {w : List Char} (h : Spelled kind? w) :
    w ≠ [] := by
  cases h with
  | blank hw => exact hw.1
  | float hw =>
    obtain ⟨c, rest, rfl, -⟩ := hw.exists_head
    simp
  | int hw => exact hw.1
  | text _ hw =>
    obtain ⟨rest, rfl, -⟩ := hw
    simp
  | rowName hw => cases hw; simp
  | ident hw => exact hw.ne_nil
  | mark hw =>
    rintro rfl
    simp [marks] at hw

end LiveForm
