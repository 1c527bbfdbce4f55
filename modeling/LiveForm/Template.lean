import LiveForm.Settings
import LiveForm.Template.Format
import LiveForm.Template.Path

/-! Text with tokens in double braces. A token is a path, or a helper applied to arguments; what it
resolves to is shown in words that suit a reader. Substituted text is not searched for tokens again.
-/

namespace LiveForm.Template

open Text

inductive Piece where
  | literal (c : Char)
  | token (body : List Char)
deriving Repr, DecidableEq

/-- The text between two opening and two closing braces, when the first closing brace is doubled. -/
def tokenBody? : List Char → Option (List Char)
  | '\x7b' :: '\x7b' :: rest =>
    match rest.dropWhile (· != '\x7d') with
    | '\x7d' :: '\x7d' :: _ => some (rest.takeWhile (· != '\x7d'))
    | _ => none
  | _ => none

/-- Cuts a text into characters and tokens, from the left; `skip` counts the characters of a token
that are still to be passed over. -/
def piecesFrom (skip : Nat) : List Char → List Piece
  | [] => []
  | c :: rest =>
    match skip with
    | skip + 1 => piecesFrom skip rest
    | 0 =>
      match tokenBody? (c :: rest) with
      | some body => .token (trimWith isBlank body) :: piecesFrom (body.length + 3) rest
      | none => .literal c :: piecesFrom 0 rest

def pieces (text : String) : List Piece := piecesFrom 0 text.toList

def Piece.token? : Piece → Option String
  | token body => some (String.ofList body)
  | literal _ => none

def hasTokens (text : String) : Bool := (pieces text).any fun p => p.token?.isSome

/-- The tokens of a text, each once, without the empty one. -/
def tokens (text : String) : List String :=
  (((pieces text).filterMap Piece.token?).filter fun t => !t.isEmpty).eraseDups

/-- The state of a walk through an argument list. -/
structure Splitter where
  done : List (List Char) := []
  current : List Char := []
  quote : Option Char := none

def Splitter.next (s : Splitter) (c : Char) : Splitter :=
  match s.quote with
  | some q => { s with current := s.current ++ [c], quote := if c == q then none else some q }
  | none =>
    if c == '"' || c == '\'' then { s with current := s.current ++ [c], quote := some c }
    else if c == ',' then { s with done := s.done ++ [trimWith isBlank s.current], current := [] }
    else { s with current := s.current ++ [c] }

/-- The arguments between commas outside quotes, trimmed; nothing at all is no argument. -/
def splitArgs (cs : List Char) : List String :=
  let s := cs.foldl Splitter.next {}
  let tail := trimWith isBlank s.current
  (if tail.isEmpty && s.done.isEmpty then [] else s.done ++ [tail]).map String.ofList

/-- A helper name and the text of its arguments. -/
def call? (token : String) : Option (String × List Char) :=
  match token.toList with
  | c :: rest =>
    if isAsciiLetter c || c == '_' then
      match rest.dropWhile isWord with
      | '(' :: body =>
        if body.getLast? == some ')' then
          some (String.ofList (c :: rest.takeWhile isWord), body.dropLast)
        else none
      | _ => none
    else none
  | [] => none

/-- A signed number without an exponent: digits, with a point among or before them. -/
def number? (arg : String) : Except Abort (Option Value) :=
  let (negative, unsigned) := Numeral.takeSign arg.toList
  let whole := unsigned.takeWhile isDecimal
  match unsigned.dropWhile isDecimal with
  | [] =>
    if whole.isEmpty then .ok none
    else return some (.int (Binary.signed negative (← Numeral.whole whole)))
  | '.' :: fraction =>
    if (whole.isEmpty && fraction.isEmpty) || !fraction.all isDecimal then .ok none
    else
      let numeral : Numeral := ⟨Numeral.digitsValue (whole ++ fraction), -(fraction.length : Int)⟩
      .ok (some (.float (numeral.toFloat negative)))
  | _ => .ok none

/-- The text of an argument that is quoted as a whole. -/
def unquoted? (arg : String) : Option Value :=
  match arg.toList with
  | q :: rest =>
    if (q == '"' || q == '\'') && !rest.isEmpty && rest.getLast? == some q then
      some (.text (String.ofList rest.dropLast))
    else none
  | [] => none

def argument (values : Mapping) (arg : String) : Except Abort Value :=
  match unquoted? arg with
  | some v => .ok v
  | none => do
    match ← number? arg with
    | some v => return v
    | none => if arg.isEmpty then return .null else return (← resolvePath arg values).getD .null

/-- Applies a helper; names that are none give null. -/
def helper (room : Nat) (name : String) (args : List Value) : Except Abort Value :=
  if name = "length" then .ok (.int ((args.head?.map Aggregate.length).getD 0))
  else if name = "sum" then Value.ofNumber <$> Aggregate.sum room args
  else if name = "count" then .ok (.int (Aggregate.count args))
  else if name = "sumLineTotal" then
    Value.ofNumber <$> ((args.head?.map (Aggregate.sumLineTotal room)).getD (.ok (.int 0)))
  else if name = "format" then
    match args with
    | v :: kind :: _ => Value.text <$> formatAsWithin room v kind
    | _ => .ok (.text "")
  else .ok .null

def helperNames : List String := ["length", "sum", "count", "sumLineTotal", "format"]

/-- What a token stands for; null when nothing matches. -/
def resolve (room : Nat) (settings : Settings) (token : String) (values : Mapping) :
    Except Abort Value :=
  if token.isEmpty then .ok .null
  else
    match if settings.templateFunctions then call? token else none with
    | some (name, body) =>
      if helperNames.contains name then do
        helper room name (← (splitArgs body).mapM (argument values))
      else .ok .null
    | none => return (← resolvePath token values).getD .null

def plural (n : Nat) (one many : String) : String :=
  Decimal.intText n ++ " " ++ if n = 1 then one else many

/-- A value as a template shows it. -/
def formatValueWithin (room : Nat) (settings : Settings) : Value → Except Abort String
  | .null => .ok settings.emptyPlaceholder
  | .bool b => .ok (if b then "Yes" else "No")
  | .list [] => .ok "None"
  | .list (.mapping first :: rest) =>
    .ok (plural (Value.mapping first :: rest).length "item" "items")
  | .list items => String.intercalate ", " <$> items.mapM (Value.shown room)
  | .mapping [] => .ok "Empty"
  | .mapping entries => .ok (plural entries.length "property" "properties")
  | v => v.shown room

def formatValue (settings : Settings) (v : Value) : Except Abort String :=
  formatValueWithin depthLimit settings v

def renderPiece (room : Nat) (settings : Settings) (values : Mapping) :
    Piece → Except Abort String
  | .literal c => .ok (String.singleton c)
  | .token body => do
    formatValueWithin room settings (← resolve room settings (String.ofList body) values)

/-- Replaces every token by the text of what it stands for. -/
def renderWithin (room : Nat) (settings : Settings) (text : String) (values : Mapping) :
    Except Abort String :=
  return String.join (← (pieces text).mapM (renderPiece room settings values))

def render (settings : Settings) (text : String) (values : Mapping) : Except Abort String :=
  renderWithin depthLimit settings text values

end LiveForm.Template
