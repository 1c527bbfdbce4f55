import LiveForm.Proofs.Aggregate
import LiveForm.Proofs.Template.Pieces
import LiveForm.Proofs.Template.Walking

/-! # When a text can be rendered

A token that resolves to nothing has the placeholder. A text is rendered unless one of its tokens breaks:
on a path that goes into a list with what is no index, on a number with too many digits, in a helper
that has no number to add up or to format, or on a value that cannot be written, be it for a number in
it or for want of room. -/

namespace LiveForm.Template

open Text
open Aggregate (SumFails LineTotalFails)

/-- A whole number with too many digits, as an argument of a helper. -/
def IsLongNumber (arg : String) : Prop :=
  (∀ c ∈ (Numeral.takeSign arg.toList).2, isDecimal c) ∧
    digitLimit < (Numeral.takeSign arg.toList).2.length

/-- An argument that is a number with too many digits, or a path that breaks. -/
def ArgumentBreaks (m : Mapping) (arg : String) : Prop :=
  (unquoted? arg = none ∧ IsLongNumber arg) ∨ (isPath arg ∧ PathBreaks m arg)

/-- The formats that show a value as a number. -/
def numberFormats : List (List Char) := ["currency".toList, "number".toList, "percent".toList]

/-- A value cannot be formatted: it has no number for a name, not enough room for a name that is no
format of numbers, or no text for what is no name. -/
def FormatFails (room : Nat) : Value → Value → Prop
  | v, .text name => v.HasNoNumber room ∨
      Text.lower name.toList ∉ numberFormats ∧ room < v.displayNesting
  | v, _ => ¬(v.isWritable ∧ v.displayNesting ≤ room)

/-- A helper fails on its arguments. -/
def HelperFails (room : Nat) (name : String) (args : List Value) : Prop :=
  (name = "sum" ∧ SumFails room args) ∨
    (name = "sumLineTotal" ∧ ∃ rows ∈ args.head?, LineTotalFails room rows) ∨
    (name = "format" ∧ ∃ v kind rest, args = v :: kind :: rest ∧ FormatFails room v kind)

/-- A value whose display text has a number with too many digits, or lists without the room for them. -/
def DisplayFails (room : Nat) : Value → Prop
  | .int n => ¬LiveForm.isWritable n
  | .list (.mapping _ :: _) => False
  | .list items => ∃ v ∈ items, ¬(v.isWritable ∧ v.displayNesting ≤ room)
  | _ => False

/-- The call that a token is, where the settings allow helpers. -/
def called? (settings : Settings) (token : String) : Option (String × List Char) :=
  if settings.templateFunctions then call? token else none

/-- A token has no text to be shown. -/
inductive Breaks (room : Nat) (settings : Settings) (m : Mapping) (token : String) : Prop
  | path (hcall : called? settings token = none) (h : PathBreaks m token)
  | argument {name : String} {body : List Char} {arg : String}
      (hcall : called? settings token = some (name, body)) (hname : name ∈ helperNames)
      (harg : arg ∈ splitArgs body) (h : ArgumentBreaks m arg)
  | helper {name : String} {body : List Char} {args : List Value}
      (hcall : called? settings token = some (name, body)) (hname : name ∈ helperNames)
      (hargs : (splitArgs body).mapM (argument m) = .ok args) (h : HelperFails room name args)
  | display {v : Value} (hv : resolve room settings token m = .ok v) (h : DisplayFails room v)

/-- A token resolves to nothing: it is a path that is lost, or calls what is no helper. -/
inductive IsUnresolved (settings : Settings) (m : Mapping) (token : String) : Prop
  | path (hcall : called? settings token = none) (h : PathIsLost m token)
  | helper {name : String} {body : List Char} (hcall : called? settings token = some (name, body))
      (hname : name ∉ helperNames)

section Arguments

variable {arg : String} {m : Mapping} {c : Abort}

theorem number?_eq_error : number? arg = .error c ↔ c = .domain ∧ IsLongNumber arg := by
  unfold number? IsLongNumber
  dsimp only
  generalize (Numeral.takeSign arg.toList).2 = unsigned
  rw [← List.dropWhile_eq_nil_iff]
  split
  · -- Digits alone are read as a whole number, of which there may be too many.
    rename_i hnil
    have hwhole : unsigned.takeWhile isDecimal = unsigned := by
      have hsplit := List.takeWhile_append_dropWhile (p := isDecimal) (l := unsigned)
      rwa [hnil, List.append_nil] at hsplit
    rw [and_iff_right hnil, hwhole]
    split
    · rename_i hempty
      rw [List.isEmpty_iff.mp hempty]
      exact iff_of_false (fun h => (by cases h)) fun h => absurd h.2 (Nat.not_lt_zero _)
    · rw [return_eq_error, whole_eq_error]
  · -- With a point they are a double, or nothing, but never too long.
    rename_i fraction hpoint
    rw [hpoint]
    split <;> exact iff_of_false (fun h => (by cases h)) fun h => (by cases h.2.1)
  · rename_i hne _
    exact iff_of_false (fun h => (by cases h)) fun h => hne h.2.1

theorem exists_argument_iff : (∃ v, argument m arg = .ok v) ↔ ¬ArgumentBreaks m arg := by
  have hlong : IsLongNumber arg ↔ number? arg = .error .domain := by
    rw [number?_eq_error, and_iff_right rfl]
  unfold argument ArgumentBreaks isPath
  rw [hlong]
  cases unquoted? arg with
  | some v => exact iff_of_true ⟨v, rfl⟩ (by simp)
  | none =>
    cases hnumber : number? arg with
    | error c =>
      obtain ⟨rfl, -⟩ := number?_eq_error.mp hnumber
      exact iff_of_false (fun ⟨_, h⟩ => (by cases h)) (by simp)
    | ok v? =>
      cases v? with
      | some v => exact iff_of_true ⟨v, rfl⟩ (by simp)
      | none =>
        cases arg.isEmpty with
        | true => exact iff_of_true ⟨.null, rfl⟩ (by simp)
        | false =>
          have hpath : (∃ v, (do return (← resolvePath arg m).getD .null) = Except.ok v) ↔
            ¬PathBreaks m arg := exists_return_iff.trans exists_resolvePath_iff
          exact hpath.trans (by simp)

end Arguments

section Helpers

variable {room : Nat} {v kind : Value} {name : String} {args : List Value} {settings : Settings}

theorem exists_toFloat_abs {n : Number} (h : ¬n.IsBeyond) : ∃ x, n.abs.toFloat = .ok x := by
  refine Number.exists_toFloat_iff.mpr ?_
  cases n with
  | float x => exact h
  | int a =>
    rw [Number.IsBeyond, Binary.natAbs_nearestInt] at h
    rw [Number.abs, Number.IsBeyond, Binary.natAbs_nearestInt, Int.natAbs_natCast]
    exact h

theorem exists_formatAsWithin_iff :
    (∃ s, formatAsWithin room v kind = .ok s) ↔ ¬FormatFails room v kind := by
  cases kind with
  | text name =>
    rw [FormatFails, not_or, ← Value.exists_toNumber_iff, formatAsWithin, exists_bind_iff,
      ← exists_and_right]
    refine exists_congr fun n => and_congr_right fun hn => ?_
    have hnear := Value.not_isBeyond_of_toNumber hn
    have hgrouped (places : Nat) : ∃ cs, grouped n places = .ok cs :=
      exists_return_iff.mpr (Number.exists_toFloat_iff.mpr hnear)
    have hcurrency : ∃ cs, currency n = .ok cs := exists_return_iff.mpr (exists_toFloat_abs hnear)
    have hwritable := Value.isWritable_of_not_hasNoNumber (Value.exists_toNumber_iff.mp ⟨n, hn⟩)
    have hnamed {p : Prop} (hp : p) (hmem : Text.lower name.toList ∈ numberFormats) :
        p ↔ ¬(Text.lower name.toList ∉ numberFormats ∧ room < v.displayNesting) :=
      iff_of_true hp fun h => h.1 hmem
    dsimp only
    split
    · rename_i hformat
      exact hnamed (exists_return_iff.mpr hcurrency) (by simp [numberFormats, hformat])
    split
    · rename_i hformat
      exact hnamed (exists_return_iff.mpr (hgrouped 3)) (by simp [numberFormats, hformat])
    split
    · rename_i hformat
      exact hnamed (exists_return_iff.mpr (hgrouped 2)) (by simp [numberFormats, hformat])
    · rename_i hcurrency hnumber hpercent
      have hother : Text.lower name.toList ∉ numberFormats := by
        simp only [numberFormats, List.mem_cons, List.not_mem_nil, or_false, not_or]
        exact ⟨hcurrency, hnumber, hpercent⟩
      rw [Value.exists_shown_iff, and_iff_right hwritable, and_iff_right hother, Nat.not_lt]
  | _ => exact Value.exists_shown_iff.trans not_not.symm

theorem exists_helper_iff : (∃ v, helper room name args = .ok v) ↔ ¬HelperFails room name args := by
  unfold helper HelperFails
  split
  · rename_i hname
    exact iff_of_true ⟨_, rfl⟩ (by simp [hname])
  split
  · rename_i hname
    rw [exists_map_iff, Aggregate.exists_sum_iff]
    simp [hname]
  split
  · rename_i hname
    exact iff_of_true ⟨_, rfl⟩ (by simp [hname])
  split
  · rename_i hname
    rw [exists_map_iff]
    cases args with
    | nil => exact iff_of_true ⟨.int 0, rfl⟩ (by simp [hname])
    | cons rows rest =>
      refine (Aggregate.exists_sumLineTotal_iff rows).trans ?_
      simp [hname]
  split
  · rename_i hname
    split
    · rw [exists_map_iff, exists_formatAsWithin_iff]
      simp [hname]
    · rename_i hfew
      refine iff_of_true ⟨_, rfl⟩ ?_
      simpa [hname] using fun v kind rest heq => absurd heq (hfew v kind rest)
  · rename_i hsum _ hrows hformat
    exact iff_of_true ⟨_, rfl⟩ (by simp [hsum, hrows, hformat])

theorem exists_formatValueWithin_iff :
    (∃ s, formatValueWithin room settings v = .ok s) ↔ ¬DisplayFails room v := by
  cases v with
  | list items =>
    cases items with
    | nil => exact iff_of_true ⟨_, rfl⟩ fun ⟨_, h, _⟩ => (by cases h)
    | cons first rest =>
      have hitems : (∃ s, String.intercalate ", " <$> (first :: rest).mapM (Value.shown room) = .ok s) ↔
          ¬∃ v ∈ first :: rest, ¬(v.isWritable ∧ v.displayNesting ≤ room) := by
        rw [exists_map_iff, exists_mapM_iff]
        simp only [Value.exists_shown_iff]
        push Not
        rfl
      cases first with
      | mapping entries => exact iff_of_true ⟨_, rfl⟩ id
      | _ => exact hitems
  | mapping entries => cases entries <;> exact iff_of_true ⟨_, rfl⟩ id
  | null => exact iff_of_true ⟨_, rfl⟩ id
  | bool b => exact iff_of_true ⟨_, rfl⟩ id
  | int n => exact Value.exists_shown_iff.trans ((and_iff_left (Nat.zero_le _)).trans not_not.symm)
  | _ => exact Value.exists_shown_iff.trans (iff_of_true ⟨rfl, Nat.zero_le _⟩ id)

end Helpers

section Tokens

variable {room : Nat} {settings : Settings} {m : Mapping} {token name : String} {body : List Char}

theorem resolve_of_path (hne : token ≠ "") (hcall : called? settings token = none) :
    resolve room settings token m = do return (← resolvePath token m).getD .null := by
  unfold resolve
  unfold called? at hcall
  rw [if_neg (mt String.isEmpty_iff.mp hne), hcall]

theorem resolve_of_call (hne : token ≠ "") (hcall : called? settings token = some (name, body)) :
    resolve room settings token m = if helperNames.contains name then do
      helper room name (← (splitArgs body).mapM (argument m)) else .ok .null := by
  unfold resolve
  unfold called? at hcall
  rw [if_neg (mt String.isEmpty_iff.mp hne), hcall]

theorem resolve_of_helper (hne : token ≠ "") (hcall : called? settings token = some (name, body))
    (hname : name ∈ helperNames) :
    resolve room settings token m = (splitArgs body).mapM (argument m) >>= helper room name := by
  rw [resolve_of_call hne hcall, if_pos (List.contains_iff_mem.mpr hname)]

theorem resolve_of_unknown (hne : token ≠ "") (hcall : called? settings token = some (name, body))
    (hname : name ∉ helperNames) : resolve room settings token m = .ok .null := by
  rw [resolve_of_call hne hcall, if_neg (mt List.contains_iff_mem.mp hname)]

theorem displayWithin_of_isUnresolved (hne : token ≠ "") (h : IsUnresolved settings m token) :
    displayWithin room settings m token = .ok settings.emptyPlaceholder := by
  unfold displayWithin
  cases h with
  | path hcall h =>
    rw [resolve_of_path hne hcall, resolvePath_eq_none.mpr h]
    rfl
  | helper hcall hname =>
    rw [resolve_of_unknown hne hcall hname]
    rfl

theorem exists_resolve (hne : token ≠ "") (h : ¬Breaks room settings m token) :
    ∃ v, resolve room settings token m = .ok v := by
  cases hcall : called? settings token with
  | none =>
    rw [resolve_of_path hne hcall]
    exact exists_return_iff.mpr (exists_resolvePath_iff.mpr fun hbreaks => h (.path hcall hbreaks))
  | some call =>
    obtain ⟨name, body⟩ := call
    by_cases hname : name ∈ helperNames
    · -- The arguments come first: a helper is only called when each of them stands for a value.
      obtain ⟨args, hargs⟩ : ∃ args, (splitArgs body).mapM (argument m) = .ok args :=
        exists_mapM_iff.mpr fun arg harg => exists_argument_iff.mpr fun hbreaks =>
          h (.argument hcall hname harg hbreaks)
      rw [resolve_of_helper hne hcall hname, hargs]
      exact exists_helper_iff.mpr fun hfails => h (.helper hcall hname hargs hfails)
    · exact ⟨.null, resolve_of_unknown hne hcall hname⟩

/-- A token has a display text unless it breaks. -/
theorem exists_displayWithin_iff (hne : token ≠ "") :
    (∃ s, displayWithin room settings m token = .ok s) ↔ ¬Breaks room settings m token := by
  rw [displayWithin, exists_bind_iff]
  constructor
  · intro ⟨v, hv, hshown⟩ hbreaks
    cases hbreaks with
    | path hcall h =>
      rw [resolve_of_path hne hcall] at hv
      exact exists_resolvePath_iff.mp (exists_return_iff.mp ⟨v, hv⟩) h
    | argument hcall hname harg h =>
      rw [resolve_of_helper hne hcall hname] at hv
      obtain ⟨args, hargs, -⟩ := bind_eq_ok hv
      exact exists_argument_iff.mp (exists_mapM_iff.mp ⟨args, hargs⟩ _ harg) h
    | helper hcall hname hargs h =>
      rw [resolve_of_helper hne hcall hname, hargs] at hv
      exact exists_helper_iff.mp ⟨v, hv⟩ h
    | display hw h =>
      obtain rfl := Except.ok.inj (hv.symm.trans hw)
      exact exists_formatValueWithin_iff.mp hshown h
  · intro h
    obtain ⟨v, hv⟩ := exists_resolve hne h
    exact ⟨v, hv, exists_formatValueWithin_iff.mpr fun hfails => h (.display hv hfails)⟩

end Tokens

section Texts

variable {room : Nat} {settings : Settings} {m : Mapping} {text : String}

/-- What a token is shown as, where it has a display text. -/
def shownText (room : Nat) (settings : Settings) (m : Mapping) (token : String) : String :=
  (displayWithin room settings m token).toOption.getD ""

theorem displayWithin_eq_shownText {token : String} (ht : token ∈ tokens text)
    (h : ¬Breaks room settings m token) :
    displayWithin room settings m token = .ok (shownText room settings m token) := by
  obtain ⟨s, hs⟩ := (exists_displayWithin_iff (mem_tokens.mp ht).1).mpr h
  rw [shownText, hs]
  rfl

theorem exists_renderWithin_iff :
    (∃ s, renderWithin room settings text m = .ok s) ↔
      ∀ t ∈ tokens text, ¬Breaks room settings m t := by
  constructor
  · intro ⟨s, hs⟩ t ht
    obtain ⟨hne, body, hmem, rfl⟩ := mem_tokens.mp ht
    obtain ⟨parts, hparts⟩ : ∃ parts, (pieces text).mapM (renderPiece room settings m) = .ok parts :=
      exists_return_iff.mp ⟨s, hs⟩
    exact (exists_displayWithin_iff hne).mp (exists_mapM_iff.mp ⟨parts, hparts⟩ _ hmem)
  · intro h
    exact ⟨_, renderWithin_eq_filled fun t ht => displayWithin_eq_shownText ht (h t ht)⟩

end Texts

/-- **A text is rendered unless one of its tokens breaks.** Each token is then shown as its display text.
A token that resolves to nothing does not break, and is shown as the placeholder. -/
theorem render_answers_iff (room : Nat) (settings : Settings) (text : String) (m : Mapping) :
    ((∃ s, renderWithin room settings text m = .ok s) ↔ ∀ t ∈ tokens text, ¬Breaks room settings m t) ∧
    (∀ t ∈ tokens text, IsUnresolved settings m t → ¬Breaks room settings m t ∧
      displayWithin room settings m t = .ok settings.emptyPlaceholder) ∧
    ∀ s, renderWithin room settings text m = .ok s → ∃ shown : String → String,
      (∀ t ∈ tokens text, displayWithin room settings m t = .ok (shown t)) ∧
      s = String.join ((pieces text).map (Piece.filled settings shown)) := by
  refine ⟨exists_renderWithin_iff, fun t ht hnothing => ?_, fun s hs => ?_⟩
  · have hne := (mem_tokens.mp ht).1
    have hplaceholder : displayWithin room settings m t = .ok settings.emptyPlaceholder :=
      displayWithin_of_isUnresolved hne hnothing
    exact ⟨(exists_displayWithin_iff hne).mp ⟨_, hplaceholder⟩, hplaceholder⟩
  · have hshown : ∀ t ∈ tokens text,
        displayWithin room settings m t = .ok (shownText room settings m t) := fun t ht =>
      displayWithin_eq_shownText ht (exists_renderWithin_iff.mp ⟨s, hs⟩ t ht)
    exact ⟨_, hshown, Except.ok.inj (hs.symm.trans (renderWithin_eq_filled hshown))⟩

/-- A path to a value, a path to nothing, and a helper that is none. -/
def partlyKnown : String :=
  "\x7b\x7ba\x7d\x7d, \x7b\x7bb\x7d\x7d and \x7b\x7bf(a)\x7d\x7d"

def onlyTwo : Mapping := ⟨[(.text "a", .int 2)]⟩

theorem render_answers_iff_partlyKnown :
    (∀ t ∈ tokens partlyKnown, ¬Breaks depthLimit {} onlyTwo t) ∧
      display {} onlyTwo "b" = .ok "-" ∧ display {} onlyTwo "f(a)" = .ok "-" ∧
      ∃ shown : String → String, (∀ t ∈ tokens partlyKnown, display {} onlyTwo t = .ok (shown t)) ∧
        "2, - and -" = String.join ((pieces partlyKnown).map (Piece.filled {} shown)) := by
  obtain ⟨hanswers, hplaceholder, hshown⟩ := render_answers_iff depthLimit {} partlyKnown onlyTwo
  have hrender : render {} partlyKnown onlyTwo = .ok "2, - and -" := by decide +kernel
  have hlost : IsUnresolved {} onlyTwo "b" := .path rfl (resolvePath_eq_none.mp rfl)
  have hunknown : IsUnresolved {} onlyTwo "f(a)" := .helper rfl (by decide)
  have htokens : tokens partlyKnown = ["a", "b", "f(a)"] := rfl
  have hb : "b" ∈ tokens partlyKnown := htokens ▸ .tail _ (.head _)
  have hf : "f(a)" ∈ tokens partlyKnown := htokens ▸ .tail _ (.tail _ (.head _))
  exact ⟨hanswers.mp ⟨_, hrender⟩, (hplaceholder "b" hb hlost).2, (hplaceholder "f(a)" hf hunknown).2,
    hshown _ hrender⟩

/-- A superscript two is a digit, and no index. -/
def raisedIndex : String := "\x7b\x7ba[²]\x7d\x7d"

theorem render_not_total :
    render {} raisedIndex ⟨[(.text "a", .list [.int 1])]⟩ = .error .domain ∧
      ¬∀ settings text m, ∃ s, render settings text m = .ok s := by
  have herror : render {} raisedIndex ⟨[(.text "a", .list [.int 1])]⟩ = .error .domain := rfl
  refine ⟨herror, fun hall => ?_⟩
  obtain ⟨s, hs⟩ := hall {} raisedIndex ⟨[(.text "a", .list [.int 1])]⟩
  cases hs.symm.trans herror

end LiveForm.Template
