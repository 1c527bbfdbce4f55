import LiveForm.Definition
import LiveForm.Proofs.Except
import LiveForm.Proofs.Mapping

/-! # The settings of a definition

A document that defines a form may also be read for settings alone. With a `settings` block both
readers validate that block, and with nothing in it both give the defaults. A form that says nothing
of settings is another matter: its definition has the defaults, but as settings the whole form is
validated, and its keys are those of no setting. -/

namespace LiveForm

open Schema (field? hasOnly)

namespace Table

variable {κ α : Type} [BEq κ]

/-- Writing keeps the keys that are there, in their order. -/
theorem keys_prefix_put (k : κ) (v : α) (es : List (κ × α)) :
    es.map (·.1) <+: (put k v es).map (·.1) := by
  induction es with
  | nil => exact List.nil_prefix
  | cons e rest ih =>
    obtain ⟨j, w⟩ := e
    rw [put]
    split
    · exact List.prefix_rfl
    · exact List.cons_prefix_cons.mpr ⟨rfl, ih⟩

end Table

namespace Schema

/-- Every key of a mapping with fixed fields is a field. -/
theorem mem_names_of_hasOnly {names : List String} {m : Mapping} (h : hasOnly names m) :
    ∀ k ∈ m.keys, ∃ x ∈ names, k = .text x := by
  intro k hk
  have hname := List.all_eq_true.mp h k hk
  cases k with
  | text x => exact ⟨x, List.contains_iff_mem.mp hname, rfl⟩
  | _ => cases hname

theorem hasTextKeys_of_names {names : List String} {m : Mapping}
    (h : ∀ k ∈ m.keys, ∃ x ∈ names, k = .text x) : hasTextKeys m = true := by
  refine List.all_eq_true.mpr fun k hk => ?_
  obtain ⟨x, -, rfl⟩ := h k hk
  rfl

end Schema

namespace Settings

theorem hasOnly_of_ofMapping? {m : Mapping} {s : Settings} (h : ofMapping? m = some s) :
    hasOnly names m = true := by
  rw [ofMapping?] at h
  split at h
  · assumption
  · cases h

/-- No setting is called what a part of a form is. -/
theorem disjoint_names : ∀ x ∈ Definition.names, x ∉ names := by decide

end Settings

namespace Definition

theorem listFields_eq_ok {m m' : Mapping} (h : listFields m = .ok m') :
    m' = m ∨ ∃ v, m' = m.insert (.text "fields") v := by
  rw [listFields] at h
  split at h
  · obtain ⟨items, -, h⟩ := bind_eq_ok h
    exact .inr ⟨_, (Except.ok.inj h).symm⟩
  · exact .inl (Except.ok.inj h).symm

/-- Listing the fields changes no other entry. -/
theorem get?_listFields {m m' : Mapping} (h : listFields m = .ok m') {x : String}
    (hx : x ≠ "fields") : m'.get? (.text x) = m.get? (.text x) := by
  obtain rfl | ⟨v, rfl⟩ := listFields_eq_ok h
  · rfl
  · exact lookup_text_put_of_ne _ _ _ fun heq => hx (Key.text.inj heq).symm

theorem keys_prefix_listFields {m m' : Mapping} (h : listFields m = .ok m') : m.keys <+: m'.keys := by
  obtain rfl | ⟨v, rfl⟩ := listFields_eq_ok h
  · exact List.prefix_rfl
  · exact Table.keys_prefix_put _ _ _

theorem ofMapping?_eq_some {path : String} {m : Mapping} {d : Definition}
    (h : ofMapping? path m = some d) :
    hasOnly names m = true ∧
    field? m "settings" {} (fun v => (Schema.mapping? v).bind Settings.ofMapping?) =
      some d.settings := by
  rw [ofMapping?] at h
  split at h
  · rename_i hnames
    obtain ⟨settings, hs, h⟩ := Option.bind_eq_some_iff.mp h
    obtain ⟨arrays, -, h⟩ := Option.bind_eq_some_iff.mp h
    obtain ⟨fields, -, h⟩ := Option.bind_eq_some_iff.mp h
    obtain ⟨templates, -, h⟩ := Option.bind_eq_some_iff.mp h
    obtain ⟨values, -, h⟩ := Option.bind_eq_some_iff.mp h
    obtain ⟨cases, -, h⟩ := Option.bind_eq_some_iff.mp h
    rw [← Option.some.inj h]
    exact ⟨hnames, hs⟩
  · cases h

section Reading

variable {path : String} {document : Value} {entries : List (Key × Value)} {d : Definition}

theorem ofDocument_mapping : ofDocument path (.mapping entries) =
    if !hasTextKeys ⟨entries⟩ || (⟨entries⟩ : Mapping).contains (.text "path") then
      .error (.abort .mismatch)
    else listFields ⟨entries⟩ >>= fun m => orInvalid (ofMapping? path m) := rfl

/-- Nothing stands for an empty form. -/
theorem eq_mapping_of_ofDocument (h : ofDocument path document = .ok d) :
    ∃ entries, ofDocument path (.mapping entries) = .ok d ∧
      (document = .mapping entries ∨ document = .null ∧ entries = []) := by
  cases document with
  | null => exact ⟨[], h, .inr ⟨rfl, rfl⟩⟩
  | mapping entries => exact ⟨entries, h, .inl rfl⟩
  | _ => cases h

/-- An accepted form has the keys of a form only. In its `settings` block, if there is one, stand the
settings of the definition. -/
theorem ofDocument_eq_ok (h : ofDocument path (.mapping entries) = .ok d) :
    (∀ k ∈ (⟨entries⟩ : Mapping).keys, ∃ x ∈ names, k = .text x) ∧
    ((entries.lookup (.text "settings") = none ∧ d.settings = {}) ∨
      ∃ block, entries.lookup (.text "settings") = some (.mapping block) ∧
        Settings.ofMapping? ⟨block⟩ = some d.settings) := by
  rw [ofDocument_mapping] at h
  split at h
  · cases h
  obtain ⟨m, hm, h⟩ := bind_eq_ok h
  have hd : ofMapping? path m = some d := by
    cases hread : ofMapping? path m with
    | none => rw [hread] at h; cases h
    | some d' => rw [hread] at h; rw [Except.ok.inj h]
  obtain ⟨hnames, hsettings⟩ := ofMapping?_eq_some hd
  constructor
  · intro k hk
    exact Schema.mem_names_of_hasOnly hnames k ((keys_prefix_listFields hm).subset hk)
  · rw [field?, get?_listFields hm (by decide)] at hsettings
    split at hsettings
    · rename_i v hv
      obtain ⟨m, hs, hread⟩ := Option.bind_eq_some_iff.mp hsettings
      cases v with
      | mapping block =>
        obtain rfl := Option.some.inj hs
        exact .inr ⟨block, hv, hread⟩
      | _ => cases hs
    · rename_i hnone
      exact .inl ⟨hnone, (Option.some.inj hsettings).symm⟩

end Reading

end Definition

/-- A form that has something to say, but not of settings. -/
def Value.LacksSettings : Value → Prop
  | .mapping entries => entries ≠ [] ∧ entries.lookup (.text "settings") = none
  | _ => False

namespace Settings

/-- The mapping that is validated: the `settings` block, if there is one, or else the whole. -/
def validated (m : Mapping) : Mapping :=
  match m.get? (.text "settings") with
  | some (.mapping entries) => ⟨entries⟩
  | _ => m

section Reading

variable {origin : String} {entries : List (Key × Value)}

theorem ofDocument_validated : ofDocument origin (.mapping entries) =
    if hasTextKeys (validated ⟨entries⟩) then orInvalid (ofMapping? (validated ⟨entries⟩))
    else .error (.abort .mismatch) := by
  cases entries <;> rfl

theorem ofDocument_of_block {block : List (Key × Value)} {s : Settings}
    (h : entries.lookup (.text "settings") = some (.mapping block))
    (hs : ofMapping? ⟨block⟩ = some s) : ofDocument origin (.mapping entries) = .ok s := by
  have hvalidated : validated ⟨entries⟩ = ⟨block⟩ := by rw [validated, Table.get?, h]
  have htext := Schema.hasTextKeys_of_names
    (Schema.mem_names_of_hasOnly (hasOnly_of_ofMapping? hs))
  rw [ofDocument_validated, hvalidated, if_pos htext, hs]
  rfl

theorem ofDocument_of_whole (h : entries.lookup (.text "settings") = none)
    (htext : hasTextKeys ⟨entries⟩ = true) :
    ofDocument origin (.mapping entries) = orInvalid (ofMapping? ⟨entries⟩) := by
  have hvalidated : validated ⟨entries⟩ = ⟨entries⟩ := by rw [validated, Table.get?, h]
  rw [ofDocument_validated, hvalidated, if_pos htext]

end Reading

/-- No key of a form is the name of a setting, and the first one is enough to refuse a form. -/
theorem ofMapping?_of_form {e : Key × Value} {rest : List (Key × Value)}
    (h : ∀ k ∈ (⟨e :: rest⟩ : Mapping).keys, ∃ x ∈ Definition.names, k = .text x) :
    ofMapping? ⟨e :: rest⟩ = none := by
  refine if_neg fun hnames => ?_
  have hmem : e.1 ∈ (⟨e :: rest⟩ : Mapping).keys := List.mem_cons_self
  obtain ⟨x, hx, hform⟩ := h e.1 hmem
  obtain ⟨y, hy, hsetting⟩ := Schema.mem_names_of_hasOnly hnames e.1 hmem
  obtain rfl : x = y := Key.text.inj (hform.symm.trans hsetting)
  exact disjoint_names x hx hy

end Settings

/-- The settings that a document is read for are those of the form that it defines, unless the form
is silent on settings: then the definition has the defaults, and the document is refused as
settings. -/
theorem Definition.settings_read_iff {path : String} {document : Value} {d : Definition}
    (h : Definition.ofDocument path document = .ok d) (origin : String) :
    (Settings.ofDocument origin document = .ok d.settings ↔ ¬document.LacksSettings) ∧
    (document.LacksSettings →
      d.settings = {} ∧ Settings.ofDocument origin document = .error .invalid) := by
  obtain ⟨entries, h, hdocument⟩ := Definition.eq_mapping_of_ofDocument h
  obtain ⟨hkeys, hsettings⟩ := Definition.ofDocument_eq_ok h
  cases entries with
  | nil =>
    have hdefaults : d.settings = {} := by
      obtain ⟨-, hd⟩ | ⟨block, hblock, -⟩ := hsettings
      · exact hd
      · cases hblock
    have hread : Settings.ofDocument origin document = .ok d.settings := by
      rw [hdefaults]
      rcases hdocument with rfl | ⟨rfl, -⟩ <;> rfl
    have hsays : ¬document.LacksSettings := by
      rcases hdocument with rfl | ⟨rfl, -⟩
      · exact fun hlacks => hlacks.1 rfl
      · exact id
    exact ⟨iff_of_true hread hsays, fun hlacks => absurd hlacks hsays⟩
  | cons e rest =>
    obtain rfl : document = .mapping (e :: rest) := hdocument.resolve_right nofun
    obtain ⟨hnone, hdefaults⟩ | ⟨block, hblock, hread⟩ := hsettings
    · have hlacks : (Value.mapping (e :: rest)).LacksSettings := ⟨nofun, hnone⟩
      have hrefused : Settings.ofDocument origin (.mapping (e :: rest)) = .error .invalid := by
        rw [Settings.ofDocument_of_whole hnone (Schema.hasTextKeys_of_names hkeys),
          Settings.ofMapping?_of_form hkeys]
        rfl
      exact ⟨iff_of_false (by rw [hrefused]; nofun) (not_not_intro hlacks),
        fun _ => ⟨hdefaults, hrefused⟩⟩
    · have hsays : ¬(Value.mapping (e :: rest)).LacksSettings := by
        intro hlacks
        rw [Value.LacksSettings, hblock] at hlacks
        cases hlacks.2
      exact ⟨iff_of_true (Settings.ofDocument_of_block hblock hread) hsays,
        fun hlacks => absurd hlacks hsays⟩

/-- A form without fields whose settings name a placeholder. -/
def quietForm : Value :=
  .mapping [(.text "settings", .mapping [(.text "empty_placeholder", .text "none")]),
    (.text "fields", .list [])]

theorem Definition.settings_read_iff_quiet : ∃ d, Definition.ofDocument "" quietForm = .ok d ∧
    d.settings = { emptyPlaceholder := "none" } ∧
    Settings.ofDocument "form.yaml" quietForm = .ok d.settings := by
  have h : Definition.ofDocument "" quietForm =
      .ok { settings := { emptyPlaceholder := "none" } } := rfl
  refine ⟨_, h, rfl, (Definition.settings_read_iff h "form.yaml").1.mpr fun hlacks => ?_⟩
  cases hlacks.2

/-- A form with nothing but a list of fields is silent on settings. -/
theorem Definition.settings_unread :
    (Definition.ofDocument "" (.mapping [(.text "fields", .list [])]) = .ok {} ∧
      Settings.ofDocument "form.yaml" (.mapping [(.text "fields", .list [])]) = .error .invalid) ∧
    ¬∀ path origin document d, Definition.ofDocument path document = .ok d →
      Settings.ofDocument origin document = .ok d.settings := by
  have hform : Definition.ofDocument "" (.mapping [(.text "fields", .list [])]) = .ok {} := rfl
  have hsettings : Settings.ofDocument "form.yaml" (.mapping [(.text "fields", .list [])]) =
    .error .invalid := rfl
  refine ⟨⟨hform, hsettings⟩, fun hall => ?_⟩
  rw [hall _ _ _ _ hform] at hsettings
  cases hsettings

end LiveForm
