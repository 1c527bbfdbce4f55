import LiveForm.Proofs.Json.Leaves
import LiveForm.Proofs.Json.Order
import LiveForm.Proofs.Value.Text
import Mathlib.Data.Set.Function
import Mathlib.Data.String.Basic

/-! # JSON trees

Two trees are the same if they agree in every leaf, kinds of numbers included, and in the order of
lists, but not in the order of mappings. A writer that sorts keys writes the same text for them, and
only for them. -/

namespace LiveForm.Json

/-- Entries whose keys are texts. -/
def TextKeys {α : Type} (entries : List (Key × α)) : Prop := ∀ e ∈ entries, ∃ s, e.1 = .text s

/-- A value that JSON has: keys of mappings are texts, and no two of them are the same. Its doubles are
among `D`. -/
inductive IsTree (D : Set Float) : Value → Prop
  | null : IsTree D .null
  | bool (b : Bool) : IsTree D (.bool b)
  | int (n : Int) : IsTree D (.int n)
  | float {x : Float} (h : x ∈ D) : IsTree D (.float x)
  | undefined (origin : Origin) : IsTree D (.undefined origin)
  | text (s : String) : IsTree D (.text s)
  | list {items : List Value} (h : ∀ v ∈ items, IsTree D v) : IsTree D (.list items)
  | mapping {entries : List (Key × Value)} (hkeys : (entries.map Prod.fst).Nodup)
      (htext : TextKeys entries) (h : ∀ e ∈ entries, IsTree D e.2) :
      IsTree D (.mapping entries)

/-- Trees that agree up to the order of mappings. The undefined number is one leaf. -/
inductive SameTree : Value → Value → Prop
  | null : SameTree .null .null
  | bool (b : Bool) : SameTree (.bool b) (.bool b)
  | int (n : Int) : SameTree (.int n) (.int n)
  | float (x : Float) : SameTree (.float x) (.float x)
  | undefined {v w : Value} (hv : isUndefined v = true) (hw : isUndefined w = true) : SameTree v w
  | text (s : String) : SameTree (.text s) (.text s)
  | list {xs ys : List Value} (hlen : xs.length = ys.length)
      (h : ∀ (i : Nat) (v w : Value), xs[i]? = some v → ys[i]? = some w → SameTree v w) :
      SameTree (.list xs) (.list ys)
  | mapping {xs ys : List (Key × Value)} (hkeys : ∀ k, k ∈ xs.map Prod.fst ↔ k ∈ ys.map Prod.fst)
      (h : ∀ (k : Key) (v w : Value), (k, v) ∈ xs → (k, w) ∈ ys → SameTree v w) :
      SameTree (.mapping xs) (.mapping ys)

theorem IsTree.of_float {D : Set Float} {x : Float} (h : IsTree D (.float x)) : x ∈ D := by
  cases h with
  | float h => exact h

theorem IsTree.of_list {D : Set Float} {items : List Value} (h : IsTree D (.list items)) :
    ∀ v ∈ items, IsTree D v := by
  cases h with
  | list h => exact h

theorem IsTree.of_mapping {D : Set Float} {entries : List (Key × Value)}
    (h : IsTree D (.mapping entries)) :
    (entries.map Prod.fst).Nodup ∧ TextKeys entries ∧ ∀ e ∈ entries, IsTree D e.2 := by
  cases h with
  | mapping hkeys htext h => exact ⟨hkeys, htext, h⟩

theorem SameTree.of_mapping {xs ys : List (Key × Value)}
    (h : SameTree (.mapping xs) (.mapping ys)) (k : Key) (v w : Value) (hv : (k, v) ∈ xs)
    (hw : (k, w) ∈ ys) : SameTree v w := by
  cases h with
  | undefined hv _ => cases hv
  | mapping hkeys h => exact h k v w hv hw

theorem SameTree.refl {D : Set Float} {v : Value} (h : IsTree D v) : SameTree v v := by
  induction h with
  | null => exact .null
  | bool b => exact .bool b
  | int n => exact .int n
  | float h => exact .float _
  | undefined origin => exact .undefined rfl rfl
  | text s => exact .text s
  | list h ih =>
    refine .list rfl fun i v w hv hw => ?_
    obtain rfl := Option.some.inj (hv.symm.trans hw)
    exact ih v (List.mem_of_getElem? hv)
  | mapping hkeys htext h ih =>
    refine .mapping (fun _ => Iff.rfl) fun k v w hv hw => ?_
    obtain rfl : v = w := congrArg Prod.snd (List.inj_on_of_nodup_map hkeys hv hw rfl)
    exact ih _ hv

/-- Entries in another order make the same tree. -/
theorem SameTree.of_perm {D : Set Float} {xs ys : List (Key × Value)}
    (h : IsTree D (.mapping xs)) (hp : ys.Perm xs) : SameTree (.mapping xs) (.mapping ys) := by
  obtain ⟨hkeys, -, hx⟩ := h.of_mapping
  refine .mapping (fun k => ((hp.map Prod.fst).mem_iff).symm) fun k v w hv hw => ?_
  obtain rfl : v = w :=
    congrArg Prod.snd (List.inj_on_of_nodup_map hkeys hv (hp.subset hw) rfl)
  exact .refl (hx _ hv)

/-! ## Parts at one depth -/

theorem renderItems_eq (room d : Nat) (items : List Value) :
    renderItems room compact d items = (items.map (render room compact 0)).mapM id := by
  induction items with
  | nil => rw [renderItems]; rfl
  | cons v rest ih =>
    rw [renderItems, ih, render_depth room d 0 v, List.map_cons, List.mapM_cons]
    rfl

/-- The members of a mapping before they are sorted. -/
def partsOf (room : Nat) (entries : List (Key × Value)) : List (Key × Except Abort String) :=
  entries.map fun e => (e.1, render room compact 0 e.2)

theorem renderEntries_eq_partsOf (room d : Nat) (entries : List (Key × Value)) :
    renderEntries room compact d entries = partsOf room entries := by
  rw [renderEntries_eq]
  exact List.map_congr_left fun e _ => by rw [render_depth room d 0]

theorem mem_partsOf {room : Nat} {entries : List (Key × Value)} {k : Key}
    {r : Except Abort String} : (k, r) ∈ partsOf room entries ↔
      ∃ v, (k, v) ∈ entries ∧ r = render room compact 0 v := by
  simp only [partsOf, List.mem_map, Prod.mk.injEq, Prod.exists]
  constructor
  · rintro ⟨k, v, hm, rfl, rfl⟩
    exact ⟨v, hm, rfl⟩
  · rintro ⟨v, hm, rfl⟩
    exact ⟨k, v, hm, rfl, rfl⟩

theorem keys_partsOf (room : Nat) (entries : List (Key × Value)) :
    (partsOf room entries).map Prod.fst = entries.map Prod.fst := by
  rw [partsOf, List.map_map]
  rfl

/-! ## Sorting texts -/

section Sorting

variable {α : Type} {entries entries' : List (Key × α)}

theorem sortEntries_eq (h : TextKeys entries) :
    sortEntries entries = .ok (inOrder (fun e f => keyBefore e.1 f.1) entries) := by
  unfold sortEntries
  cases entries with
  | nil => rfl
  | cons e rest =>
    obtain ⟨s, hs⟩ := h e List.mem_cons_self
    refine if_pos (List.all_eq_true.mpr fun f hf => ?_)
    obtain ⟨t, ht⟩ := h f (List.mem_cons_of_mem _ hf)
    rw [hs, ht]
    rfl

theorem compares_textKeys (h : TextKeys entries) :
    Compares (fun e f => keyBefore e.1 f.1) (fun e => e.1.text?.getD "") entries := by
  intro e he f hf
  obtain ⟨s, hs⟩ := h e he
  obtain ⟨t, ht⟩ := h f hf
  dsimp only
  rw [hs, ht]
  exact decide_eq_true_iff

theorem nodup_texts (h : TextKeys entries) (hn : (entries.map Prod.fst).Nodup) :
    (entries.map fun e => e.1.text?.getD "").Nodup := by
  have hmap : (entries.map fun e => e.1.text?.getD "") =
      (entries.map Prod.fst).map fun k => k.text?.getD "" := by
    rw [List.map_map]
    rfl
  rw [hmap]
  refine hn.map_on fun j hj k hk hjk => ?_
  obtain ⟨e, he, rfl⟩ := List.mem_map.mp hj
  obtain ⟨f, hf, rfl⟩ := List.mem_map.mp hk
  obtain ⟨s, hs⟩ := h e he
  obtain ⟨t, ht⟩ := h f hf
  rw [hs, ht] at hjk ⊢
  exact congrArg Key.text hjk

/-- Entries with different texts as keys are sorted into one order, however they come. -/
theorem sortEntries_eq_of_perm (h : TextKeys entries) (hn : (entries.map Prod.fst).Nodup)
    (hp : entries'.Perm entries) : sortEntries entries' = sortEntries entries := by
  rw [sortEntries_eq h, sortEntries_eq fun e he => h e (hp.subset he)]
  exact congrArg _ (inOrder_eq_of_perm (compares_textKeys h) (nodup_texts h hn) hp)

end Sorting

theorem members_eq_of_perm {parts parts' : List (Key × Except Abort String)} (h : TextKeys parts)
    (hn : (parts.map Prod.fst).Nodup) (hp : parts'.Perm parts) :
    members compact parts' = members compact parts := by
  unfold members
  simp only [compact, if_true]
  rw [sortEntries_eq_of_perm h hn hp]

theorem textKeys_partsOf {room : Nat} {entries : List (Key × Value)} (h : TextKeys entries) :
    TextKeys (partsOf room entries) := by
  intro e he
  obtain ⟨f, hf, rfl⟩ := List.mem_map.mp he
  exact h f hf

/-! ## One text for one tree -/

theorem render_undefined {room : Nat} {v : Value} (h : isUndefined v = true) :
    render room compact 0 v = .ok "NaN" := by
  cases v with
  | float x =>
    have hn : x.isNaN = true := h
    rw [render, floatLiteral, if_pos hn]
  | undefined origin => rw [render]
  | _ => cases h

variable {D : Set Float} {room : Nat} {v w : Value}

theorem perm_partsOf {xs ys : List (Key × Value)} (hx : (xs.map Prod.fst).Nodup)
    (hy : (ys.map Prod.fst).Nodup) (hkeys : ∀ k, k ∈ xs.map Prod.fst ↔ k ∈ ys.map Prod.fst)
    (h : ∀ k v w, (k, v) ∈ xs → (k, w) ∈ ys → render room compact 0 v = render room compact 0 w) :
    (partsOf room xs).Perm (partsOf room ys) := by
  have nodup {es : List (Key × Value)} (he : (es.map Prod.fst).Nodup) : (partsOf room es).Nodup :=
    List.Nodup.of_map Prod.fst (by rwa [keys_partsOf])
  have exists_of_key {es : List (Key × Value)} {k : Key} (hk : k ∈ es.map Prod.fst) :
      ∃ v, (k, v) ∈ es := by
    obtain ⟨e, he, rfl⟩ := List.mem_map.mp hk
    exact ⟨e.2, he⟩
  refine (List.perm_ext_iff_of_nodup (nodup hx) (nodup hy)).mpr fun (k, r) => ?_
  rw [mem_partsOf, mem_partsOf]
  constructor
  · rintro ⟨v, hv, rfl⟩
    obtain ⟨w, hw⟩ := exists_of_key ((hkeys k).mp (List.mem_map_of_mem (f := Prod.fst) hv))
    exact ⟨w, hw, h k v w hv hw⟩
  · rintro ⟨w, hw, rfl⟩
    obtain ⟨v, hv⟩ := exists_of_key ((hkeys k).mpr (List.mem_map_of_mem (f := Prod.fst) hw))
    exact ⟨v, hv, (h k v w hv hw).symm⟩

/-- **Trees that are the same have one text, or fail in one way.** -/
theorem SameTree.render_eq (h : SameTree v w) (hv : IsTree D v) (hw : IsTree D w) :
    render room compact 0 v = render room compact 0 w := by
  induction h generalizing room with
  | undefined hv' hw' => rw [render_undefined hv', render_undefined hw']
  | @list xs ys hlen h ih =>
    have hmap (room : Nat) : xs.map (render room compact 0) = ys.map (render room compact 0) := by
      refine List.ext_getElem (by simpa using hlen) fun i hi hi' => ?_
      rw [List.length_map] at hi hi'
      rw [List.getElem_map, List.getElem_map]
      exact ih i _ _ (List.getElem?_eq_getElem hi) (List.getElem?_eq_getElem hi')
        (hv.of_list _ (List.getElem_mem hi)) (hw.of_list _ (List.getElem_mem hi'))
    rw [render, render]
    refine bind_congr fun left => ?_
    rw [renderItems_eq, renderItems_eq, hmap]
  | @mapping xs ys hkeys h ih =>
    obtain ⟨hxk, hxt, hx⟩ := hv.of_mapping
    obtain ⟨hyk, hyt, hy⟩ := hw.of_mapping
    rw [render, render]
    refine bind_congr fun left => ?_
    have hperm : (partsOf left xs).Perm (partsOf left ys) := perm_partsOf hxk hyk hkeys
      fun k v w hv hw => ih k v w hv hw (hx _ hv) (hy _ hw)
    have hmembers := members_eq_of_perm (textKeys_partsOf hyt) (by rwa [keys_partsOf]) hperm
    rw [renderEntries_eq_partsOf, renderEntries_eq_partsOf, hmembers]
  | _ => rfl

/-! ## What has a text -/

theorem isWritable_eq_false {n : Int} (h : Binary.tenTo digitLimit ≤ n.natAbs) :
    LiveForm.isWritable n = false := decide_eq_false (Nat.not_lt.mpr h)

theorem entriesAreWritable_iff {entries : List (Key × Value)} (h : TextKeys entries) :
    Value.entriesAreWritable entries = true ↔ ∀ e ∈ entries, e.2.isWritable = true := by
  induction entries with
  | nil => simp [Value.entriesAreWritable]
  | cons e rest ih =>
    obtain ⟨s, hs⟩ := h e List.mem_cons_self
    have hkey : e.1.isWritable = true := by
      rw [hs]
      rfl
    simp [Value.entriesAreWritable, hkey, ih fun f hf => h f (List.mem_cons_of_mem _ hf)]

/-- Members have a text under each key that is a text, if their values do. -/
theorem exists_members_iff {parts : List (Key × Except Abort String)} (h : TextKeys parts) :
    (∃ texts, members compact parts = .ok texts) ↔ ∀ e ∈ parts, ∃ text, e.2 = .ok text := by
  constructor
  · intro ⟨texts, htexts⟩ e he
    obtain ⟨-, text, -, htext, -⟩ := mem_members_of_mem htexts he
    exact ⟨text, htext⟩
  · intro ht
    unfold members
    simp only [compact, if_true]
    rw [sortEntries_eq h]
    refine exists_mapM_eq_ok fun e he => ?_
    have he := (inOrder_perm _ parts).subset he
    obtain ⟨s, hs⟩ := h e he
    obtain ⟨text, htext⟩ := ht e he
    rw [hs, htext]
    exact ⟨_, rfl⟩

/-- **A tree has a text if all its whole numbers have one and there is room for its levels.** -/
theorem IsTree.exists_render_iff (h : IsTree D v) :
    (∃ text, render room compact 0 v = .ok text) ↔ v.isWritable ∧ v.nesting ≤ room := by
  induction h generalizing room with
  | int n =>
    simp only [Value.isWritable, Value.nesting, render, intLiteral]
    generalize LiveForm.isWritable n = writable
    cases writable <;> simp
  | @list items h ih =>
    rw [Value.isWritable, Value.nesting, render]
    refine exists_below_bind_iff fun left => ?_
    rw [exists_return_iff, renderItems_eq, exists_mapM_iff, List.forall_mem_map,
      Value.areWritable_iff, Value.itemsNesting_le_iff, ← forall₂_and]
    exact forall₂_congr fun v hv => ih v hv
  | @mapping entries hkeys htext h ih =>
    rw [Value.isWritable, Value.nesting, render]
    refine exists_below_bind_iff fun left => ?_
    rw [exists_return_iff, renderEntries_eq_partsOf, exists_members_iff (textKeys_partsOf htext),
      partsOf, List.forall_mem_map, entriesAreWritable_iff htext, Value.entriesNesting_le_iff,
      ← forall₂_and]
    exact forall₂_congr fun e he => ih e he
  | _ => exact iff_of_true ⟨_, by rw [render]⟩ (by simp [Value.isWritable, Value.nesting])

/-! ## One tree for one text -/

theorem render_ne_nil {text : String} (h : render room compact 0 v = .ok text) :
    text.toList ≠ [] := by
  intro hnil
  have hk := kindOf?_render h
  rw [hnil] at hk
  cases hk

/-- Values with one text are of one kind. -/
theorem ofKind_of_render {text : String} (h : render room compact 0 v = .ok text)
    (h' : render room compact 0 w = .ok text) : OfKind (kind v) w := by
  have hk : kind v = kind w := Option.some.inj ((kindOf?_render h).symm.trans (kindOf?_render h'))
  rw [hk]
  exact ofKind w

/-- Lists with one text have the same texts of items. -/
theorem items_inj {xs ys : List Value} {text : String} (hx : render room compact 0 (.list xs) = .ok text)
    (hy : render room compact 0 (.list ys) = .ok text) :
    xs.length = ys.length ∧ ∃ left, ∀ (i : Nat) (v w : Value), xs[i]? = some v →
      ys[i]? = some w → ∃ t, render left compact 0 v = .ok t ∧ render left compact 0 w = .ok t := by
  rw [render] at hx hy
  obtain ⟨left, hleft, hx⟩ := bind_eq_ok hx
  obtain ⟨ps, hps, hx⟩ := bind_eq_ok hx
  obtain ⟨left', hleft', hy⟩ := bind_eq_ok hy
  obtain rfl := Except.ok.inj (hleft.symm.trans hleft')
  obtain ⟨qs, hqs, hy⟩ := bind_eq_ok hy
  have texts {items : List Value} {parts : List String}
      (h : renderItems left compact 1 items = .ok parts) :
      List.Forall₂ (fun v p => render left compact 0 v = .ok p) items parts := by
    rw [renderItems_eq] at h
    exact List.forall₂_map_left_iff.mp (forall₂_of_mapM h)
  have whole {items : List Value} {parts : List String}
      (h : renderItems left compact 1 items = .ok parts) :
      ∀ p ∈ parts, Closed p.toList ∧ p.toList ≠ [] := by
    intro p hp
    obtain ⟨r, hr, hrp⟩ := exists_of_mem_mapM (renderItems_eq left 1 items ▸ h) hp
    obtain ⟨v, -, rfl⟩ := List.mem_map.mp hr
    exact ⟨closed_renderItems left 1 items h p hp, render_ne_nil hrp⟩
  obtain rfl := enclosed_inj rfl (.inl rfl) (whole hps) (whole hqs)
    ((Except.ok.inj hx).trans (Except.ok.inj hy).symm)
  obtain ⟨hxlen, hxt⟩ := List.forall₂_iff_get.mp (texts hps)
  obtain ⟨hylen, hyt⟩ := List.forall₂_iff_get.mp (texts hqs)
  refine ⟨hxlen.trans hylen.symm, left, fun i v w hv hw => ?_⟩
  obtain ⟨hi, rfl⟩ := List.getElem?_eq_some_iff.mp hv
  obtain ⟨hj, rfl⟩ := List.getElem?_eq_some_iff.mp hw
  have hp : i < ps.length := hxlen ▸ hi
  exact ⟨ps[i], hxt i hi hp, hyt i hj hp⟩

theorem entries_inj {xs ys : List (Key × Value)} {text : String} (hxt : TextKeys xs) (hyt : TextKeys ys)
    (hx : render room compact 0 (.mapping xs) = .ok text)
    (hy : render room compact 0 (.mapping ys) = .ok text) {k : Key} {v : Value} (hm : (k, v) ∈ xs) :
    ∃ w left t, (k, w) ∈ ys ∧ render left compact 0 v = .ok t ∧ render left compact 0 w = .ok t := by
  rw [render] at hx hy
  obtain ⟨left, hleft, hx⟩ := bind_eq_ok hx
  obtain ⟨ps, hps, hx⟩ := bind_eq_ok hx
  obtain ⟨left', hleft', hy⟩ := bind_eq_ok hy
  obtain rfl := Except.ok.inj (hleft.symm.trans hleft')
  obtain ⟨qs, hqs, hy⟩ := bind_eq_ok hy
  obtain rfl := members_inj (closed_renderEntries left _ xs) (closed_renderEntries left _ ys) hps hqs
    ((Except.ok.inj hx).trans (Except.ok.inj hy).symm)
  rw [renderEntries_eq_partsOf] at hps hqs
  obtain ⟨key, t, hkey, ht, hp⟩ := mem_members_of_mem hps (mem_partsOf.mpr ⟨v, hm, rfl⟩)
  obtain ⟨j, key', t', hr, hkey', hp⟩ := exists_of_mem_members hqs hp
  obtain ⟨rfl, rfl⟩ := memberText_cancel hp
  obtain ⟨w, hw, hwt⟩ := mem_partsOf.mp hr
  obtain ⟨s, rfl⟩ := hxt _ hm
  obtain ⟨s', rfl⟩ := hyt _ hw
  obtain rfl : s = key := Except.ok.inj hkey
  obtain rfl : s' = s := Except.ok.inj hkey'
  exact ⟨w, left, t, hw, ht, hwt.symm⟩

/-- **Trees with one text are the same**, if no two of their doubles have one text. -/
theorem IsTree.sameTree (hD : D.InjOn Decimal.floatText) (hv : IsTree D v) (hw : IsTree D w)
    {text : String} (h : render room compact 0 v = .ok text) (h' : render room compact 0 w = .ok text) :
    SameTree v w := by
  induction hv generalizing w room text with
  | null =>
    obtain rfl : w = .null := ofKind_of_render h h'
    exact .null
  | bool b =>
    obtain ⟨c, rfl⟩ : ∃ c, w = .bool c := ofKind_of_render h h'
    rw [render] at h h'
    have hbc := h.trans h'.symm
    revert hbc
    cases b <;> cases c <;> first | exact fun _ => .bool _ | simp
  | int n =>
    obtain ⟨m, rfl⟩ : ∃ m, w = .int m := ofKind_of_render h h'
    rw [render] at h h'
    obtain rfl := Decimal.intText_inj ((intLiteral_eq_ok h).symm.trans (intLiteral_eq_ok h'))
    exact .int n
  | @float x hx =>
    have hkind := ofKind_of_render h h'
    rw [kind] at hkind
    split at hkind
    · exact .undefined ‹_› hkind
    · rename_i hn
      obtain ⟨y, rfl, -⟩ := hkind
      rw [render] at h h'
      have he := floatText_eq_of_floatLiteral_eq (eq_false_of_ne_true hn) (Except.ok.inj (h.trans h'.symm))
      obtain rfl := hD hx hw.of_float he
      exact .float x
  | undefined origin => exact .undefined rfl (ofKind_of_render h h')
  | text s =>
    obtain ⟨t, rfl⟩ : ∃ t, w = .text t := ofKind_of_render h h'
    rw [render] at h h'
    have he := congrArg String.toList (Except.ok.inj (h.trans h'.symm))
    obtain ⟨rfl, -⟩ := textLiteral_cancel (congrArg (· ++ []) he)
    exact .text s
  | @list items hx ih =>
    obtain ⟨ys, rfl⟩ : ∃ ys, w = .list ys := ofKind_of_render h h'
    obtain ⟨hlen, left, hitems⟩ := items_inj h h'
    refine .list hlen fun i v w hv hw' => ?_
    obtain ⟨t, ht, ht'⟩ := hitems i v w hv hw'
    exact ih v (List.mem_of_getElem? hv) (hw.of_list w (List.mem_of_getElem? hw')) ht ht'
  | @mapping xs hkeys htext hx ih =>
    obtain ⟨ys, rfl⟩ : ∃ ys, w = .mapping ys := ofKind_of_render h h'
    obtain ⟨hkeys', htext', hy⟩ := hw.of_mapping
    refine .mapping (fun k => ⟨fun hk => ?_, fun hk => ?_⟩) fun k v w hm hm' => ?_
    · obtain ⟨⟨k, v⟩, hm, rfl⟩ := List.mem_map.mp hk
      obtain ⟨w, -, -, hw, -⟩ := entries_inj htext htext' h h' hm
      exact List.mem_map.mpr ⟨(k, w), hw, rfl⟩
    · obtain ⟨⟨k, v⟩, hm, rfl⟩ := List.mem_map.mp hk
      obtain ⟨w, -, -, hw, -⟩ := entries_inj htext' htext h' h hm
      exact List.mem_map.mpr ⟨(k, w), hw, rfl⟩
    · obtain ⟨w', left, t, hw, ht, ht'⟩ := entries_inj htext htext' h h' hm
      have he := List.inj_on_of_nodup_map hkeys' hm' hw rfl
      obtain rfl : w = w' := congrArg Prod.snd he
      exact ih (k, v) hm (hy (k, w) hm') ht ht'

end LiveForm.Json
