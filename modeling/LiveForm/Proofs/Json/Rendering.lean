import LiveForm.Proofs.Except
import LiveForm.Proofs.Json.Delimited

/-! # The text of a value is closed

So are its parts, and the text of a mapping can be cut back into its members. -/

namespace LiveForm.Json

theorem toList_enclosed (depth : Nat) (opening closing : String) (parts : List String) :
    (enclosed compact depth opening closing parts).toList =
      opening.toList ++ ([',', ' '].intercalate (parts.map String.toList) ++ closing.toList) := by
  unfold enclosed
  cases parts with
  | nil => simp
  | cons p rest => simp [compact, String.toList_intercalate]

theorem sortEntries_perm {α : Type} {entries sorted : List (Key × α)}
    (h : sortEntries entries = .ok sorted) : sorted.Perm entries := by
  unfold sortEntries at h
  split at h
  · rw [← Except.ok.inj h]
  · split at h
    · rw [← Except.ok.inj h]
      exact inOrder_perm _ _
    · cases h

theorem intLiteral_eq_ok {n : Int} {text : String} (h : intLiteral n = .ok text) :
    text = Decimal.intText n := by
  unfold intLiteral at h
  generalize isWritable n = writable at h
  cases writable with
  | false => cases h
  | true => exact (Except.ok.inj h).symm

/-- A member of a mapping, as it is written. -/
def memberText (key text : String) : String := textLiteral key ++ ": " ++ text

theorem exists_of_mem_members {parts : List (Key × Except Abort String)} {texts : List String}
    (h : members compact parts = .ok texts) {p : String} (hp : p ∈ texts) :
    ∃ k key text, (k, .ok text) ∈ parts ∧ keyText k = .ok key ∧ p = memberText key text := by
  obtain ⟨sorted, hs, h⟩ := bind_eq_ok h
  obtain ⟨⟨k, r⟩, hm, hf⟩ := exists_of_mem_mapM h hp
  obtain ⟨key, hk, hf⟩ := bind_eq_ok hf
  obtain ⟨text, hr, hf⟩ := bind_eq_ok hf
  obtain rfl : r = .ok text := hr
  exact ⟨k, key, text, (sortEntries_perm hs).subset hm, hk, (Except.ok.inj hf).symm⟩

theorem mem_members_of_mem {parts : List (Key × Except Abort String)} {texts : List String}
    (h : members compact parts = .ok texts) {k : Key} {r : Except Abort String}
    (hm : (k, r) ∈ parts) :
    ∃ key text, keyText k = .ok key ∧ r = .ok text ∧ memberText key text ∈ texts := by
  obtain ⟨sorted, hs, h⟩ := bind_eq_ok h
  obtain ⟨p, hp, hf⟩ := mem_mapM_of_mem h ((sortEntries_perm hs).symm.subset hm)
  obtain ⟨key, hk, hf⟩ := bind_eq_ok hf
  obtain ⟨text, hr, hf⟩ := bind_eq_ok hf
  obtain rfl := Except.ok.inj hf
  exact ⟨key, text, hk, hr, hp⟩

theorem closed_memberText (key : String) {text : String} (h : Closed text.toList) :
    Closed (memberText key text).toList := by
  rw [memberText, String.toList_append, String.toList_append]
  refine ((closed_textLiteral key).append ?_).append h
  exact Plain.closed (by decide)

theorem closed_members {parts : List (Key × Except Abort String)} {texts : List String}
    (hc : ∀ k text, (k, .ok text) ∈ parts → Closed text.toList)
    (h : members compact parts = .ok texts) : ∀ p ∈ texts, Closed p.toList := by
  intro p hp
  obtain ⟨k, key, text, hm, -, rfl⟩ := exists_of_mem_members h hp
  exact closed_memberText key (hc k text hm)

mutual

theorem closed_render (room depth : Nat) (v : Value) {text : String}
    (h : render room compact depth v = .ok text) : Closed text.toList := by
  cases v with
  | null =>
    rw [render] at h
    obtain rfl := Except.ok.inj h
    exact Plain.closed (by decide)
  | bool b =>
    rw [render] at h
    obtain rfl := Except.ok.inj h
    exact Plain.closed (by cases b <;> decide)
  | int n =>
    rw [render] at h
    rw [intLiteral_eq_ok h]
    exact (plain_intText n).closed
  | float x =>
    rw [render] at h
    obtain rfl := Except.ok.inj h
    exact (plain_floatLiteral x).closed
  | undefined _ =>
    rw [render] at h
    obtain rfl := Except.ok.inj h
    exact Plain.closed (by decide)
  | text s =>
    rw [render] at h
    obtain rfl := Except.ok.inj h
    exact closed_textLiteral s
  | list items =>
    rw [render] at h
    obtain ⟨left, -, h⟩ := bind_eq_ok h
    obtain ⟨parts, hp, h⟩ := bind_eq_ok h
    obtain rfl := Except.ok.inj h
    rw [toList_enclosed]
    refine Inner.bracketed (.intercalate fun cs hcs => ?_)
    obtain ⟨p, hm, rfl⟩ := List.mem_map.mp hcs
    exact closed_renderItems left (depth + 1) items hp p hm
  | mapping entries =>
    rw [render] at h
    obtain ⟨left, -, h⟩ := bind_eq_ok h
    obtain ⟨parts, hp, h⟩ := bind_eq_ok h
    obtain rfl := Except.ok.inj h
    rw [toList_enclosed]
    refine Inner.braced (.intercalate fun cs hcs => ?_)
    obtain ⟨p, hm, rfl⟩ := List.mem_map.mp hcs
    exact closed_members (closed_renderEntries left (depth + 1) entries) hp p hm

theorem closed_renderItems (room depth : Nat) (items : List Value) {parts : List String}
    (h : renderItems room compact depth items = .ok parts) : ∀ p ∈ parts, Closed p.toList := by
  match items with
  | [] =>
    rw [renderItems] at h
    obtain rfl := Except.ok.inj h
    intro p hp
    cases hp
  | v :: rest =>
    rw [renderItems] at h
    obtain ⟨text, ht, h⟩ := bind_eq_ok h
    obtain ⟨texts, hts, h⟩ := bind_eq_ok h
    obtain rfl := Except.ok.inj h
    intro p hp
    rcases List.mem_cons.mp hp with rfl | hp
    · exact closed_render room depth v ht
    · exact closed_renderItems room depth rest hts p hp

theorem closed_renderEntries (room depth : Nat) (entries : List (Key × Value)) (k : Key) (text : String)
    (h : (k, .ok text) ∈ renderEntries room compact depth entries) : Closed text.toList := by
  match entries with
  | [] => cases h
  | (j, v) :: rest =>
    rw [renderEntries] at h
    rcases List.mem_cons.mp h with h | h
    · exact closed_render room depth v (Prod.mk.inj h).2.symm
    · exact closed_renderEntries room depth rest k text h

end

/-! ## Depth does not matter on one line -/

theorem renderEntries_eq (room : Nat) (layout : Layout) (depth : Nat)
    (entries : List (Key × Value)) :
    renderEntries room layout depth entries =
      entries.map fun e => (e.1, render room layout depth e.2) := by
  induction entries with
  | nil => rfl
  | cons e rest ih =>
    rw [renderEntries, ih]
    rfl

mutual

theorem render_depth (room d d' : Nat) (v : Value) :
    render room compact d v = render room compact d' v := by
  cases v with
  | list items =>
    rw [render, render]
    refine bind_congr fun left => ?_
    rw [renderItems_depth left (d + 1) (d' + 1) items]
    rfl
  | mapping entries =>
    rw [render, render]
    refine bind_congr fun left => ?_
    rw [renderEntries_depth left (d + 1) (d' + 1) entries]
    rfl
  | _ => rw [render, render]

theorem renderItems_depth (room d d' : Nat) (items : List Value) :
    renderItems room compact d items = renderItems room compact d' items := by
  match items with
  | [] => rw [renderItems, renderItems]
  | v :: rest =>
    rw [renderItems, renderItems, render_depth room d d' v, renderItems_depth room d d' rest]

theorem renderEntries_depth (room d d' : Nat) (entries : List (Key × Value)) :
    renderEntries room compact d entries = renderEntries room compact d' entries := by
  match entries with
  | [] => rw [renderEntries, renderEntries]
  | (k, v) :: rest =>
    rw [renderEntries, renderEntries, render_depth room d d' v,
      renderEntries_depth room d d' rest]

end

/-! ## Members -/

theorem memberText_cancel {key key' text text' : String}
    (h : memberText key text = memberText key' text') : key = key' ∧ text = text' := by
  have h := congrArg String.toList h
  simp only [memberText, String.toList_append, List.append_assoc] at h
  obtain ⟨hk, ht⟩ := textLiteral_cancel h
  exact ⟨hk, String.toList_inj.mp (List.append_cancel_left ht)⟩

theorem memberText_ne_nil (key text : String) : (memberText key text).toList ≠ [] := by
  simp [memberText, toList_textLiteral]

/-! ## What stands between brackets -/

/-- A closing bracket. -/
def Closes (c : Char) : Prop := c = ']' ∨ c = '\x7d'

theorem Closes.endsValue {c : Char} (h : Closes c) : EndsValue c := .inr h

theorem Closes.ne_comma {c : Char} (h : Closes c) : c ≠ ',' := by
  rcases h with rfl | rfl <;> decide

section Between

variable {close : Char}

/-- The first of some parts is followed by a comma and the others, or by the closing bracket. -/
theorem intercalate_cons (hclose : Closes close) (p : List Char) (ps : List (List Char)) :
    ∃ c r, EndsValue c ∧ [',', ' '].intercalate (p :: ps) ++ [close] = p ++ c :: r ∧
      (ps = [] ∧ c = close ∨ c = ',' ∧ r = ' ' :: ([',', ' '].intercalate ps ++ [close])) := by
  cases ps with
  | nil => exact ⟨close, [], hclose.endsValue, by simp, .inl ⟨rfl, rfl⟩⟩
  | cons q ps => exact ⟨',', _, .inl rfl, by simp [List.intercalate_cons_cons], .inr ⟨rfl, rfl⟩⟩

/-- The text of a list or mapping can be cut back into its parts. -/
theorem intercalate_cancel (hclose : Closes close) {ps qs : List (List Char)}
    (hp : ∀ p ∈ ps, Closed p ∧ p ≠ []) (hq : ∀ q ∈ qs, Closed q ∧ q ≠ [])
    (h : [',', ' '].intercalate ps ++ [close] = [',', ' '].intercalate qs ++ [close]) :
    ps = qs := by
  induction ps generalizing qs with
  | nil =>
    cases qs with
    | nil => rfl
    | cons q qs =>
      obtain ⟨c, r, hc, he, -⟩ := intercalate_cons hclose q qs
      obtain ⟨hq, hne⟩ := hq q (by simp)
      rw [he] at h
      exact absurd (closed_nil.cancel hq hclose.endsValue hc h).1.symm hne
  | cons p ps ih =>
    obtain ⟨c, r, hc, he, hr⟩ := intercalate_cons hclose p ps
    obtain ⟨hpc, hpne⟩ := hp p (by simp)
    rw [he] at h
    cases qs with
    | nil => exact absurd (hpc.cancel closed_nil hc hclose.endsValue h).1 hpne
    | cons q qs =>
      obtain ⟨d, s, hd, hf, hs⟩ := intercalate_cons hclose q qs
      obtain ⟨hqc, -⟩ := hq q (by simp)
      rw [hf] at h
      obtain ⟨rfl, ht⟩ := hpc.cancel hqc hc hd h
      obtain ⟨rfl, rfl⟩ := List.cons.inj ht
      rcases hr with ⟨rfl, hcd⟩ | ⟨hcomma, rfl⟩
      · rcases hs with ⟨rfl, -⟩ | ⟨hcomma, -⟩
        · rfl
        · exact absurd (hcd.symm.trans hcomma) hclose.ne_comma
      · rcases hs with ⟨-, hcd⟩ | ⟨-, hs⟩
        · exact absurd (hcd.symm.trans hcomma) hclose.ne_comma
        · rw [ih (fun p h => hp p (by simp [h])) (fun q h => hq q (by simp [h]))
            (List.cons.inj hs).2]

/-- The parts of two enclosed texts that are one. -/
theorem enclosed_inj {texts texts' : List String} {opening closing : String}
    (hclose : closing.toList = [close]) (hc : Closes close)
    (h : ∀ p ∈ texts, Closed p.toList ∧ p.toList ≠ [])
    (h' : ∀ p ∈ texts', Closed p.toList ∧ p.toList ≠ [])
    (he : enclosed compact 0 opening closing texts = enclosed compact 0 opening closing texts') :
    texts = texts' := by
  have chars {texts : List String} (h : ∀ p ∈ texts, Closed p.toList ∧ p.toList ≠ []) :
      ∀ cs ∈ texts.map String.toList, Closed cs ∧ cs ≠ [] := by
    intro cs hcs
    obtain ⟨p, hp, rfl⟩ := List.mem_map.mp hcs
    exact h p hp
  have hl := congrArg String.toList he
  rw [toList_enclosed, toList_enclosed, hclose] at hl
  have hm := intercalate_cancel hc (chars h) (chars h') (List.append_cancel_left hl)
  exact (List.map_inj_right fun _ _ => String.toList_inj.mp).mp hm

end Between

/-- **The text of a mapping determines what its members are.** -/
theorem members_inj {parts parts' : List (Key × Except Abort String)} {texts texts' : List String}
    (hc : ∀ k text, (k, .ok text) ∈ parts → Closed text.toList)
    (hc' : ∀ k text, (k, .ok text) ∈ parts' → Closed text.toList)
    (h : members compact parts = .ok texts) (h' : members compact parts' = .ok texts')
    (he : enclosed compact 0 "\x7b" "\x7d" texts = enclosed compact 0 "\x7b" "\x7d" texts') :
    texts = texts' := by
  have whole {parts : List (Key × Except Abort String)} {texts : List String}
      (hc : ∀ k text, (k, .ok text) ∈ parts → Closed text.toList)
      (h : members compact parts = .ok texts) : ∀ p ∈ texts, Closed p.toList ∧ p.toList ≠ [] := by
    intro p hp
    obtain ⟨k, key, text, -, -, rfl⟩ := exists_of_mem_members h hp
    exact ⟨closed_members hc h _ hp, memberText_ne_nil key text⟩
  exact enclosed_inj rfl (.inr rfl) (whole hc h) (whole hc' h') he

end LiveForm.Json
