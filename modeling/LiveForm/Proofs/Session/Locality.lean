import LiveForm.Proofs.Session.Agreement
import LiveForm.Proofs.Session.Seed

/-! # What a changed entry can reach

When one entered value changes, a pass over simple fields reports the same of every id, that one and
the fields that depend on it apart. The one thing that another entry may bring with it is the place of
the keys in the mapping: of the dotted ids that a name can stand for, the first is taken. -/

namespace LiveForm.Session

open Relation

/-- The first of the entered ids that a name can stand for. -/
def firstStanding (raw : Mapping) (leaf : String) : Option Key :=
  raw.keys.find? fun k => k.text?.any (aliases leaf)

theorem firstStanding_ofContext (c : Context) (leaf : String) :
    firstStanding (Mapping.ofContext c) leaf = (c.keys.find? (aliases leaf)).map .text := by
  rw [firstStanding, keys_ofContext, List.find?_map]
  rfl

theorem isLocalName_of_isReserved {x : String} (h : Expr.isReserved x) : isLocalName x := by
  have hall : ∀ name ∈ Builtin.reserved, isLocalName name := by decide +kernel
  exact hall x (by simpa [Expr.isReserved] using h)

/-- **A changed entry is seen only by what depends on it.** Two passes over the same simple fields,
with entered values that differ under one simple name only, report the same values and errors of
every id, that name and the fields that transitively depend on it apart; provided that each name can
first stand for the same entered id in both. -/
theorem evaluateAll_local (settings : Settings) {ops : List Operation}
    (hops : ∀ op ∈ ops, op.isSimple) {x : String} (hx : isLocalName x) (hr : ¬Expr.isReserved x)
    {offer offer' : Offer} (hcalculated : offer'.calculated = offer.calculated)
    (hmetadata : offer'.metadata = offer.metadata) (hn : offer.raw.keys.Nodup)
    (hn' : offer'.raw.keys.Nodup)
    (hraw : ∀ k, k ≠ .text x → offer'.raw.get? k = offer.raw.get? k)
    (hfirst : settings.aliasLeafNames → ∀ leaf,
      firstStanding offer'.raw leaf = firstStanding offer.raw leaf)
    {now now' : Number} {results results' : Context} {s s' : Session}
    (h : (evaluateAll now offer).run (after (create settings) ops) = (.ok results, s))
    (h' : (evaluateAll now' offer').run (after (create settings) ops) = (.ok results', s')) :
    ∀ y, y ≠ x → ¬TransGen (after (create settings) ops).graph.DependsOn y x →
      results'.get? y = results.get? y ∧ s'.errors.get? y = s.errors.get? y := by
  have hs := registered_after settings hops
  obtain ⟨E, hE⟩ := hs.consistent
  let depends := (after (create settings) ops).graph.DependsOn
  let unreached : String → Prop := fun y => isLocalName y ∧ y ≠ x ∧ ¬TransGen depends y x
  have hclosed : ∀ y d, unreached y → depends y d → unreached d := by
    rintro y d ⟨-, -, hy⟩ hd
    refine ⟨(hs.named d ((hE.mirrors.node_iff d).mpr (hE.node_of_dependsOn hd).2)).1, ?_,
      fun hdx => hy (.head hd hdx)⟩
    rintro rfl
    exact hy (.single hd)
  have hreserved : ∀ y, Expr.isReserved y → unreached y := by
    intro y hy
    refine ⟨isLocalName_of_isReserved hy, fun heq => hr (heq ▸ hy), fun hyx => ?_⟩
    obtain ⟨d, hd, -⟩ := TransGen.head'_iff.mp hyx
    exact (hs.named y ((hE.mirrors.node_iff y).mpr (hE.node_of_dependsOn hd).1)).2 hy
  have halike : StartAlike unreached (· ≠ x) (after (create settings) ops)
      (after (create settings) ops) offer offer' := by
    intro layers layers' working working' hl hl' hw hw'
    rw [settings_after settings hops] at hw hw'
    obtain ⟨hlr, hlc, hlm⟩ := ofOffer_eq_ok hl
    obtain ⟨hlr', hlc', hlm'⟩ := ofOffer_eq_ok hl'
    rw [hcalculated] at hlc'
    rw [hmetadata] at hlm'
    have hc : layers'.calculated = layers.calculated := Except.ok.inj (hlc'.symm.trans hlc)
    have hm : layers'.metadata = layers.metadata := Except.ok.inj (hlm'.symm.trans hlm)
    have heq := Layers.eq_of_named hlr
    have heq' := Layers.eq_of_named hlr'
    rw [heq] at hn hraw hfirst
    rw [heq'] at hn' hraw hfirst
    have hentered : ∀ y, y ≠ x → layers'.raw.get? y = layers.raw.get? y := by
      intro y hy
      rw [← Mapping.get?_ofContext, ← Mapping.get?_ofContext]
      exact hraw (.text y) fun hk => hy (Key.text.inj hk)
    have hstanding : settings.aliasLeafNames → ∀ leaf,
        layers'.raw.keys.find? (aliases leaf) = layers.raw.keys.find? (aliases leaf) := by
      intro halias leaf
      have hkeys := hfirst halias leaf
      rw [firstStanding_ofContext, firstStanding_ofContext] at hkeys
      exact Option.map_injective (fun _ _ hk => Key.text.inj hk) hkeys
    refine ⟨fun y hy => ⟨hentered y hy.2.1, ?_⟩, fun y hy => ?_⟩
    · exact seed_agree hc hm (nodup_keys_of_ofContext hn) (nodup_keys_of_ofContext hn') hx hentered
        hstanding hw hw' hy.1 hy.2.1
    · rw [hc]
      exact Table.get?_merge_congr (hentered y hy) _
  intro y hy hyx
  refine evaluateAll_agree hs hs (fresh_after settings hops) rfl hclosed hreserved
    (fun z hz => hz.2.1) halike h h' hy fun hkey => ⟨(hs.named y hkey).1, hy, hyx⟩

/-- What a bill is made of, with a fee. -/
def bill (fee : Value) : Offer :=
  { raw := ⟨[(.text "price", .int 5), (.text "quantity", .int 3), (.text "fee", fee)]⟩ }

/-- The fields of the bill, evaluated once. -/
def billed : List Operation := dueBeforeTotal ++ [.evaluateAll (.int 0) (bill (.int 2))]

/-- Another fee does not change the total that is due before it. -/
theorem evaluateAll_anotherFee :
    ∃ results results' s s',
      (evaluateAll (.int 0) (bill (.int 2))).run (after (create {}) dueBeforeTotal) =
        (.ok results, s) ∧
      (evaluateAll (.int 0) (bill .null)).run (after (create {}) dueBeforeTotal) =
        (.ok results', s') ∧
      ∀ y, y ≠ "fee" → ¬TransGen (after (create {}) dueBeforeTotal).graph.DependsOn y "fee" →
        results'.get? y = results.get? y ∧ s'.errors.get? y = s.errors.get? y := by
  let run (fee : Value) := (evaluateAll (.int 0) (bill fee)).run (after (create {}) dueBeforeTotal)
  have hok : (run (.int 2)).1.isOk := by decide +kernel
  have hok' : (run .null).1.isOk := by decide +kernel
  have hops : ∀ op ∈ dueBeforeTotal, op.isSimple := by decide +kernel
  have hraw : ∀ k, k ≠ .text "fee" → (bill .null).raw.get? k = (bill (.int 2)).raw.get? k := by
    intro k hk
    simp [bill, Table.get?, List.lookup_cons, beq_text_eq_false hk]
  have hlocal : isLocalName "fee" := by decide +kernel
  have hreserved : ¬Expr.isReserved "fee" := by decide +kernel
  have hcalculated : (bill .null).calculated = (bill (.int 2)).calculated := rfl
  have hmetadata : (bill .null).metadata = (bill (.int 2)).metadata := rfl
  have hkeys : (bill .null).raw.keys = (bill (.int 2)).raw.keys := rfl
  have hn : (bill .null).raw.keys.Nodup := by simp [bill, Table.keys]
  have hfirst : ({} : Settings).aliasLeafNames → ∀ leaf,
      firstStanding (bill .null).raw leaf = firstStanding (bill (.int 2)).raw leaf := by
    intro _ leaf
    rw [firstStanding, firstStanding, hkeys]
  obtain ⟨results, s, hrun⟩ := Action.exists_of_isOk hok
  obtain ⟨results', s', hrun'⟩ := Action.exists_of_isOk hok'
  exact ⟨results, results', s, s', hrun, hrun', evaluateAll_local {} hops hlocal hreserved
    hcalculated hmetadata (hkeys ▸ hn) hn hraw hfirst hrun hrun'⟩

/-! ## The place of keys -/

/-- A field that shows what a name stands for. -/
def shownPart : List Operation := [.register "shown" (some "part + 0") none .null]

/-- Two dotted ids with one last part, and an entry of its own. -/
def parts (entry : Value) : Offer :=
  { raw := ⟨[(.text "left.part", .int 1), (.text "right.part", .int 2), (.text "x", entry)]⟩ }

/-- The same with the other dotted id first. -/
def partsSwapped (entry : Value) : Offer :=
  { raw := ⟨[(.text "right.part", .int 2), (.text "left.part", .int 1), (.text "x", entry)]⟩ }

theorem dependsOn_shownPart {y d : String}
    (h : (after (create {}) shownPart).graph.DependsOn y d) : d = "part" := by
  have hall : ∀ e ∈ (after (create {}) shownPart).graph.nodes.entries,
      ∀ d ∈ e.2.dependencies, d = "part" := by decide +kernel
  obtain ⟨n, hn, hd⟩ := h
  exact hall (y, n) (Table.mem_of_get? hn) d hd

/-- A change under one name, with the other keys in another order, shows in a field that does not
depend on that name. -/
theorem not_local :
    (∀ op ∈ shownPart, op.isSimple) ∧ isLocalName "x" ∧ ¬Expr.isReserved "x" ∧
      (∀ k, k ≠ .text "x" →
        (partsSwapped (.int 1)).raw.get? k = (parts (.int 0)).raw.get? k) ∧
      ¬TransGen (after (create {}) shownPart).graph.DependsOn "shown" "x" ∧
      ∃ results results' s s',
        (evaluateAll (.int 0) (parts (.int 0))).run (after (create {}) shownPart) =
          (.ok results, s) ∧
        (evaluateAll (.int 0) (partsSwapped (.int 1))).run (after (create {}) shownPart) =
          (.ok results', s') ∧
        results'.get? "shown" ≠ results.get? "shown" := by
  refine ⟨by decide +kernel, by decide +kernel, by decide +kernel, fun k hk => ?_, fun h => ?_, ?_⟩
  · by_cases hleft : k = .text "left.part"
    · subst hleft
      rfl
    · by_cases hright : k = .text "right.part"
      · subst hright
        rfl
      · simp [parts, partsSwapped, Table.get?, List.lookup_cons, beq_text_eq_false hk,
          beq_text_eq_false hleft, beq_text_eq_false hright]
  · obtain ⟨y, -, hy⟩ := TransGen.tail'_iff.mp h
    exact absurd (dependsOn_shownPart hy) (by decide)
  · let run (offer : Offer) := (evaluateAll (.int 0) offer).run (after (create {}) shownPart)
    let showsOne (r : Except Abort Context × Session) : Bool :=
      (r.1.toOption.bind fun results => results.get? "shown").any (Value.equal (.int 1))
    have hok : (run (parts (.int 0))).1.isOk := by decide +kernel
    have hok' : (run (partsSwapped (.int 1))).1.isOk := by decide +kernel
    have hone : showsOne (run (parts (.int 0))) = true := by decide +kernel
    have hother : showsOne (run (partsSwapped (.int 1))) = false := by decide +kernel
    obtain ⟨results, s, hrun⟩ := Action.exists_of_isOk hok
    obtain ⟨results', s', hrun'⟩ := Action.exists_of_isOk hok'
    rw [hrun] at hone
    rw [hrun'] at hother
    refine ⟨results, results', s, s', hrun, hrun', fun heq => ?_⟩
    have hsame : showsOne (.ok results', s') = showsOne (.ok results, s) :=
      congrArg (fun v => Option.any (Value.equal (.int 1)) v) heq
    rw [hone, hother] at hsame
    cases hsame

end LiveForm.Session
