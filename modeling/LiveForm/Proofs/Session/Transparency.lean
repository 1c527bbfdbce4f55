import LiveForm.Proofs.Session.Lockstep
import LiveForm.Proofs.Snapshot

/-! # When remembering answers does not show

A session with a staleness window is compared with one that forgets at once. They report the same as
long as the key of an answer tells apart what its expression does: between two consultations of a
field that share a key within the window, the same of the ids that the expression can look up are
bound, and the ids that it read hold the same values. Of an id that the key covers it is enough that
its values are the same if they have the same JSON text, since the key holds that text. -/

namespace LiveForm

/-- A time lies less than the window back, as the cache sees it. -/
def Fresh (window time now : Number) : Prop :=
  ∃ age, now.sub time = .ok age ∧ age.ge window = false

theorem Cache.isStale_eq_false_iff {α : Type} {c : Cache α} {now : Number} {e : CacheEntry α} :
    c.isStale now e = false ↔ Fresh c.window e.time now := by
  unfold Cache.isStale Fresh
  cases now.sub e.time with
  | error cause => simp
  | ok age => simp

/-- Readings of a clock that never runs backwards: no reading lies less than no time back. -/
def ClockRuns : List Number → Prop
  | [] => True
  | time :: later => (∀ now ∈ time :: later, ¬Fresh (.float 0) time now) ∧ ClockRuns later

namespace Settings

/-- The settings of a session that forgets at once. -/
def forgetful (settings : Settings) : Settings := { settings with stalenessWindow := 0 }

end Settings

namespace Session

open LiveForm.Action

/-- What the key of a consultation leaves open is nothing that evaluating the tree would notice at a
later one. -/
structure Told (e : Expr) (a b : Consultation) : Prop where
  bound : Expr.SameBound a.scope b.scope e.probes
  covered : ∀ x ∈ (e.evaluate a.scope).reads, x ∈ a.ids → ∀ v w, a.scope x = some v →
    b.scope x = some w → jsonText v = jsonText w → v = w
  uncovered : ∀ x ∈ (e.evaluate a.scope).reads, x ∉ a.ids → b.scope x = a.scope x

/-- Two consultations of a history, the second later: they may share an answer within the window only
if the key told what there was to tell. -/
def Tells (window : Number) (a b : Consultation) : Prop :=
  a.key = b.key → Fresh window a.time b.time →
    ∀ e, Expr.parse a.key.expression = .ok e → Told e a b

/-- The same with what the forgetting session needs: that time has passed. -/
def Follows (window : Number) (a b : Consultation) : Prop :=
  Tells window a b ∧ ¬Fresh (.float 0) a.time b.time

/-- An evaluation cannot tell scopes apart whose difference the key tells. -/
theorem Told.evaluate_eq {e : Expr} {a b : Consultation} {text : String} (h : Told e a b)
    (ha : snapshot a.scope a.ids = .ok text) (hb : snapshot b.scope b.ids = .ok text) :
    e.evaluate b.scope = e.evaluate a.scope := by
  refine e.evaluateWithin_congr depthLimit h.bound fun x hx => ?_
  by_cases hc : x ∈ a.ids
  · have hshown := (snapshot_covers ha hb hc).2
    have hsome := h.bound x (e.reads_subset_probes depthLimit a.scope hx)
    cases hv : a.scope x with
    | none => simpa [hv] using hsome
    | some v =>
      obtain ⟨w, hw⟩ := Option.isSome_iff_exists.mp (hsome.trans (by rw [hv]; rfl))
      have htext : jsonText v = jsonText w := by
        have : shownIn b.scope x = shownIn a.scope x := hshown
        simpa [shownIn, hv, hw] using this.symm
      rw [hw, h.covered x hx hc v w hv hw htext]
  · exact h.uncovered x hx hc

section Steps

variable {window now : Number} {log : List Consultation} {s r : Session} {q : Consultation}

theorem not_recalled (h : Remembers (.float 0) log r) (hq : ∀ b ∈ log, Follows window b q)
    (ht : q.time = now) : (r.cache.get now q.key).1 = none := by
  refine Cache.get_eq_none fun e he => ?_
  obtain ⟨b, hb, hback⟩ := h.accounted q.key e he
  have hf := (hq b hb).2
  rw [hback.time_eq, ht, ← h.window_eq] at hf
  by_contra hs
  exact hf (Cache.isStale_eq_false_iff.mp (by simpa using hs))

/-- An answer that is served is what the evaluation would give. -/
theorem reply_of_recalled (h : Remembers window log s) (hq : ∀ b ∈ log, Follows window b q)
    (ht : q.time = now) (hk : snapshot q.scope q.ids = .ok q.key.snapshot) {a : Answer}
    (ha : (s.cache.get now q.key).1 = some a) :
    Engine.reply q.key.expression q.scope = .ok a := by
  obtain ⟨-, e, he, hs, rfl⟩ := Cache.holds_of_get (Prod.ext ha rfl)
  obtain ⟨b, hb, hback⟩ := h.accounted q.key e he
  have hfresh : Fresh window b.time q.time := by
    rw [hback.time_eq, ht, ← h.window_eq]
    exact Cache.isStale_eq_false_iff.mp hs
  rw [← hback.reply_eq]
  refine Engine.reply_congr fun t hp => ?_
  have htold := (hq b hb).1 hback.key_eq hfresh t (by rw [hback.key_eq]; exact hp)
  exact htold.evaluate_eq hback.snapshot_eq hk

theorem alike_answer (h : Lockstep window log s r) {n : Node} {expression : String}
    {working : Context} (hc : consult now n expression working = .ok q)
    (hq : ∀ b ∈ log, Follows window b q) :
    Alike window (log ++ [q]) (answer now n expression working) s r := by
  obtain ⟨-, ht, -, rfl, hk⟩ := consult_eq_ok hc
  obtain ⟨g, hg, hr⟩ := answer_new h.right.faithful hc (not_recalled h.right hq ht)
  have hsub : log ⊆ log ++ [q] := List.subset_append_left log [q]
  unfold Alike
  cases hs : (s.cache.get now q.key).1 with
  | some a =>
    obtain ⟨g', hg', hs'⟩ := answer_recalled h.left.faithful hc hs
    have hrep := reply_of_recalled h.left hq ht hk hs
    rw [hrep] at hr
    rw [hs', hr]
    refine ⟨rfl, h.face_eq, ?_, ?_⟩
    · exact (h.left.transfer hg' Cache.window_get fun k e => Cache.Holds.of_get).mono hsub
    · refine h.right.set ⟨rfl, ht, hk, hrep⟩ hg Cache.window_get fun k e hm => ?_
      exact hm.of_set.imp Cache.Holds.of_get id
  | none =>
    obtain ⟨g', hg', hs'⟩ := answer_new h.left.faithful hc hs
    rw [hs', hr]
    cases hrep : Engine.reply q.key.expression q.scope with
    | error c =>
      refine ⟨rfl, h.face_eq, ?_, ?_⟩
      · exact (h.left.transfer hg' Cache.window_get fun k e => Cache.Holds.of_get).mono hsub
      · exact (h.right.transfer hg Cache.window_get fun k e => Cache.Holds.of_get).mono hsub
    | ok a =>
      refine ⟨rfl, h.face_eq, ?_, ?_⟩
      · refine h.left.set ⟨rfl, ht, hk, hrep⟩ hg' Cache.window_get fun k e hm => ?_
        exact hm.of_set.imp Cache.Holds.of_get id
      · refine h.right.set ⟨rfl, ht, hk, hrep⟩ hg Cache.window_get fun k e hm => ?_
        exact hm.of_set.imp Cache.Holds.of_get id

theorem alike_stepPlain (h : Lockstep window log s r) (raw : Context) (n : Node) (p : Pass) :
    Alike window log (stepPlain raw n p) s r := by
  unfold stepPlain
  cases plainValue? raw n p with
  | none => exact .bind (alike_modifyNode h _ _) fun _ _ _ h => .pure h _
  | some v =>
    exact .bind (alike_modifyNode h _ _) fun _ _ _ h =>
      .get h.face_eq (fun _ => rfl) (.orAbort h _)

theorem alike_stepComputed (h : Lockstep window log s r) {n : Node} {expression : String}
    {p : Pass} (hc : consult now n expression p.working = .ok q)
    (hq : ∀ b ∈ log, Follows window b q) (raw : Context) :
    Alike window (log ++ [q]) (stepComputed now raw n expression p) s r := by
  refine .bind (alike_answer h hc hq) fun a _ _ h => ?_
  exact .bind (alike_modifyNode h _ _) fun _ _ _ h =>
    .get h.face_eq (fun _ => rfl) (.orAbort h _)

theorem alike_stepComputed_aborted (h : Lockstep window log s r) {n : Node} {expression : String}
    {p : Pass} {c : Abort} (hc : consult now n expression p.working = .error c) (raw : Context) :
    Alike window log (stepComputed now raw n expression p) s r := by
  obtain ⟨g, hg, hs⟩ := answer_aborted h.left.faithful hc
  obtain ⟨g', hg', hr⟩ := answer_aborted h.right.faithful hc
  unfold Alike
  rw [stepComputed, run_bind_error hs, run_bind_error hr]
  exact ⟨rfl, h.face_eq, h.left.transfer hg rfl fun _ _ hk => hk,
    h.right.transfer hg' rfl fun _ _ hk => hk⟩

theorem alike_step (h : Lockstep window log s r) (raw : Context) (p : Pass) (id : String)
    (hq : ∀ b ∈ log, ∀ q ∈ (consultation? now p id r).toList, Follows window b q) :
    Alike window (log ++ (consultation? now p id r).toList) (step now raw p id) s r := by
  have hg : r.graph = s.graph := (congrArg Session.graph h.face_eq).symm
  refine .get h.face_eq (fun _ => rfl) ?_
  unfold consultation? at hq ⊢
  rw [hg] at hq ⊢
  cases hn : s.graph.nodes.get? id with
  | none => simpa using Alike.pure h p
  | some n =>
    rw [hn] at hq
    cases he : n.expression with
    | none => simpa [he] using alike_stepPlain h raw n p
    | some expression =>
      cases hc : consult now n expression p.working with
      | error c => simpa [he, hc, Except.toOption] using alike_stepComputed_aborted h hc raw
      | ok q =>
        have hq : ∀ b ∈ log, Follows window b q := by
          simpa [he, hc, Except.toOption] using hq
        simpa [he, hc, Except.toOption] using alike_stepComputed h hc hq raw

/-- The steps of a pass, by induction on the order. -/
theorem alike_steps (h : Lockstep window log s r) (raw : Context) (ids : List String) (p : Pass)
    (hq : (log ++ stepConsultations now raw ids p r).Pairwise (Follows window)) :
    Alike window (log ++ stepConsultations now raw ids p r) (ids.foldlM (step now raw) p) s r := by
  induction ids generalizing s r log p with
  | nil => simpa [stepConsultations] using Alike.pure h p
  | cons id rest ih =>
    rw [List.foldlM_cons]
    rw [stepConsultations, ← List.append_assoc] at hq ⊢
    obtain ⟨hfirst, -, -⟩ := List.pairwise_append.mp hq
    obtain ⟨-, -, hstep⟩ := List.pairwise_append.mp hfirst
    refine (alike_step h raw p id hstep).grow (List.subset_append_left _ _) ?_
    intro a t u _ hu h
    rw [hu] at hq ⊢
    exact ih h a hq

end Steps

/-! ## Passes and histories -/

section Histories

variable {window : Number} {log : List Consultation} {s r : Session}

theorem alike_sweep (h : Lockstep window log s r) {now : Number} {offer : Offer}
    (hq : (log ++ (Operation.evaluateAll now offer).consultations r).Pairwise (Follows window)) :
    Alike window (log ++ (Operation.evaluateAll now offer).consultations r) (sweep now offer) s r := by
  refine (alike_opening h offer).grow (List.subset_append_left _ _) ?_
  intro o t u _ hu h
  obtain ⟨raw, start⟩ := o
  rw [Operation.consultations_evaluateAll, hu] at hq ⊢
  dsimp only at hq ⊢
  have hg : u.graph = t.graph := (congrArg Session.graph h.face_eq).symm
  refine .get h.face_eq (fun _ => rfl) ?_
  rw [hg] at hq ⊢
  exact alike_steps h raw t.graph.order start hq

theorem alike_evaluateAll (h : Lockstep window log s r) {now : Number} {offer : Offer}
    (hq : (log ++ (Operation.evaluateAll now offer).consultations r).Pairwise (Follows window)) :
    Alike window (log ++ (Operation.evaluateAll now offer).consultations r)
      (evaluateAll now offer) s r := by
  refine .bind (alike_sweep h hq) fun p _ _ h => ?_
  exact .get h.face_eq (fun _ => rfl) (.bind (.modify h (outward_publish _)) fun _ _ _ h => .pure h _)

theorem reports_eq (h : Lockstep window log s r) (ops : List Operation)
    (hq : (log ++ consultations ops r).Pairwise (Follows window)) :
    reports ops s = reports ops r := by
  induction ops generalizing s r log with
  | nil => rfl
  | cons op rest ih =>
    rw [consultations, ← List.append_assoc] at hq
    obtain ⟨hfirst, -, -⟩ := List.pairwise_append.mp hq
    have hnext : Lockstep window (log ++ op.consultations r) (op.perform s) (op.perform r) ∧
        op.report? s = op.report? r := by
      cases op with
      | evaluateAll now offer =>
        obtain ⟨ho, hl⟩ := alike_evaluateAll h hfirst
        have he := congrArg (fun s => s.face.errors) hl.face_eq
        exact ⟨hl, congrArg some (congr (congrArg Report.mk ho) he)⟩
      | _ => exact ⟨(h.perform rfl).mono (List.subset_append_left _ _), rfl⟩
    rw [reports, reports, hnext.2, ih hnext.1 hq]

theorem lockstep_create (settings : Settings) :
    Lockstep (.float settings.stalenessWindow) [] (create settings) (create settings.forgetful) :=
  ⟨rfl, ⟨Engine.faithful_new, rfl, fun _ _ h => absurd h (Cache.not_holds_new _)⟩,
    ⟨Engine.faithful_new, rfl, fun _ _ h => absurd h (Cache.not_holds_new _)⟩⟩

/-- Between consultations of a history time passes as between its operations. -/
theorem pairwise_of_clockRuns {ops : List Operation} (h : ClockRuns (ops.filterMap Operation.time?))
    (s : Session) :
    (consultations ops s).Pairwise fun a b => ¬Fresh (.float 0) a.time b.time := by
  induction ops generalizing s with
  | nil => exact .nil
  | cons op rest ih =>
    cases ht : op.time? with
    | none =>
      have hnone : op.consultations s = [] := List.eq_nil_iff_forall_not_mem.mpr fun q hq => by
        rw [Operation.time?_of_consultations hq] at ht
        cases ht
      rw [List.filterMap_cons_none ht] at h
      rw [consultations, hnone]
      exact ih h _
    | some now =>
      rw [List.filterMap_cons_some ht] at h
      obtain ⟨hnow, hlater⟩ := h
      have htime : ∀ q ∈ op.consultations s, q.time = now := fun q hq =>
        Option.some.inj ((Operation.time?_of_consultations hq).symm.trans ht)
      rw [consultations]
      refine List.pairwise_append.mpr ⟨?_, ih hlater _, fun a ha b hb => ?_⟩
      · refine List.pairwise_of_forall_mem_list fun a ha b hb => ?_
        rw [htime a ha, htime b hb]
        exact hnow now (by simp)
      · rw [htime a ha]
        exact hnow b.time (List.mem_cons_of_mem _ (time_mem_of_consultations hb))

/-- **Remembering answers does not show, as long as keys tell.** Whatever the staleness window, a
history gives the same reports as one that forgets at once: the same results or the same abort of
every pass, and the same errors after it. It is asked that the clock does not run backwards, and that
two consultations which share a key within the window differ in nothing that the expression notices
and the key leaves open. -/
theorem reports_eq_forgetful (settings : Settings) (ops : List Operation)
    (hclock : ClockRuns (ops.filterMap Operation.time?))
    (htold : (consultations ops (create settings.forgetful)).Pairwise
      (Tells (.float settings.stalenessWindow))) :
    reports ops (create settings) = reports ops (create settings.forgetful) :=
  reports_eq (lockstep_create settings) ops (htold.and (pairwise_of_clockRuns hclock _))

/-- A key tells everything when the scopes agree on the names of the expression. -/
theorem tells_of_agree {window : Number} {a b : Consultation} (h : ∀ e,
    Expr.parse a.key.expression = .ok e → ∀ x ∈ e.probes, b.scope x = a.scope x) :
    Tells window a b := by
  intro _ _ e he
  have hread : ∀ x ∈ (e.evaluate a.scope).reads, b.scope x = a.scope x :=
    fun x hx => h e he x (e.reads_subset_probes depthLimit a.scope hx)
  refine ⟨fun x hx => by rw [h e he x hx], fun x hx _ v w hv hw _ => ?_, fun x hx _ => hread x hx⟩
  rw [hread x hx, hv] at hw
  exact Option.some.inj hw

end Histories

/-! ## A price that is entered twice -/

/-- A field that shows the price, evaluated for a price of one and again for the same. -/
def samePriceTwice : List Operation :=
  let offer : Offer := { raw := ⟨[(.text "price", .int 1)]⟩ }
  [.register "shown" (some "price") none .null, .evaluateAll (.int 0) offer,
    .evaluateAll (.int 0) offer]

/-- A consultation of that field for a price of one. -/
def isOfPrice (q : Consultation) : Bool :=
  q.key.expression == "price" &&
    match q.scope "price" with
    | some (.int n) => n == 1
    | _ => false

theorem clockRuns_at_zero : ClockRuns [.int 0, .int 0] := by
  have h : ¬Fresh (.float 0) (.int 0) (.int 0) := by
    rintro ⟨age, ha, hg⟩
    obtain rfl : Number.int 0 = age := Except.ok.inj ha
    revert hg
    decide +kernel
  simp [ClockRuns, h]

theorem reports_samePriceTwice :
    (consultations samePriceTwice (create ({} : Settings).forgetful)).length = 2 ∧
      reports samePriceTwice (create {}) = reports samePriceTwice (create ({} : Settings).forgetful) := by
  refine ⟨by decide +kernel, reports_eq_forgetful {} samePriceTwice clockRuns_at_zero ?_⟩
  have hall : (consultations samePriceTwice (create ({} : Settings).forgetful)).all isOfPrice := by
    decide +kernel
  have hparse : (Expr.parse "price").toOption.all fun e => e.probes == ["price"] := by
    decide +kernel
  have price {q : Consultation} (hq : isOfPrice q) :
      q.key.expression = "price" ∧ q.scope "price" = some (.int 1) := by
    obtain ⟨hk, hv⟩ := Bool.and_eq_true_iff.mp hq
    refine ⟨eq_of_beq hk, ?_⟩
    split at hv
    · rename_i n hn
      rw [hn, eq_of_beq hv]
    · cases hv
  refine List.pairwise_of_forall_mem_list fun a ha b hb => tells_of_agree fun e he x hx => ?_
  obtain ⟨hka, hva⟩ := price (List.all_eq_true.mp hall a ha)
  obtain ⟨-, hvb⟩ := price (List.all_eq_true.mp hall b hb)
  rw [hka] at he
  rw [he] at hparse
  obtain rfl : x = "price" := by simpa [eq_of_beq hparse] using hx
  rw [hva, hvb]

/-! ## What keys do not tell -/

/-- A field `shown` is evaluated for two entries at one time. -/
def shownTwice (text : String) (first second : List (Key × Value)) : List Operation :=
  [.register "shown" (some text) none .null, .evaluateAll (.int 0) { raw := ⟨first⟩ },
    .evaluateAll (.int 0) { raw := ⟨second⟩ }]

/-- A price that is missing and then null. -/
def missingThenNull : List Operation := shownTwice "price" [] [(.text "price", .null)]

/-- A value under a name that is reserved, so that no key covers it. -/
def reservedName : List Operation :=
  shownTwice "Math" [(.text "Math", .int 1)] [(.text "Math", .int 2)]

/-- A mapping whose entries change places; text that is made of it shows their order. -/
def reordered : List Operation :=
  let a : Key × Value := (.text "a", .int 1)
  let b : Key × Value := (.text "b", .int 2)
  shownTwice "'' + pair" [(.text "pair", .mapping [a, b])] [(.text "pair", .mapping [b, a])]

/-- The fields with an error, and what is reported of the field `shown`. -/
def shownText (r : Report) : List String × Option String :=
  (r.errors.keys, (r.outcome.toOption.bind (Table.get? · "shown")).bind fun v => (jsonText v).toOption)

/-- Remembering answers does not show in a history, whatever its keys tell. -/
def Transparent (settings : Settings) (ops : List Operation) : Prop :=
  ClockRuns (ops.filterMap Operation.time?) →
    reports ops (create settings) = reports ops (create settings.forgetful)

theorem not_transparent_of_shownText {settings : Settings} {ops : List Operation}
    (hclock : ClockRuns (ops.filterMap Operation.time?))
    (hd : (reports ops (create settings)).map shownText ≠
      (reports ops (create settings.forgetful)).map shownText) : ¬Transparent settings ops :=
  fun h => hd (congrArg (List.map shownText) (h hclock))

/-- Each of the three conditions on keys is needed: an answer is served again although a missing value
has become null, although a value has changed that the key leaves out, and although a mapping has
changed its order. -/
theorem not_transparent :
    ¬Transparent {} missingThenNull ∧ ¬Transparent {} reservedName ∧ ¬Transparent {} reordered := by
  refine ⟨?_, ?_, ?_⟩
  · exact not_transparent_of_shownText clockRuns_at_zero (by decide +kernel)
  · exact not_transparent_of_shownText clockRuns_at_zero (by decide +kernel)
  · exact not_transparent_of_shownText clockRuns_at_zero (by decide +kernel)

end Session

end LiveForm
