import LiveForm.Proofs.Cache
import LiveForm.Proofs.Number.Exact
import Mathlib.Data.List.Induction
import Mathlib.Tactic.Linarith

/-! # A cache over any history of calls

What is left of a history is, for each field, its latest operation: a cache answers with what the latest
`set` of the field wrote, as long as nothing has discarded it since and it is younger than the window.
Calls to `get` leave no trace in that, although they forget what they find to be stale: time does not
run backward, so what was stale once is stale ever after. -/

namespace LiveForm

open Extended

/-- The exact time from one reading of the clock to another; both are finite. -/
def Elapsed (time now : Number) (d : ℚ) : Prop :=
  ∃ p q : ℚ, time.value? = some (ofRat p) ∧ now.value? = some (ofRat q) ∧ d = q - p

/-- Readings that do not decrease, in their order, whose differences are not rounded. -/
def ExactClock (readings : List Number) : Prop :=
  readings.Pairwise fun time now => ∃ d age, Elapsed time now d ∧ 0 ≤ d ∧
    now.sub time = .ok age ∧ age.value? = some (ofRat d)

theorem Elapsed.unique {time now : Number} {d d' : ℚ} (h : Elapsed time now d)
    (h' : Elapsed time now d') : d = d' := by
  obtain ⟨p, q, hp, hq, rfl⟩ := h
  obtain ⟨p', q', hp', hq', rfl⟩ := h'
  rw [hp, Option.some_inj, ofRat_inj] at hp'
  rw [hq, Option.some_inj, ofRat_inj] at hq'
  rw [hp', hq']

/-- An age only grows. -/
theorem Elapsed.le {time now later : Number} {d d' g : ℚ} (h : Elapsed time now d)
    (hg : Elapsed now later g) (h' : Elapsed time later d') (hle : 0 ≤ g) : d ≤ d' := by
  obtain ⟨p, q, hp, hq, rfl⟩ := h
  obtain ⟨q', r, hq', hr, rfl⟩ := hg
  obtain ⟨p', r', hp', hr', rfl⟩ := h'
  rw [hp, Option.some_inj, ofRat_inj] at hp'
  rw [hq, Option.some_inj, ofRat_inj] at hq'
  rw [hr, Option.some_inj, ofRat_inj] at hr'
  subst hp' hq' hr'
  linarith

namespace Cache

variable {α : Type}

/-- A call with what it is given: the clock's reading, the key, the result. -/
inductive Call (α : Type) where
  | set (now : Number) (key : CacheKey) (result : α)
  | get (now : Number) (key : CacheKey)
  | discard (field : String)
  | clear

namespace Call

/-- What a call leaves of the cache. -/
def perform (c : Cache α) : Call α → Cache α
  | set now key result => c.set now key result
  | get now key => (c.get now key).2
  | discard field => (c.discard field).2
  | clear => c.clear

def reading? : Call α → Option Number
  | set now _ _ => some now
  | get now _ => some now
  | discard _ => none
  | clear => none

/-- Whether the call writes or empties the slot of the field. -/
def concerns (field : String) : Call α → Bool
  | set _ key _ => key.field == field
  | get _ _ => false
  | discard f => f == field
  | clear => true

end Call

/-- The cache after a history of calls, the first one first. -/
def afterCalls (window : Number) (calls : List (Call α)) : Cache α :=
  calls.foldl Call.perform { window := window }

/-- The latest call that wrote or emptied the slot of the field. -/
def latest? (calls : List (Call α)) (field : String) : Option (Call α) :=
  (calls.filter (Call.concerns field)).getLast?

def readings (calls : List (Call α)) : List Number := calls.filterMap Call.reading?

variable {window now time : Number} {calls : List (Call α)} {call : Call α} {c : Cache α}
  {key k : CacheKey} {e : CacheEntry α} {a : α} {field : String}

theorem latest?_append : latest? (calls ++ [call]) field =
    if call.concerns field then some call else latest? calls field := by
  unfold latest?
  rw [List.filter_append]
  cases h : call.concerns field <;> simp [h]

theorem mem_of_latest? (h : latest? calls field = some call) : call ∈ calls :=
  (List.mem_filter.mp (List.mem_of_getLast? h)).1

theorem readings_append :
    readings (calls ++ [call]) = readings calls ++ call.reading?.toList := by
  unfold readings
  rw [List.filterMap_append]
  cases h : call.reading? <;> simp [h]

theorem readings_sublist_append : (readings calls).Sublist (readings (calls ++ [call])) := by
  rw [readings_append]
  exact List.sublist_append_left _ _

theorem time_mem_readings (h : .set time key a ∈ calls) : time ∈ readings calls :=
  List.mem_filterMap.mpr ⟨_, h, rfl⟩

theorem window_perform : (call.perform c).window = c.window := by
  cases call with
  | get now key => exact window_get
  | _ => rfl

theorem isStale_perform : (call.perform c).isStale now e = c.isStale now e := by
  rw [isStale, isStale, window_perform]

/-- What a cache has kept of a history. An entry is what the latest call about its field has set; and
what that call has set is still there, unless a later reading found it stale. -/
structure Tracks (calls : List (Call α)) (c : Cache α) : Prop where
  onePerField : c.OnePerField
  latest_of_holds : ∀ key e, c.Holds key e →
    latest? calls key.field = some (.set e.time key e.result)
  kept : ∀ key time a, latest? calls key.field = some (.set time key a) → c.Holds key ⟨a, time⟩ ∨
    ∃ now, [time, now].Sublist (readings calls) ∧ c.isStale now ⟨a, time⟩ = true

theorem tracks_new (window : Number) : Tracks [] ({ window := window } : Cache α) where
  onePerField := onePerField_new window
  latest_of_holds _ _ h := absurd h (not_holds_new window)
  kept _ _ _ h := by cases h

namespace Tracks

/-- A call about other slots keeps what there is to say of a slot, if it keeps the entry there or reads
the clock and finds it stale. -/
theorem kept_of_not_concerns (h : Tracks calls c) (hno : call.concerns key.field = false)
    (hl : latest? (calls ++ [call]) key.field = some (.set time key a))
    (hkeeps : c.Holds key ⟨a, time⟩ → (call.perform c).Holds key ⟨a, time⟩ ∨
      ∃ now, call.reading? = some now ∧ c.isStale now ⟨a, time⟩ = true) :
    (call.perform c).Holds key ⟨a, time⟩ ∨ ∃ now, [time, now].Sublist (readings (calls ++ [call])) ∧
      (call.perform c).isStale now ⟨a, time⟩ = true := by
  rw [latest?_append, hno] at hl
  simp only [isStale_perform]
  rcases h.kept key time a hl with hk | ⟨now, hsub, hs⟩
  · refine (hkeeps hk).imp id fun ⟨now, hr, hs⟩ => ⟨now, ?_, hs⟩
    rw [readings_append, hr]
    exact (List.singleton_sublist.mpr (time_mem_readings (mem_of_latest? hl))).append_right [now]
  · exact .inr ⟨now, hsub.trans readings_sublist_append, hs⟩

theorem set (h : Tracks calls c) (now : Number) (key : CacheKey) (a : α) :
    Tracks (calls ++ [.set now key a]) (c.set now key a) where
  onePerField := h.onePerField.set
  latest_of_holds k e hk := by
    rw [latest?_append]
    rcases holds_set_iff.mp hk with ⟨hk, hne⟩ | ⟨rfl, rfl⟩
    · rw [if_neg (by simpa [Call.concerns] using hne.symm)]
      exact h.latest_of_holds k e hk
    · rw [if_pos (by simp [Call.concerns])]
  kept k time b hl := by
    by_cases hf : k.field = key.field
    · rw [latest?_append, if_pos (by simp [Call.concerns, hf])] at hl
      cases hl
      exact .inl (holds_set_iff.mpr (.inr ⟨rfl, rfl⟩))
    · refine h.kept_of_not_concerns (by simpa [Call.concerns] using Ne.symm hf) hl fun hk => .inl ?_
      exact holds_set_iff.mpr (.inl ⟨hk, hf⟩)

theorem get (h : Tracks calls c) (now : Number) (key : CacheKey) :
    Tracks (calls ++ [.get now key]) (c.get now key).2 where
  onePerField := h.onePerField.get
  latest_of_holds k e hk := by
    rw [latest?_append]
    exact h.latest_of_holds k e hk.of_get
  kept k time b hl := by
    refine h.kept_of_not_concerns rfl hl fun hk => ?_
    cases hs : c.isStale now ⟨b, time⟩ with
    | true => exact .inr ⟨now, rfl, hs⟩
    | false => exact .inl (h.onePerField.holds_get_iff.mpr ⟨hk, fun _ => hs⟩)

theorem discard (h : Tracks calls c) (field : String) :
    Tracks (calls ++ [.discard field]) (c.discard field).2 where
  onePerField := h.onePerField.discard field
  latest_of_holds k e hk := by
    obtain ⟨hk, hne⟩ := holds_discard_iff.mp hk
    rw [latest?_append, if_neg (by simpa [Call.concerns] using hne.symm)]
    exact h.latest_of_holds k e hk
  kept k time b hl := by
    by_cases hf : k.field = field
    · rw [latest?_append, if_pos (by simp [Call.concerns, hf])] at hl
      cases hl
    · refine h.kept_of_not_concerns (by simpa [Call.concerns] using Ne.symm hf) hl fun hk => .inl ?_
      exact holds_discard_iff.mpr ⟨hk, hf⟩

theorem clear (_ : Tracks calls c) : Tracks (calls ++ [.clear]) c.clear where
  onePerField := List.nodup_nil
  latest_of_holds k e hk := nomatch hk
  kept k time b hl := by
    rw [latest?_append, if_pos (by rfl)] at hl
    cases hl

theorem perform (h : Tracks calls c) (call : Call α) :
    Tracks (calls ++ [call]) (call.perform c) := by
  cases call with
  | set now key a => exact h.set now key a
  | get now key => exact h.get now key
  | discard field => exact h.discard field
  | clear => exact h.clear

end Tracks

theorem afterCalls_append (window : Number) (calls : List (Call α)) (call : Call α) :
    afterCalls window (calls ++ [call]) = call.perform (afterCalls window calls) :=
  List.foldl_concat ..

theorem tracks_afterCalls (window : Number) (calls : List (Call α)) :
    Tracks calls (afterCalls window calls) := by
  induction calls using List.reverseRecOn with
  | nil => exact tracks_new window
  | append_singleton calls call ih =>
    rw [afterCalls_append]
    exact ih.perform call

theorem window_afterCalls (window : Number) (calls : List (Call α)) :
    (afterCalls window calls).window = window := by
  induction calls using List.reverseRecOn with
  | nil => rfl
  | append_singleton calls call ih => rw [afterCalls_append, window_perform, ih]

/-- An entry is fresh while its exact age is below the window. -/
theorem isStale_iff {w : Extended} {d : ℚ} (hw : c.window.value? = some w)
    (hclock : ExactClock [time, now]) (hd : Elapsed time now d) :
    c.isStale now ⟨a, time⟩ = true ↔ w ≤ ofRat d := by
  obtain ⟨d', age, hd', -, hsub, hage⟩ := List.pairwise_pair.mp hclock
  obtain rfl := hd.unique hd'
  rw [isStale, hsub]
  exact Number.ge_iff hage hw

/-- **A cache answers with what the latest call about the field has set, while its age is less than the
window.** After any history of calls a field has at most one entry, and discarding counts it. The exact
clock is what the readings of the history, and the one now, have to be; the window may be any number
that is not undefined, also zero or infinite. -/
theorem get_eq_latest (window : Number) (calls : List (Call α)) :
    (afterCalls window calls).OnePerField ∧
    (∀ field, ((afterCalls window calls).discard field).1 =
      if field ∈ (afterCalls window calls).fields then 1 else 0) ∧
    ∀ w now key a, window.value? = some w → ExactClock (readings calls ++ [now]) →
      (((afterCalls window calls).get now key).1 = some a ↔
        ∃ time d, latest? calls key.field = some (.set time key a) ∧ Elapsed time now d ∧
          ofRat d < w) := by
  have h := tracks_afterCalls window calls
  refine ⟨h.onePerField, h.onePerField.discard_fst, fun w now key a hw hclock => ?_⟩
  rw [← window_afterCalls window calls] at hw
  rw [h.onePerField.get_eq_some_iff]
  have hpair {time : Number} (hl : latest? calls key.field = some (.set time key a)) :
      ExactClock [time, now] :=
    hclock.sublist ((List.singleton_sublist.mpr (time_mem_readings (mem_of_latest? hl))).append_right
      [now])
  constructor
  · rintro ⟨time, hk, hfresh⟩
    have hl := h.latest_of_holds key _ hk
    obtain ⟨d, -, hd, -⟩ := List.pairwise_pair.mp (hpair hl)
    refine ⟨time, d, hl, hd, lt_of_not_ge fun hle => ?_⟩
    rw [(isStale_iff hw (hpair hl) hd).mpr hle] at hfresh
    cases hfresh
  · rintro ⟨time, d, hl, hd, hlt⟩
    refine ⟨time, ?_, ?_⟩
    · refine (h.kept key time a hl).resolve_right fun ⟨earlier, hsub, hs⟩ => ?_
      -- What an earlier reading found stale would have reached the window by now.
      have hthree : ExactClock [time, earlier, now] := hclock.sublist (hsub.append_right [now])
      obtain ⟨hfirst, hrest⟩ := List.pairwise_cons.mp hthree
      obtain ⟨d', age, hd', h0, hage⟩ := hfirst earlier (by simp)
      obtain ⟨g, -, hg, hg0, -⟩ := List.pairwise_pair.mp hrest
      have htwo : ExactClock [time, earlier] := List.pairwise_pair.mpr ⟨d', age, hd', h0, hage⟩
      have hle : ofRat d' ≤ ofRat d := ofRat_le.mpr (hd'.le hg hd hg0)
      exact absurd (((isStale_iff hw htwo hd').mp hs).trans hle) (not_le_of_gt hlt)
    · rw [← Bool.not_eq_true, isStale_iff hw (hpair hl) hd]
      exact not_le_of_gt hlt

/-- A result set at 2 with a window of a half is served at 2.25 and gone at 2.5, when its age is exactly
the window. -/
theorem get_eq_latest_until_the_window :
    let key : CacheKey := ⟨"total", "a + b", "[1, 2]"⟩
    let set : Call Nat := .set (.float 2.0) key 7
    ((afterCalls (.float 0.5) [set]).get (.float 2.25) key).1 = some 7 ∧
    ((afterCalls (.float 0.5) [set, .get (.float 2.25) key]).get (.float 2.5) key).1 = none := by
  intro key set
  have hw : (Number.float 0.5).value? = some (ofRat (1 / 2)) :=
    Number.value?_float (m := 2 ^ 52) (e := -53) rfl (by norm_num)
  have hset : (Number.float 2.0).value? = some (ofRat 2) :=
    Number.value?_float (m := 2 ^ 52) (e := -51) rfl (by norm_num)
  have hfirst : (Number.float 2.25).value? = some (ofRat (9 / 4)) :=
    Number.value?_float (m := 9 * 2 ^ 49) (e := -51) rfl (by norm_num)
  have hlast : (Number.float 2.5).value? = some (ofRat (5 / 2)) :=
    Number.value?_float (m := 5 * 2 ^ 50) (e := -51) rfl (by norm_num)
  have hquarter : (Number.float 0.25).value? = some (ofRat (1 / 4)) :=
    Number.value?_float (m := 2 ^ 52) (e := -54) rfl (by norm_num)
  have h₁ : Elapsed (.float 2.0) (.float 2.25) (1 / 4) := ⟨2, 9 / 4, hset, hfirst, by norm_num⟩
  have h₂ : Elapsed (.float 2.0) (.float 2.5) (1 / 2) := ⟨2, 5 / 2, hset, hlast, by norm_num⟩
  have h₃ : Elapsed (.float 2.25) (.float 2.5) (1 / 4) := ⟨9 / 4, 5 / 2, hfirst, hlast, by norm_num⟩
  have hclock : ExactClock [.float 2.0, .float 2.25, .float 2.5] := by
    refine .cons ?_ (List.pairwise_pair.mpr ⟨_, .float 0.25, h₃, by norm_num, rfl, hquarter⟩)
    intro now hnow
    rcases List.mem_pair.mp hnow with rfl | rfl
    · exact ⟨_, .float 0.25, h₁, by norm_num, rfl, hquarter⟩
    · exact ⟨_, .float 0.5, h₂, by norm_num, rfl, hw⟩
  constructor
  · have hsub : [Number.float 2.0, .float 2.25].Sublist [.float 2.0, .float 2.25, .float 2.5] :=
      List.prefix_append [Number.float 2.0, .float 2.25] [.float 2.5] |>.sublist
    refine ((get_eq_latest (.float 0.5) [set]).2.2 _ _ key 7 hw (hclock.sublist hsub)).mpr ?_
    exact ⟨_, _, rfl, h₁, ofRat_lt.mpr (by norm_num)⟩
  · refine Option.eq_none_iff_forall_ne_some.mpr fun a ha => ?_
    obtain ⟨time, d, hl, hd, hlt⟩ := ((get_eq_latest (.float 0.5) [set, .get (.float 2.25) key]).2.2
      _ _ key a hw hclock).mp ha
    obtain ⟨rfl⟩ : Call.set (.float 2.0) key 7 = .set time key a := Option.some.inj hl
    rw [hd.unique h₂] at hlt
    exact lt_irrefl _ hlt

end Cache

end LiveForm
