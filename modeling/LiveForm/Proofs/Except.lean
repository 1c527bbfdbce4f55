import Mathlib.Data.List.Forall2

/-! # Computations that answer or fail

What is known of the parts when a sequence of such computations answers. -/

namespace LiveForm

variable {ε α β : Type}

theorem bind_eq_ok {r : Except ε α} {f : α → Except ε β} {b : β} (h : r >>= f = .ok b) :
    ∃ a, r = .ok a ∧ f a = .ok b := by
  cases r with
  | error c => cases h
  | ok a => exact ⟨a, rfl, h⟩

theorem bind_eq_error {r : Except ε α} {f : α → Except ε β} {c : ε} (h : r >>= f = .error c) :
    r = .error c ∨ ∃ a, r = .ok a ∧ f a = .error c := by
  cases r with
  | error d =>
    obtain rfl := Except.error.inj h
    exact .inl rfl
  | ok a => exact .inr ⟨a, rfl, h⟩

theorem map_eq_error {r : Except ε α} {f : α → β} {c : ε} : f <$> r = .error c ↔ r = .error c := by
  cases r with
  | error d => exact ⟨fun h => congrArg _ (Except.error.inj h), fun h => congrArg _ (Except.error.inj h)⟩
  | ok a => exact ⟨fun h => (by cases h), fun h => (by cases h)⟩

theorem return_eq_error {r : Except ε α} {f : α → β} {c : ε} :
    (do return f (← r)) = Except.error c ↔ r = .error c := by
  cases r with
  | error d => exact ⟨fun h => congrArg _ (Except.error.inj h), fun h => congrArg _ (Except.error.inj h)⟩
  | ok a => exact ⟨fun h => (by cases h), fun h => (by cases h)⟩

theorem bind_ok_eq_ok {r : Except ε α} {g : α → β} {b : β} :
    (r >>= fun a => .ok (g a)) = .ok b ↔ ∃ a, r = .ok a ∧ b = g a := by
  cases r with
  | error c => exact ⟨fun h => (by cases h), fun ⟨_, h, _⟩ => (by cases h)⟩
  | ok a =>
    exact ⟨fun h => ⟨a, rfl, (Except.ok.inj h).symm⟩, fun ⟨_, ha, hb⟩ => by cases ha; rw [hb]; rfl⟩

theorem exists_bind_iff {r : Except ε α} {f : α → Except ε β} :
    (∃ b, r >>= f = .ok b) ↔ ∃ a, r = .ok a ∧ ∃ b, f a = .ok b := by
  cases r with
  | error c => exact ⟨fun ⟨_, h⟩ => (by cases h), fun ⟨_, h, _⟩ => (by cases h)⟩
  | ok a => exact ⟨fun h => ⟨a, rfl, h⟩, fun ⟨_, ha, h⟩ => Except.ok.inj ha ▸ h⟩

theorem mapM_cons_eq_ok {f : α → Except ε β} {a : α} {as : List α} {bs : List β}
    (h : (a :: as).mapM f = .ok bs) :
    ∃ b rest, f a = .ok b ∧ as.mapM f = .ok rest ∧ bs = b :: rest := by
  rw [List.mapM_cons] at h
  obtain ⟨b, hb, h⟩ := bind_eq_ok h
  obtain ⟨rest, hrest, h⟩ := bind_eq_ok h
  exact ⟨b, rest, hb, hrest, (Except.ok.inj h).symm⟩

theorem mapM_eq_ok {f : α → Except ε β} {g : α → β} {as : List α} (h : ∀ a ∈ as, f a = .ok (g a)) :
    as.mapM f = .ok (as.map g) := by
  induction as with
  | nil => rfl
  | cons a as ih =>
    rw [List.mapM_cons, h a List.mem_cons_self, ih fun x hx => h x (List.mem_cons_of_mem a hx)]
    rfl

theorem mapM_congr {f g : α → Except ε β} {as : List α} (h : ∀ a ∈ as, f a = g a) :
    as.mapM f = as.mapM g := by
  induction as with
  | nil => rfl
  | cons a as ih =>
    rw [List.mapM_cons, List.mapM_cons, h a List.mem_cons_self,
      ih fun x hx => h x (List.mem_cons_of_mem a hx)]

theorem exists_of_mem_mapM {f : α → Except ε β} {as : List α} {bs : List β}
    (h : as.mapM f = .ok bs) {b : β} (hb : b ∈ bs) : ∃ a ∈ as, f a = .ok b := by
  induction as generalizing bs with
  | nil =>
    obtain rfl := Except.ok.inj h
    cases hb
  | cons a as ih =>
    obtain ⟨c, rest, hc, hrest, rfl⟩ := mapM_cons_eq_ok h
    rcases List.mem_cons.mp hb with rfl | hb
    · exact ⟨a, by simp, hc⟩
    · obtain ⟨x, hx, hf⟩ := ih hrest hb
      exact ⟨x, by simp [hx], hf⟩

theorem mem_mapM_of_mem {f : α → Except ε β} {as : List α} {bs : List β}
    (h : as.mapM f = .ok bs) {a : α} (ha : a ∈ as) : ∃ b ∈ bs, f a = .ok b := by
  induction as generalizing bs with
  | nil => cases ha
  | cons x as ih =>
    obtain ⟨c, rest, hc, hrest, rfl⟩ := mapM_cons_eq_ok h
    rcases List.mem_cons.mp ha with rfl | ha
    · exact ⟨c, by simp, hc⟩
    · obtain ⟨b, hb, hf⟩ := ih hrest ha
      exact ⟨b, by simp [hb], hf⟩

/-- A sequence answers if each of its computations does. -/
theorem exists_mapM_eq_ok {f : α → Except ε β} {as : List α} (h : ∀ a ∈ as, ∃ b, f a = .ok b) :
    ∃ bs, as.mapM f = .ok bs := by
  induction as with
  | nil => exact ⟨[], rfl⟩
  | cons a as ih =>
    obtain ⟨b, hb⟩ := h a List.mem_cons_self
    obtain ⟨bs, hbs⟩ := ih fun x hx => h x (List.mem_cons_of_mem a hx)
    refine ⟨b :: bs, ?_⟩
    rw [List.mapM_cons, hb, hbs]
    rfl

theorem exists_return_iff {r : Except ε α} {g : α → β} :
    (∃ b, (do return g (← r)) = Except.ok b) ↔ ∃ a, r = .ok a := by
  cases r with
  | error cause => exact ⟨fun ⟨_, h⟩ => (by cases h), fun ⟨_, h⟩ => (by cases h)⟩
  | ok a => exact ⟨fun _ => ⟨a, rfl⟩, fun _ => ⟨g a, rfl⟩⟩

theorem exists_map_iff {r : Except ε α} {f : α → β} : (∃ b, f <$> r = .ok b) ↔ ∃ a, r = .ok a := by
  cases r with
  | error cause => exact ⟨fun ⟨_, h⟩ => (by cases h), fun ⟨_, h⟩ => (by cases h)⟩
  | ok a => exact ⟨fun _ => ⟨a, rfl⟩, fun _ => ⟨f a, rfl⟩⟩

theorem exists_mapM_iff {f : α → Except ε β} {as : List α} :
    (∃ bs, as.mapM f = .ok bs) ↔ ∀ a ∈ as, ∃ b, f a = .ok b := by
  refine ⟨fun ⟨bs, h⟩ a ha => ?_, exists_mapM_eq_ok⟩
  obtain ⟨b, -, hb⟩ := mem_mapM_of_mem h ha
  exact ⟨b, hb⟩

/-- The answers of a sequence are those of its computations. -/
theorem mapM_eq_filterMap {f : α → Except ε β} {as : List α} {bs : List β} (h : as.mapM f = .ok bs) :
    bs = as.filterMap fun a => (f a).toOption := by
  induction as generalizing bs with
  | nil => exact (Except.ok.inj h).symm
  | cons a as ih =>
    obtain ⟨b, rest, hb, hrest, rfl⟩ := mapM_cons_eq_ok h
    rw [List.filterMap_cons, hb, ih hrest]
    rfl

/-- A run over a list answers if every step can, whatever it starts from. -/
theorem exists_foldlM_iff {f : β → α → Except ε β} {p : α → Prop}
    (h : ∀ b a, (∃ b', f b a = .ok b') ↔ p a) {as : List α} {b : β} :
    (∃ b', as.foldlM f b = .ok b') ↔ ∀ a ∈ as, p a := by
  induction as generalizing b with
  | nil => exact ⟨fun _ _ ha => (by cases ha), fun _ => ⟨b, rfl⟩⟩
  | cons a as ih =>
    rw [List.forall_mem_cons, ← h b a, List.foldlM_cons]
    constructor
    · rintro ⟨b', hb'⟩
      obtain ⟨u, hu, hb'⟩ := bind_eq_ok hb'
      exact ⟨⟨u, hu⟩, ih.mp ⟨b', hb'⟩⟩
    · rintro ⟨⟨u, hu⟩, hrest⟩
      obtain ⟨b', hb'⟩ := ih.mpr hrest
      exact ⟨b', by rw [hu]; exact hb'⟩

/-- A run that computes each item before it takes it in: all items are computed, and the run over what
they are answers. -/
theorem foldlM_computed_eq_ok {γ : Type} {f : γ → β → Except ε γ} {g : α → Except ε β} {as : List α}
    {c c' : γ} : as.foldlM (fun c a => do f c (← g a)) c = .ok c' ↔
      ∃ bs, as.mapM g = .ok bs ∧ bs.foldlM f c = .ok c' := by
  induction as generalizing c with
  | nil => exact ⟨fun h => ⟨[], rfl, h⟩, fun ⟨bs, hbs, h⟩ => by cases hbs; exact h⟩
  | cons a as ih =>
    rw [List.foldlM_cons]
    constructor
    · intro h
      obtain ⟨d, hd, h⟩ := bind_eq_ok h
      obtain ⟨b, hb, hd⟩ := bind_eq_ok hd
      obtain ⟨bs, hbs, h⟩ := ih.mp h
      refine ⟨b :: bs, ?_, ?_⟩
      · rw [List.mapM_cons, hb, hbs]
        rfl
      · rw [List.foldlM_cons, hd]
        exact h
    · intro ⟨bs, hbs, h⟩
      obtain ⟨b, rest, hb, hrest, rfl⟩ := mapM_cons_eq_ok hbs
      rw [List.foldlM_cons] at h
      obtain ⟨d, hd, h⟩ := bind_eq_ok h
      rw [hb]
      dsimp only [bind, Except.bind]
      rw [hd]
      exact ih.mpr ⟨rest, hrest, h⟩

theorem forall₂_of_mapM {f : α → Except ε β} {as : List α} {bs : List β}
    (h : as.mapM f = .ok bs) : List.Forall₂ (fun a b => f a = .ok b) as bs := by
  induction as generalizing bs with
  | nil =>
    obtain rfl := Except.ok.inj h
    exact .nil
  | cons a as ih =>
    obtain ⟨b, rest, hb, hrest, rfl⟩ := mapM_cons_eq_ok h
    exact .cons hb (ih hrest)

theorem exists_of_mapM_eq_error {f : α → Except ε β} {as : List α} {c : ε}
    (h : as.mapM f = .error c) : ∃ a ∈ as, f a = .error c := by
  induction as with
  | nil => cases h
  | cons a as ih =>
    rw [List.mapM_cons] at h
    rcases bind_eq_error h with h | ⟨b, -, h⟩
    · exact ⟨a, by simp, h⟩
    · rcases bind_eq_error h with h | ⟨bs, -, h⟩
      · obtain ⟨x, hx, hf⟩ := ih h
        exact ⟨x, by simp [hx], hf⟩
      · cases h

/-! ## Two computations -/

/-- Two computations fail in the same way, or answer with related values. -/
def Related (R : α → β → Prop) : Except ε α → Except ε β → Prop
  | .ok a, .ok b => R a b
  | .error c, .error d => c = d
  | _, _ => False

section Related

variable {γ δ : Type} {R : α → β → Prop}

theorem Related.refl {R : α → α → Prop} (h : ∀ a, R a a) (r : Except ε α) : Related R r r := by
  cases r with
  | error c => exact rfl
  | ok a => exact h a

theorem Related.of_eq {R : α → α → Prop} {r s : Except ε α} (h : ∀ a, R a a) (hr : r = s) :
    Related R r s := hr ▸ .refl h r

theorem Related.bind_eq {r : Except ε α} {s : Except ε β} {f : α → Except ε γ} {g : β → Except ε γ}
    (h : Related R r s) (hf : ∀ a b, R a b → f a = g b) : r >>= f = s >>= g := by
  cases r <;> cases s
  · exact congrArg Except.error h
  · cases h
  · cases h
  · exact hf _ _ h

theorem Related.mapM {as : List δ} {f : δ → Except ε α} {g : δ → Except ε β}
    (h : ∀ a ∈ as, Related R (f a) (g a)) :
    Related (List.Forall₂ R) (as.mapM f) (as.mapM g) := by
  induction as with
  | nil => exact List.Forall₂.nil
  | cons a as ih =>
    have hhead := h a List.mem_cons_self
    have htail := ih fun x hx => h x (List.mem_cons_of_mem a hx)
    rw [List.mapM_cons, List.mapM_cons]
    cases hf : f a <;> cases hg : g a <;> rw [hf, hg] at hhead
    · exact hhead
    · cases hhead
    · cases hhead
    · cases hfs : as.mapM f <;> cases hgs : as.mapM g <;> rw [hfs, hgs] at htail
      · exact htail
      · cases htail
      · cases htail
      · exact List.Forall₂.cons hhead htail

end Related

end LiveForm
