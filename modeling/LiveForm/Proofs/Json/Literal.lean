import LiveForm.Json.Writer
import Mathlib.Algebra.Group.Nat.Defs

/-! # Text literals of JSON

A literal determines its text. Characters are escaped one by one, and no escape begins another:
a character stands for itself, behind a backslash as one letter, or as four or twice four hexadecimal
digits. Code points that are halves of a pair are no characters, so one group of digits is never
taken for the first of two. -/

namespace LiveForm

namespace Text

theorem hex_one {n : Nat} (h : n < 16) : hex 1 n = [n.digitChar] := by
  simp [hex, Nat.toDigits_of_lt_base h]

theorem hex_succ (width n : Nat) :
    hex (width + 2) n = hex (width + 1) (n / 16) ++ [(n % 16).digitChar] := by
  by_cases hn : n < 16
  · have h0 : n / 16 = 0 := by omega
    have hm : n % 16 = n := by omega
    rw [h0, hm]
    simp [hex, Nat.toDigits_of_lt_base hn, ← List.replicate_succ']
  · have hd := Nat.toDigits_of_base_le (b := 16) (by decide) (Nat.le_of_not_lt hn)
    simp [hex, hd]

theorem digitChar_inj : ∀ m < 16, ∀ n < 16, m.digitChar = n.digitChar → m = n := by decide

theorem length_hex {width n : Nat} (hn : n < 16 ^ (width + 1)) :
    (hex (width + 1) n).length = width + 1 := by
  induction width generalizing n with
  | zero =>
    rw [hex_one (by simpa using hn)]
    rfl
  | succ width ih =>
    rw [hex_succ, List.length_append, ih (by rw [Nat.pow_succ] at hn; omega)]
    rfl

theorem hex_inj {width m n : Nat} (hm : m < 16 ^ (width + 1)) (hn : n < 16 ^ (width + 1))
    (h : hex (width + 1) m = hex (width + 1) n) : m = n := by
  induction width generalizing m n with
  | zero =>
    have hm : m < 16 := by simpa using hm
    have hn : n < 16 := by simpa using hn
    rw [hex_one hm, hex_one hn] at h
    exact digitChar_inj m hm n hn (List.cons.inj h).1
  | succ width ih =>
    rw [Nat.pow_succ] at hm hn
    rw [hex_succ, hex_succ] at h
    obtain ⟨high, low⟩ := List.append_inj' h rfl
    have hdiv := ih (by omega) (by omega) high
    have hmod := digitChar_inj _ (Nat.mod_lt m (by decide)) _ (Nat.mod_lt n (by decide))
      (List.cons.inj low).1
    omega

theorem mem_hex {width n : Nat} (hn : n < 16 ^ (width + 1)) {c : Char}
    (hc : c ∈ hex (width + 1) n) : ∃ d < 16, c = Nat.digitChar d := by
  induction width generalizing n with
  | zero =>
    have hn : n < 16 := by simpa using hn
    rw [hex_one hn] at hc
    exact ⟨n, hn, by simpa using hc⟩
  | succ width ih =>
    rw [hex_succ, List.mem_append] at hc
    rcases hc with hc | hc
    · exact ih (by rw [Nat.pow_succ] at hn; omega) hc
    · exact ⟨n % 16, Nat.mod_lt n (by decide), by simpa using hc⟩

end Text

namespace Json

/-! ## Escapes -/

/-- The characters that have a letter of their own behind a backslash. -/
def letters : List (Char × Char) :=
  [('"', '"'), ('\\', '\\'), ('\n', 'n'), ('\r', 'r'), ('\t', 't'), ('\x08', 'b'), ('\x0c', 'f')]

theorem letters_inj : ∀ p ∈ letters, ∀ q ∈ letters, p.2 = q.2 → p.1 = q.1 := by decide

theorem letter_ne_u : ∀ p ∈ letters, p.2 ≠ 'u' := by decide

/-- Four digits of a unit behind a backslash. -/
def digits (unit : Nat) : List Char := '\\' :: 'u' :: Text.hex 4 unit

/-- The three forms of an escape. -/
inductive Escapes (c : Char) : List Char → Prop
  | itself (hq : c ≠ '"') (hb : c ≠ '\\') : Escapes c [c]
  | letter (x : Char) (h : (c, x) ∈ letters) : Escapes c ['\\', x]
  | digits : Escapes c ((units16 c.toNat).flatMap digits)

theorem escapedChar_escapes (c : Char) : Escapes c (escapedChar c) := by
  unfold escapedChar
  split
  · rename_i h
    refine .letter c ?_
    rcases (by simpa using h : c = '"' ∨ c = '\\') with rfl | rfl <;> decide
  · rename_i h
    obtain ⟨hq, hb⟩ : c ≠ '"' ∧ c ≠ '\\' := by simpa using h
    repeat' split
    · exact .letter 'n' (by simp_all [letters])
    · exact .letter 'r' (by simp_all [letters])
    · exact .letter 't' (by simp_all [letters])
    · exact .letter 'b' (by simp_all [letters])
    · exact .letter 'f' (by simp_all [letters])
    · exact .itself hq hb
    · exact .digits

/-! ## Code points -/

theorem unit_lt {n : Nat} (hn : n < 0x110000) : ∀ u ∈ units16 n, u < 16 ^ 4 := by
  unfold units16
  split
  · simpa using by omega
  · simp only [List.mem_cons, List.not_mem_nil, or_false, forall_eq_or_imp, forall_eq]
    omega

theorem digits_cancel {u v : Nat} {r r' : List Char} (hu : u < 16 ^ 4) (hv : v < 16 ^ 4)
    (h : digits u ++ r = digits v ++ r') : u = v ∧ r = r' := by
  have h : Text.hex 4 u ++ r = Text.hex 4 v ++ r' := by simpa [digits] using h
  obtain ⟨hd, hr⟩ := List.append_inj h ((Text.length_hex hu).trans (Text.length_hex hv).symm)
  exact ⟨Text.hex_inj hu hv hd, hr⟩

theorem toNat_lt (c : Char) : c.toNat < 0x110000 := by
  have h := c.valid
  rcases h with h | h
  · exact Nat.lt_trans h (by decide)
  · exact h.2

/-- A code point that is half of a pair is no character. -/
theorem toNat_not_half (c : Char) : c.toNat < 0xd800 ∨ 0xdfff < c.toNat := by
  have h := c.valid
  exact h.imp id And.left

/-- The units of a character are not the beginning of those of another. -/
theorem units_cancel {c d : Char} {r r' : List Char}
    (h : (units16 c.toNat).flatMap digits ++ r = (units16 d.toNat).flatMap digits ++ r') :
    c.toNat = d.toNat ∧ r = r' := by
  have hc := unit_lt (toNat_lt c)
  have hd := unit_lt (toNat_lt d)
  have hch := toNat_not_half c
  have hdh := toNat_not_half d
  have hcm := toNat_lt c
  have hdm := toNat_lt d
  revert hc hd h
  unfold units16
  split <;> split <;> intro h hc hd
  · simp only [List.flatMap_cons, List.flatMap_nil, List.append_nil] at h
    exact digits_cancel (hc _ (by simp)) (hd _ (by simp)) h
  · simp only [List.flatMap_cons, List.flatMap_nil, List.append_nil, List.append_assoc] at h
    obtain ⟨hu, -⟩ := digits_cancel (hc _ (by simp)) (hd _ (by simp)) h
    omega
  · simp only [List.flatMap_cons, List.flatMap_nil, List.append_nil, List.append_assoc] at h
    obtain ⟨hu, -⟩ := digits_cancel (hc _ (by simp)) (hd _ (by simp)) h
    omega
  · simp only [List.flatMap_cons, List.flatMap_nil, List.append_nil, List.append_assoc] at h
    obtain ⟨hu, h⟩ := digits_cancel (hc _ (by simp)) (hd _ (by simp)) h
    obtain ⟨hv, hr⟩ := digits_cancel (hc _ (by simp)) (hd _ (by simp)) h
    exact ⟨by omega, hr⟩

/-! ## Literals -/

theorem units_head (n : Nat) : ∃ rest, (units16 n).flatMap digits = '\\' :: 'u' :: rest := by
  obtain ⟨u, us, h⟩ : ∃ u us, units16 n = u :: us := by
    unfold units16
    split
    · exact ⟨n, [], rfl⟩
    · exact ⟨_, [_], rfl⟩
  exact ⟨Text.hex 4 u ++ us.flatMap digits, by rw [h, List.flatMap_cons, digits]; rfl⟩

theorem Escapes.head {c : Char} {cs : List Char} (h : Escapes c cs) :
    ∃ x rest, cs = x :: rest ∧ x ≠ '"' := by
  cases h with
  | itself hq hb => exact ⟨c, [], rfl, hq⟩
  | letter x hx => exact ⟨'\\', [x], rfl, by decide⟩
  | digits =>
    obtain ⟨rest, hr⟩ := units_head c.toNat
    exact ⟨'\\', 'u' :: rest, hr, by decide⟩

theorem Escapes.cancel {c d : Char} {cs ds r r' : List Char} (hc : Escapes c cs)
    (hd : Escapes d ds) (h : cs ++ r = ds ++ r') : c = d ∧ r = r' := by
  cases hc with
  | itself hq hb =>
    cases hd with
    | itself _ _ => simpa using h
    | letter x hx => exact absurd (List.cons.inj h).1 hb
    | digits =>
      obtain ⟨rest, hr⟩ := units_head d.toNat
      rw [hr] at h
      exact absurd (List.cons.inj h).1 hb
  | letter x hx =>
    cases hd with
    | itself hq hb => exact absurd (List.cons.inj h).1.symm hb
    | letter y hy =>
      obtain ⟨rfl, rfl⟩ : x = y ∧ r = r' := by simpa using h
      exact ⟨letters_inj _ hx _ hy rfl, rfl⟩
    | digits =>
      obtain ⟨rest, hr⟩ := units_head d.toNat
      rw [hr] at h
      exact absurd (List.cons.inj (List.cons.inj h).2).1 (letter_ne_u _ hx)
  | digits =>
    cases hd with
    | itself hq hb =>
      obtain ⟨rest, hr⟩ := units_head c.toNat
      rw [hr] at h
      exact absurd (List.cons.inj h).1.symm hb
    | letter y hy =>
      obtain ⟨rest, hr⟩ := units_head c.toNat
      rw [hr] at h
      exact absurd (List.cons.inj (List.cons.inj h).2).1.symm (letter_ne_u _ hy)
    | digits =>
      obtain ⟨hn, hr⟩ := units_cancel h
      exact ⟨Char.toNat_inj.mp hn, hr⟩

theorem escaped_cancel {s t r r' : List Char}
    (h : s.flatMap escapedChar ++ '"' :: r = t.flatMap escapedChar ++ '"' :: r') :
    s = t ∧ r = r' := by
  induction s generalizing t with
  | nil =>
    cases t with
    | nil => simpa using h
    | cons d t =>
      obtain ⟨x, rest, hx, hne⟩ := (escapedChar_escapes d).head
      rw [List.flatMap_cons, hx] at h
      exact absurd (List.cons.inj h).1.symm hne
  | cons c s ih =>
    rw [List.flatMap_cons, List.append_assoc] at h
    cases t with
    | nil =>
      obtain ⟨x, rest, hx, hne⟩ := (escapedChar_escapes c).head
      rw [hx] at h
      exact absurd (List.cons.inj h).1 hne
    | cons d t =>
      rw [List.flatMap_cons, List.append_assoc] at h
      obtain ⟨rfl, hs⟩ := (escapedChar_escapes c).cancel (escapedChar_escapes d) h
      obtain ⟨rfl, hr⟩ := ih hs
      exact ⟨rfl, hr⟩

theorem toList_textLiteral (s : String) :
    (textLiteral s).toList = '"' :: (s.toList.flatMap escapedChar ++ ['"']) := by
  simp [textLiteral]

/-- A literal determines its text, and where it ends. -/
theorem textLiteral_cancel {s t : String} {r r' : List Char}
    (h : (textLiteral s).toList ++ r = (textLiteral t).toList ++ r') : s = t ∧ r = r' := by
  simp only [toList_textLiteral, List.cons_append, List.append_assoc, List.nil_append,
    List.cons.injEq, true_and] at h
  obtain ⟨hs, hr⟩ := escaped_cancel h
  exact ⟨String.toList_inj.mp hs, hr⟩

end Json

end LiveForm
