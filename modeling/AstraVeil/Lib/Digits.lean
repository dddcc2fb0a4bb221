import Mathlib.Tactic

/-!
# Numbers as text

Decimal numbers as programming languages commonly print them, and bytes in lower-case
hexadecimal.

* `toDigits_injective`, `intDigits_injective`, `hex_injective`: the text determines the value;
* `not_mem_toDigits`, `not_mem_intDigits`, `not_mem_hex`: which symbols the text can contain.
-/

namespace Digits

theorem toDigits_injective : Function.Injective (Nat.toDigits 10) := by
  intro m n h
  rw [← Nat.ofDigitChars_ten_toDigits (n := m), h, Nat.ofDigitChars_ten_toDigits]

theorem not_mem_toDigits {c : Char} (hc : c.isDigit = false) (n : ℕ) : c ∉ Nat.toDigits 10 n := by
  intro h
  rw [Nat.isDigit_of_mem_toDigits (by decide) (by decide) h] at hc
  cases hc

/-- A signed decimal number. -/
def intDigits : ℤ → List Char
  | Int.ofNat n => Nat.toDigits 10 n
  | Int.negSucc n => '-' :: Nat.toDigits 10 (n + 1)

theorem intDigits_injective : Function.Injective intDigits := by
  have hminus : ∀ n m, '-' :: Nat.toDigits 10 n ≠ Nat.toDigits 10 m := by
    intro n m h
    exact not_mem_toDigits (c := '-') rfl m (h ▸ List.mem_cons_self)
  intro a b h
  cases a with
  | ofNat m =>
    cases b with
    | ofNat n => exact congrArg Int.ofNat (toDigits_injective h)
    | negSucc n => exact absurd h.symm (hminus _ _)
  | negSucc m =>
    cases b with
    | ofNat n => exact absurd h (hminus _ _)
    | negSucc n =>
      have hmn : m + 1 = n + 1 := toDigits_injective (List.cons.inj h).2
      rw [Nat.succ.inj hmn]

theorem mem_intDigits {c : Char} {z : ℤ} (h : c ∈ intDigits z) : c = '-' ∨ c.isDigit = true := by
  cases z with
  | ofNat n => exact Or.inr (Nat.isDigit_of_mem_toDigits (by decide) (by decide) h)
  | negSucc n =>
    rcases List.mem_cons.1 h with rfl | h
    · exact Or.inl rfl
    · exact Or.inr (Nat.isDigit_of_mem_toDigits (by decide) (by decide) h)

theorem not_mem_intDigits {c : Char} (hc : c.isDigit = false) (hm : c ≠ '-') (z : ℤ) :
    c ∉ intDigits z := by
  intro h
  rcases mem_intDigits h with h | h
  · exact hm h
  · rw [h] at hc
    cases hc

/-- Two lower-case hexadecimal digits a byte. -/
def hex (data : List UInt8) : List Char :=
  data.flatMap fun b => [Nat.digitChar (b.toNat / 16), Nat.digitChar (b.toNat % 16)]

theorem digitChar_inj {i j : ℕ} (hi : i < 16) (hj : j < 16)
    (h : Nat.digitChar i = Nat.digitChar j) : i = j := by
  have key : ∀ a b : Fin 16, Nat.digitChar a = Nat.digitChar b → a = b := by decide
  exact congrArg Fin.val (key ⟨i, hi⟩ ⟨j, hj⟩ h)

theorem hex_injective : Function.Injective hex := by
  intro x
  induction x with
  | nil =>
    intro y h
    cases y with
    | nil => rfl
    | cons b y => cases h
  | cons a x ih =>
    intro y h
    cases y with
    | nil => cases h
    | cons b y =>
      have ha := a.toNat_lt
      have hb := b.toNat_lt
      obtain ⟨h1, h⟩ := List.cons.inj h
      obtain ⟨h2, h⟩ := List.cons.inj h
      have hdiv := digitChar_inj (by omega) (by omega) h1
      have hmod := digitChar_inj (by omega) (by omega) h2
      have hab : a = b := UInt8.toNat_inj.1 (by omega)
      rw [hab, ih h]

/-- Only hex digits occur in hex text. -/
theorem not_mem_hex {c : Char} (hc : ∀ i < 16, Nat.digitChar i ≠ c) (data : List UInt8) :
    c ∉ hex data := by
  intro h
  obtain ⟨b, -, hb⟩ := List.mem_flatMap.1 h
  have hlt := b.toNat_lt
  rcases List.mem_pair.1 hb with rfl | rfl
  · exact hc _ (by omega) rfl
  · exact hc _ (by omega) rfl

end Digits
