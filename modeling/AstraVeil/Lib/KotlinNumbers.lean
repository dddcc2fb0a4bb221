import AstraVeil.Lib.KotlinString

/-!
# Reading numbers in Kotlin

`toIntOrNull` and `toLongOrNull` of the Kotlin standard library: an optional sign and decimal digits
of any script of the basic plane, within the range of the type.

* `toIntegerOrNull_decimal`: a number is read back from its decimal text;
* `mem_decimal`: what the text of a number consists of.
-/

namespace KotlinString

open Utf16

/-- Where the blocks of ten decimal digits of the basic plane start. -/
def digitZeros : List ℕ :=
  [0x30, 0x660, 0x6F0, 0x7C0, 0x966, 0x9E6, 0xA66, 0xAE6, 0xB66, 0xBE6, 0xC66, 0xCE6, 0xD66, 0xDE6,
    0xE50, 0xED0, 0xF20, 0x1040, 0x1090, 0x17E0, 0x1810, 0x1946, 0x19D0, 0x1A80, 0x1A90, 0x1B50,
    0x1BB0, 0x1C40, 0x1C50, 0xA620, 0xA8D0, 0xA900, 0xA9D0, 0xA9F0, 0xAA50, 0xABF0, 0xFF10]

/-- `Character.digit(u, 10)`. -/
def digitOf (u : UInt16) : Option ℕ :=
  (digitZeros.find? fun z => decide (z ≤ u.toNat ∧ u.toNat < z + 10)).map fun z => u.toNat - z

/-- The number that the digits write behind the digits of `n`. -/
def digitsFrom (n : ℕ) : JString → Option ℕ
  | [] => some n
  | u :: s => (digitOf u).bind fun d => digitsFrom (10 * n + d) s

/-- The number of a text of digits with an optional sign. -/
def toIntegerOrNull : JString → Option ℤ
  | [] => none
  | [u] => (digitsFrom 0 [u]).map fun n : ℕ => (n : ℤ)
  | u :: s =>
      if u = 0x2D then (digitsFrom 0 s).map fun n : ℕ => -(n : ℤ)
      else if u = 0x2B then (digitsFrom 0 s).map fun n : ℕ => (n : ℤ)
      else (digitsFrom 0 (u :: s)).map fun n : ℕ => (n : ℤ)

/-- `String.toIntOrNull`. -/
def toIntOrNull (s : JString) : Option Int32 :=
  (toIntegerOrNull s).bind fun z =>
    if -2 ^ 31 ≤ z ∧ z < 2 ^ 31 then some (Int32.ofInt z) else none

/-- `String.toLongOrNull`. -/
def toLongOrNull (s : JString) : Option Int64 :=
  (toIntegerOrNull s).bind fun z =>
    if -2 ^ 63 ≤ z ∧ z < 2 ^ 63 then some (Int64.ofInt z) else none

/-- A number in decimal. -/
def decimal (z : ℤ) : JString := ofString (String.ofList (Digits.intDigits z))

theorem isDigit_range {c : Char} (hc : c.isDigit = true) : 0x30 ≤ c.toNat ∧ c.toNat ≤ 0x39 := by
  simpa [Char.isDigit, UInt32.le_iff_toNat_le, ← Char.toNat_val] using hc

theorem unitsOf_digit {c : Char} (hc : c.isDigit = true) :
    unitsOf c = [UInt16.ofNat c.toNat] ∧
      digitOf (UInt16.ofNat c.toNat) = some (c.toNat - '0'.toNat) := by
  have hrange := isDigit_range hc
  have hlt : c.toNat < 0x10000 := by omega
  refine ⟨by simp [unitsOf, hlt], ?_⟩
  rw [digitOf, toNat_ofNat_of_lt hlt]
  have : digitZeros.find? (fun z => decide (z ≤ c.toNat ∧ c.toNat < z + 10)) = some 0x30 :=
    List.find?_cons_of_pos (by simp; omega)
  rw [this]
  rfl

theorem digitsFrom_flatMap {cs : List Char} (h : ∀ c ∈ cs, c.isDigit = true) (n : ℕ) :
    digitsFrom n (cs.flatMap unitsOf) = some (Nat.ofDigitChars 10 cs n) := by
  induction cs generalizing n with
  | nil => simp [digitsFrom]
  | cons c cs ih =>
    obtain ⟨hunits, hdigit⟩ := unitsOf_digit (h c List.mem_cons_self)
    rw [List.flatMap_cons, hunits, List.singleton_append, digitsFrom, hdigit, Option.bind_some,
      ih fun c' hc' => h c' (List.mem_cons_of_mem _ hc'), Nat.ofDigitChars_cons]

theorem toIntegerOrNull_of_digits {s : JString} {n : ℕ} (hs : s ≠ [])
    (h : digitsFrom 0 s = some n) : toIntegerOrNull s = some (n : ℤ) := by
  match s with
  | [] => exact absurd rfl hs
  | [u] => rw [toIntegerOrNull, h, Option.map_some]
  | u :: v :: s =>
    have hsign : u ≠ 0x2D ∧ u ≠ 0x2B := by
      constructor <;> rintro rfl <;> cases h
    rw [toIntegerOrNull, if_neg hsign.1, if_neg hsign.2, h, Option.map_some]
    simp

theorem digitsFrom_toDigits (n : ℕ) :
    digitsFrom 0 ((Nat.toDigits 10 n).flatMap unitsOf) = some n := by
  rw [digitsFrom_flatMap fun c hc => Nat.isDigit_of_mem_toDigits (by decide) (by decide) hc,
    Nat.ofDigitChars_ten_toDigits]

theorem flatMap_toDigits_ne_nil (n : ℕ) : (Nat.toDigits 10 n).flatMap unitsOf ≠ [] := by
  obtain ⟨c, cs, hcs⟩ := List.exists_cons_of_ne_nil (Nat.toDigits_ne_nil (n := n) (b := 10))
  have hc : c.isDigit = true :=
    Nat.isDigit_of_mem_toDigits (by decide) (by decide) (hcs ▸ List.mem_cons_self)
  rw [hcs, List.flatMap_cons, (unitsOf_digit hc).1]
  exact List.cons_ne_nil _ _

/-- A number is read back from its decimal text. -/
theorem toIntegerOrNull_decimal (z : ℤ) : toIntegerOrNull (decimal z) = some z := by
  rw [decimal, ofString, String.toList_ofList]
  cases z with
  | ofNat n => exact toIntegerOrNull_of_digits (flatMap_toDigits_ne_nil n) (digitsFrom_toDigits n)
  | negSucc n =>
    obtain ⟨u, s, hs⟩ := List.exists_cons_of_ne_nil (flatMap_toDigits_ne_nil (n + 1))
    have hdigits := digitsFrom_toDigits (n + 1)
    show toIntegerOrNull (0x2D :: (Nat.toDigits 10 (n + 1)).flatMap unitsOf) = _
    rw [hs] at hdigits ⊢
    rw [toIntegerOrNull, if_pos rfl, hdigits, Option.map_some]
    · rfl
    · simp

theorem toIntOrNull_decimal {z : ℤ} (h : -2 ^ 31 ≤ z ∧ z < 2 ^ 31) :
    toIntOrNull (decimal z) = some (Int32.ofInt z) := by
  rw [toIntOrNull, toIntegerOrNull_decimal, Option.bind_some, if_pos h]

theorem toLongOrNull_decimal (x : Int64) : toLongOrNull (decimal x.toInt) = some x := by
  rw [toLongOrNull, toIntegerOrNull_decimal, Option.bind_some, if_pos ⟨x.le_toInt, x.toInt_lt⟩,
    Int64.ofInt_toInt]

/-- The units of a decimal number are digits, with a minus sign in front. -/
theorem mem_decimal {z : ℤ} {u : UInt16} (h : u ∈ decimal z) :
    u = 0x2D ∨ (0x30 ≤ u.toNat ∧ u.toNat ≤ 0x39) := by
  rw [decimal, ofString, String.toList_ofList] at h
  obtain ⟨c, hc, hu⟩ := List.mem_flatMap.1 h
  rcases Digits.mem_intDigits hc with rfl | hdigit
  · exact Or.inl (by simpa [unitsOf] using hu)
  · have hrange := isDigit_range hdigit
    rw [(unitsOf_digit hdigit).1, List.mem_singleton] at hu
    rw [hu, toNat_ofNat_of_lt (by omega)]
    exact Or.inr hrange

theorem decimal_ne_nil (z : ℤ) : decimal z ≠ [] := by
  intro h
  have hread := toIntegerOrNull_decimal z
  rw [h] at hread
  cases hread

theorem isWhitespace_of_mem_decimal {z : ℤ} {u : UInt16} (h : u ∈ decimal z) :
    isWhitespace u = false := by
  rcases mem_decimal h with rfl | h
  · decide
  · simp [isWhitespace]
    omega

theorem trim_decimal (z : ℤ) : trim (decimal z) = decimal z :=
  trim_of_forall fun _ hu => isWhitespace_of_mem_decimal hu

theorem singleLine_decimal (z : ℤ) : SingleLine (decimal z) := by
  intro u hu
  rcases mem_decimal hu with rfl | h
  · decide
  · constructor <;> rintro rfl <;> exact absurd h.1 (by decide)

end KotlinString
