import AstraVeil.Lib.Digits
import AstraVeil.Lib.Utf16
import AstraVeil.Lib.Utf8

/-!
# JSON texts and values

`Text` is the grammar of JSON over bytes.  `Value` is a JSON value as a library keeps it in memory:
strings are arbitrary bytes there, so that printing one (`dump`) can fail.  Floating-point numbers
are abstract: what reading and printing them does is a `FloatText`.

* `Text.valid`: a JSON text is well-formed UTF-8;
* `Text.noNul`: it has no zero byte;
* `text_of_dump`: what `dump` prints is a JSON text;
* `printed_dump_iff`: it prints exactly the values all of whose strings are well-formed UTF-8.
-/

namespace Json

open Utf16 (ascii)
open Utf8 (Valid Ascii)

/-! ### The grammar -/

/-- White space. -/
def Ws (w : List UInt8) : Prop := ∀ c ∈ w, c = 0x20 ∨ c = 0x09 ∨ c = 0x0A ∨ c = 0x0D

/-- A decimal digit. -/
def IsDigit (c : UInt8) : Prop := 0x30 ≤ c ∧ c ≤ 0x39

instance (c : UInt8) : Decidable (IsDigit c) := inferInstanceAs (Decidable (_ ∧ _))

/-- A hexadecimal digit. -/
def IsHex (c : UInt8) : Prop := IsDigit c ∨ (0x41 ≤ c ∧ c ≤ 0x46) ∨ (0x61 ≤ c ∧ c ≤ 0x66)

instance (c : UInt8) : Decidable (IsHex c) := inferInstanceAs (Decidable (_ ∨ _))

/-- One or more digits. -/
def DigitText (b : List UInt8) : Prop := b ≠ [] ∧ ∀ c ∈ b, IsDigit c

/-- A number: sign, integer part, fraction and exponent. -/
inductive Number : List UInt8 → Prop
  | mk {sign int frac exp : List UInt8} :
      (sign = [] ∨ sign = [0x2D]) →
      (int = [0x30] ∨ DigitText int ∧ int.head? ≠ some 0x30) →
      (frac = [] ∨ ∃ ds, DigitText ds ∧ frac = 0x2E :: ds) →
      (exp = [] ∨ ∃ e sgn ds, (e = 0x65 ∨ e = 0x45) ∧ (sgn = [] ∨ sgn = [0x2B] ∨ sgn = [0x2D]) ∧
        DigitText ds ∧ exp = e :: (sgn ++ ds)) →
      Number (sign ++ (int ++ (frac ++ exp)))

/-- The characters a backslash can stand before, apart from `u`. -/
def escapable : List UInt8 := [0x22, 0x5C, 0x2F, 0x62, 0x66, 0x6E, 0x72, 0x74]

/-- The inside of a string. -/
inductive Chars : List UInt8 → Prop
  | nil : Chars []
  | unescaped {u b : List UInt8} : Utf8.CodePoint u →
      (∀ c ∈ u, 0x20 ≤ c ∧ c ≠ 0x22 ∧ c ≠ 0x5C) → Chars b → Chars (u ++ b)
  | escaped {e : UInt8} {b : List UInt8} : e ∈ escapable → Chars b → Chars (0x5C :: e :: b)
  | unicode {h₁ h₂ h₃ h₄ : UInt8} {b : List UInt8} : IsHex h₁ → IsHex h₂ → IsHex h₃ → IsHex h₄ →
      Chars b → Chars (0x5C :: 0x75 :: h₁ :: h₂ :: h₃ :: h₄ :: b)

/-- A text in double quotes. -/
def quoted (b : List UInt8) : List UInt8 := 0x22 :: (b ++ [0x22])

/-- Texts in brackets with commas between them. -/
def bracketed (l r : UInt8) (es : List (List UInt8)) : List UInt8 :=
  l :: ([0x2C].intercalate es ++ [r])

/-- A name, its colon and its value. -/
def member (m : List UInt8 × List UInt8) : List UInt8 := m.1 ++ (0x3A :: m.2)

/-- The name of a member. -/
inductive Name : List UInt8 → Prop
  | mk {w b w' : List UInt8} : Ws w → Chars b → Ws w' → Name (w ++ (quoted b ++ w'))

/-- A JSON text. -/
inductive Text : List UInt8 → Prop
  | null : Text (ascii "null")
  | true : Text (ascii "true")
  | false : Text (ascii "false")
  | number {b : List UInt8} : Number b → Text b
  | string {b : List UInt8} : Chars b → Text (quoted b)
  | emptyArray {w : List UInt8} : Ws w → Text (0x5B :: (w ++ [0x5D]))
  | array {es : List (List UInt8)} : es ≠ [] → (∀ e ∈ es, Text e) → Text (bracketed 0x5B 0x5D es)
  | emptyObject {w : List UInt8} : Ws w → Text (0x7B :: (w ++ [0x7D]))
  | object {ms : List (List UInt8 × List UInt8)} : ms ≠ [] → (∀ m ∈ ms, Name m.1) →
      (∀ m ∈ ms, Text m.2) → Text (bracketed 0x7B 0x7D (ms.map member))
  | spaced {w b w' : List UInt8} : Ws w → Text b → Ws w' → Text (w ++ (b ++ w'))

/-! ### A text is well-formed UTF-8 -/

theorem Ws.nil : Ws [] := fun _ h => absurd h List.not_mem_nil

theorem Ws.ascii {w : List UInt8} (h : Ws w) : Ascii w := by
  intro c hc
  rcases h c hc with rfl | rfl | rfl | rfl <;> decide

theorem IsDigit.ascii {c : UInt8} (h : IsDigit c) : c < 0x80 :=
  UInt8.lt_of_le_of_lt h.2 (by decide)

theorem IsHex.ascii {c : UInt8} (h : IsHex c) : c < 0x80 := by
  rcases h with h | h | h
  · exact h.ascii
  · exact UInt8.lt_of_le_of_lt h.2 (by decide)
  · exact UInt8.lt_of_le_of_lt h.2 (by decide)

theorem DigitText.ascii {b : List UInt8} (h : DigitText b) : Ascii b :=
  fun c hc => (h.2 c hc).ascii

theorem Number.ascii {b : List UInt8} (h : Number b) : Ascii b := by
  obtain ⟨hsign, hint, hfrac, hexp⟩ := h
  refine Ascii.append ?_ (Ascii.append ?_ (Ascii.append ?_ ?_))
  · rcases hsign with rfl | rfl <;> decide
  · rcases hint with rfl | ⟨hint, -⟩
    · decide
    · exact hint.ascii
  · rcases hfrac with rfl | ⟨ds, hds, rfl⟩
    · decide
    · exact Utf8.ascii_cons.2 ⟨by decide, hds.ascii⟩
  · rcases hexp with rfl | ⟨e, sgn, ds, he, hsgn, hds, rfl⟩
    · decide
    · refine Utf8.ascii_cons.2 ⟨?_, Ascii.append ?_ hds.ascii⟩
      · rcases he with rfl | rfl <;> decide
      · rcases hsgn with rfl | rfl | rfl <;> decide

theorem valid_quoted {b : List UInt8} : Valid (quoted b) ↔ Valid b := by
  have hl : quoted b = [0x22] ++ (b ++ [0x22]) := rfl
  rw [hl, Utf8.valid_ascii_append (by decide), Utf8.valid_append_ascii_right (by decide)]

theorem valid_bracketed {l r : UInt8} (hl : l < 0x80) (hr : r < 0x80) {es : List (List UInt8)} :
    Valid (bracketed l r es) ↔ ∀ e ∈ es, Valid e := by
  have heq : bracketed l r es = [l] ++ ([0x2C].intercalate es ++ [r]) := rfl
  have single : ∀ c : UInt8, c < 0x80 → Ascii [c] := fun c hc =>
    Utf8.ascii_cons.2 ⟨hc, by decide⟩
  rw [heq, Utf8.valid_ascii_append (single l hl), Utf8.valid_append_ascii_right (single r hr),
    Utf8.valid_intercalate (by decide) (by decide)]

theorem valid_member {m : List UInt8 × List UInt8} : Valid (member m) ↔ Valid m.1 ∧ Valid m.2 := by
  have hm : member m = m.1 ++ ([0x3A] ++ m.2) := rfl
  rw [hm, Utf8.valid_append_ascii (by decide) (by decide)]

theorem Chars.append {a b : List UInt8} (ha : Chars a) (hb : Chars b) : Chars (a ++ b) := by
  induction ha with
  | nil => exact hb
  | unescaped hu hc _ ih =>
    rw [List.append_assoc]
    exact Chars.unescaped hu hc ih
  | escaped he _ ih => exact Chars.escaped he ih
  | unicode h₁ h₂ h₃ h₄ _ ih => exact Chars.unicode h₁ h₂ h₃ h₄ ih

theorem Chars.valid {b : List UInt8} (h : Chars b) : Valid b := by
  induction h with
  | nil => exact Utf8.Valid.nil
  | unescaped hu _ _ ih => exact hu.valid.append ih
  | @escaped e b he _ ih =>
    have hesc : ∀ e ∈ escapable, Ascii [0x5C, e] := by
      simp only [escapable, List.forall_mem_cons, List.not_mem_nil, IsEmpty.forall_iff,
        implies_true, and_true]
      decide
    exact (Utf8.valid_ascii_append (hesc e he)).2 ih
  | @unicode h₁ h₂ h₃ h₄ b hh₁ hh₂ hh₃ hh₄ _ ih =>
    have hesc : Ascii [0x5C, 0x75, h₁, h₂, h₃, h₄] := by
      simp only [Utf8.ascii_cons]
      exact ⟨by decide, by decide, hh₁.ascii, hh₂.ascii, hh₃.ascii, hh₄.ascii, by decide⟩
    exact (Utf8.valid_ascii_append hesc).2 ih

theorem Name.valid {b : List UInt8} (h : Name b) : Valid b := by
  obtain ⟨hw, hb, hw'⟩ := h
  rw [Utf8.valid_ascii_append hw.ascii, Utf8.valid_append_ascii_right hw'.ascii, valid_quoted]
  exact hb.valid

/-- A JSON text is well-formed UTF-8. -/
theorem Text.valid {b : List UInt8} (h : Text b) : Valid b := by
  induction h with
  | null => decide
  | true => decide
  | false => decide
  | number h => exact h.ascii.valid
  | string h => exact valid_quoted.2 h.valid
  | emptyArray hw =>
    exact (Utf8.ascii_cons.2 ⟨by decide, hw.ascii.append (by decide)⟩).valid
  | array _ _ ih => exact (valid_bracketed (by decide) (by decide)).2 ih
  | emptyObject hw =>
    exact (Utf8.ascii_cons.2 ⟨by decide, hw.ascii.append (by decide)⟩).valid
  | object _ hname _ ih =>
    refine (valid_bracketed (by decide) (by decide)).2 fun e he => ?_
    obtain ⟨m, hm, rfl⟩ := List.mem_map.1 he
    exact valid_member.2 ⟨(hname m hm).valid, ih m hm⟩
  | spaced hw _ hw' ih =>
    exact (Utf8.valid_ascii_append hw.ascii).2 ((Utf8.valid_append_ascii_right hw'.ascii).2 ih)

/-! ### A text has no zero byte -/

/-- No byte is zero. -/
def NoNul (b : List UInt8) : Prop := ∀ c ∈ b, c ≠ 0

instance (b : List UInt8) : Decidable (NoNul b) :=
  List.decidableBAll (fun c : UInt8 => c ≠ 0) b

@[simp] theorem noNul_nil : NoNul [] := nofun

@[simp] theorem noNul_cons {c : UInt8} {b : List UInt8} : NoNul (c :: b) ↔ c ≠ 0 ∧ NoNul b :=
  List.forall_mem_cons

@[simp] theorem noNul_append {a b : List UInt8} : NoNul (a ++ b) ↔ NoNul a ∧ NoNul b :=
  List.forall_mem_append

theorem noNul_of_ge {n : UInt8} (hn : 0 < n) {b : List UInt8} (h : ∀ c ∈ b, n ≤ c) : NoNul b := by
  rintro c hc rfl
  exact absurd (h 0 hc) (UInt8.not_le.2 hn)

theorem Ws.noNul {w : List UInt8} (h : Ws w) : NoNul w := by
  intro c hc
  rcases h c hc with rfl | rfl | rfl | rfl <;> decide

theorem DigitText.noNul {b : List UInt8} (h : DigitText b) : NoNul b :=
  noNul_of_ge (by decide) fun c hc => (h.2 c hc).1

theorem IsHex.ne_zero {c : UInt8} (h : IsHex c) : c ≠ 0 := by
  rintro rfl
  rcases h with h | h | h <;> exact absurd h.1 (by decide)

theorem Number.noNul {b : List UInt8} (h : Number b) : NoNul b := by
  obtain ⟨hsign, hint, hfrac, hexp⟩ := h
  simp only [noNul_append]
  refine ⟨?_, ?_, ?_, ?_⟩
  · rcases hsign with rfl | rfl <;> decide
  · rcases hint with rfl | ⟨hint, -⟩
    · decide
    · exact hint.noNul
  · rcases hfrac with rfl | ⟨ds, hds, rfl⟩
    · decide
    · exact noNul_cons.2 ⟨by decide, hds.noNul⟩
  · rcases hexp with rfl | ⟨e, sgn, ds, he, hsgn, hds, rfl⟩
    · decide
    · refine noNul_cons.2 ⟨?_, noNul_append.2 ⟨?_, hds.noNul⟩⟩
      · rcases he with rfl | rfl <;> decide
      · rcases hsgn with rfl | rfl | rfl <;> decide

theorem Chars.noNul {b : List UInt8} (h : Chars b) : NoNul b := by
  induction h with
  | nil => exact noNul_nil
  | unescaped _ hu _ ih =>
    exact noNul_append.2 ⟨noNul_of_ge (by decide) fun c hc => (hu c hc).1, ih⟩
  | @escaped e b he _ ih =>
    have hesc : NoNul escapable := by decide
    exact noNul_cons.2 ⟨by decide, noNul_cons.2 ⟨hesc e he, ih⟩⟩
  | unicode h₁ h₂ h₃ h₄ _ ih =>
    simp only [noNul_cons]
    exact ⟨by decide, by decide, h₁.ne_zero, h₂.ne_zero, h₃.ne_zero, h₄.ne_zero, ih⟩

theorem noNul_quoted {b : List UInt8} (h : NoNul b) : NoNul (quoted b) := by
  simp [quoted, h]

theorem noNul_bracketed {l r : UInt8} (hl : l ≠ 0) (hr : r ≠ 0) {es : List (List UInt8)}
    (h : ∀ e ∈ es, NoNul e) : NoNul (bracketed l r es) := by
  have hjoin : NoNul ([0x2C].intercalate es) := by
    induction es with
    | nil => exact noNul_nil
    | cons e es ih =>
      obtain ⟨he, hes⟩ := List.forall_mem_cons.1 h
      cases es with
      | nil => simpa [List.intercalate] using he
      | cons e' es =>
        rw [List.intercalate_cons_cons]
        simp [he, ih hes]
  simp [bracketed, hl, hr, hjoin]

theorem Name.noNul {b : List UInt8} (h : Name b) : NoNul b := by
  obtain ⟨hw, hb, hw'⟩ := h
  simp [hw.noNul, noNul_quoted hb.noNul, hw'.noNul]

/-- A JSON text has no zero byte. -/
theorem Text.noNul {b : List UInt8} (h : Text b) : NoNul b := by
  induction h with
  | null => decide
  | true => decide
  | false => decide
  | number h => exact h.noNul
  | string h => exact noNul_quoted h.noNul
  | emptyArray hw => simp [hw.noNul]
  | emptyObject hw => simp [hw.noNul]
  | array _ _ ih => exact noNul_bracketed (by decide) (by decide) ih
  | object _ hname _ ih =>
    refine noNul_bracketed (by decide) (by decide) fun e he => ?_
    obtain ⟨m, hm, rfl⟩ := List.mem_map.1 he
    simp [member, (hname m hm).noNul, ih m hm]
  | spaced hw _ hw' ih => simp [hw.noNul, ih, hw'.noNul]
/-! ### Numbers -/

/-- The bytes of a decimal number. -/
def decimal (z : ℤ) : List UInt8 := (Digits.intDigits z).map fun c => UInt8.ofNat c.toNat

/-- The bytes of a decimal number without sign. -/
def natDecimal (n : ℕ) : List UInt8 := (Nat.toDigits 10 n).map fun c => UInt8.ofNat c.toNat

theorem natDecimal_of_le {n : ℕ} (h : 10 ≤ n) :
    natDecimal n = natDecimal (n / 10) ++ [UInt8.ofNat (n % 10).digitChar.toNat] := by
  rw [natDecimal, Nat.toDigits_of_base_le (by omega) h, List.map_append]
  rfl

theorem isDigit_digitChar : ∀ n < 10, IsDigit (UInt8.ofNat n.digitChar.toNat) := by decide

theorem digitText_natDecimal (n : ℕ) : DigitText (natDecimal n) := by
  refine ⟨fun h => Nat.toDigits_ne_nil (List.map_eq_nil_iff.1 h), ?_⟩
  induction n using Nat.strong_induction_on with
  | _ n ih =>
    by_cases hn : n < 10
    · rw [natDecimal, Nat.toDigits_of_lt_base hn]
      exact List.forall_mem_singleton.2 (isDigit_digitChar n hn)
    · intro c hc
      rw [natDecimal_of_le (by omega)] at hc
      rcases List.mem_append.1 hc with hc | hc
      · exact ih (n / 10) (by omega) c hc
      · rw [List.mem_singleton.1 hc]
        exact isDigit_digitChar _ (Nat.mod_lt n (by omega))

theorem natDecimal_head {n : ℕ} (hn : n ≠ 0) : (natDecimal n).head? ≠ some 0x30 := by
  induction n using Nat.strong_induction_on with
  | _ n ih =>
    by_cases hlt : n < 10
    · have hdigit : ∀ n < 10, n ≠ 0 → UInt8.ofNat n.digitChar.toNat ≠ 0x30 := by decide
      rw [natDecimal, Nat.toDigits_of_lt_base hlt]
      exact fun h => hdigit n hlt hn (Option.some.inj h)
    · have hne : natDecimal (n / 10) ≠ [] := (digitText_natDecimal _).1
      rw [natDecimal_of_le (by omega), List.head?_append_of_ne_nil _ hne]
      exact ih (n / 10) (by omega) (by omega)

theorem int_natDecimal (n : ℕ) :
    natDecimal n = [0x30] ∨ DigitText (natDecimal n) ∧ (natDecimal n).head? ≠ some 0x30 := by
  by_cases hn : n = 0
  · exact Or.inl (by rw [hn]; decide)
  · exact Or.inr ⟨digitText_natDecimal n, natDecimal_head hn⟩

theorem number_natDecimal (n : ℕ) : Number (natDecimal n) := by
  have h : Number ([] ++ (natDecimal n ++ ([] ++ []))) :=
    Number.mk (Or.inl rfl) (int_natDecimal n) (Or.inl rfl) (Or.inl rfl)
  simpa using h

theorem number_decimal (z : ℤ) : Number (decimal z) := by
  cases z with
  | ofNat n => exact number_natDecimal n
  | negSucc n =>
    have h : Number ([0x2D] ++ (natDecimal (n + 1) ++ ([] ++ []))) :=
      Number.mk (Or.inr rfl) (int_natDecimal (n + 1)) (Or.inl rfl) (Or.inl rfl)
    change Number (0x2D :: natDecimal (n + 1))
    simpa using h

/-! ### Strings -/

/-- A lower-case hexadecimal digit. -/
def hexDigit (n : ℕ) : UInt8 := UInt8.ofNat (if n < 10 then 0x30 + n else 0x57 + n)

/-- An escape with four hexadecimal digits. -/
def unicodeEscape (n : ℕ) : List UInt8 :=
  [0x5C, 0x75, hexDigit (n / 0x1000 % 16), hexDigit (n / 0x100 % 16), hexDigit (n / 0x10 % 16),
    hexDigit (n % 16)]

/-- A byte of a string as it is printed. -/
def escape (c : UInt8) : List UInt8 :=
  if c = 0x08 then [0x5C, 0x62]
  else if c = 0x09 then [0x5C, 0x74]
  else if c = 0x0A then [0x5C, 0x6E]
  else if c = 0x0C then [0x5C, 0x66]
  else if c = 0x0D then [0x5C, 0x72]
  else if c = 0x22 then [0x5C, 0x22]
  else if c = 0x5C then [0x5C, 0x5C]
  else if c ≤ 0x1F then unicodeEscape c.toNat
  else [c]

/-- Prints a string while decoding it; `none` is the exception on malformed UTF-8. -/
def dumpEscaped : Utf8.State → List UInt8 → Option (List UInt8)
  | q, [] => if q = [] then some [] else none
  | q, c :: t => do
      let q' ← Utf8.step q c
      let out ← dumpEscaped q' t
      some (escape c ++ out)

/-- A printed string. -/
def dumpString (s : List UInt8) : Option (List UInt8) := (dumpEscaped [] s).map quoted

theorem isHex_hexDigit : ∀ n < 16, IsHex (hexDigit n) := by decide

theorem chars_unicodeEscape (n : ℕ) : Chars (unicodeEscape n) :=
  Chars.unicode (isHex_hexDigit _ (Nat.mod_lt _ (by omega)))
    (isHex_hexDigit _ (Nat.mod_lt _ (by omega))) (isHex_hexDigit _ (Nat.mod_lt _ (by omega)))
    (isHex_hexDigit _ (Nat.mod_lt _ (by omega))) Chars.nil

theorem chars_escaped {e : UInt8} (he : e ∈ escapable) : Chars [0x5C, e] :=
  Chars.escaped he Chars.nil

/-- A branch that escapes. -/
theorem chars_ite {p : Prop} [Decidable p] {e : UInt8} {t : List UInt8} (he : e ∈ escapable)
    (h : ¬ p → Chars t) : Chars (if p then [0x5C, e] else t) := by
  split_ifs with hp
  · exact chars_escaped he
  · exact h hp

theorem chars_singleton {c : UInt8} (hc : c < 0x80) (h : 0x20 ≤ c ∧ c ≠ 0x22 ∧ c ≠ 0x5C) :
    Chars [c] :=
  Chars.unescaped (.mk (Utf8.lead_ascii hc) .nil) (List.forall_mem_singleton.2 h) Chars.nil

theorem chars_plain {s : List UInt8}
    (h : ∀ c ∈ s, c < 0x80 ∧ 0x20 ≤ c ∧ c ≠ 0x22 ∧ c ≠ 0x5C) : Chars s := by
  induction s with
  | nil => exact Chars.nil
  | cons c s ih =>
    obtain ⟨hc, hs⟩ := List.forall_mem_cons.1 h
    exact (chars_singleton hc.1 hc.2).append (ih hs)

/-- An escaping that turns every ASCII character into the inside of a string does so with every
well-formed text. -/
theorem chars_flatMap {esc : UInt8 → List UInt8} (he : Utf8.Escaping esc)
    (hc : ∀ c < 0x80, Chars (esc c)) {s : List UInt8} (hs : Valid s) : Chars (s.flatMap esc) := by
  refine hs.induction (P := fun s => Chars (s.flatMap esc)) Chars.nil ?_
  intro u s hu _ ih
  rw [List.flatMap_append]
  rcases hu.ascii_or_high with ⟨c, hlt, rfl⟩ | hhigh
  · rw [List.flatMap_singleton]
    exact (hc c hlt).append ih
  · have hcopy : u.flatMap esc = u := by
      rw [List.flatMap_congr fun c hcu => he.copied c (hhigh c hcu), List.flatMap_singleton']
    rw [hcopy]
    refine Chars.unescaped hu (fun c hcu => ?_) ih
    have hge : 0x80 ≤ c := UInt8.not_lt.1 (hhigh c hcu)
    refine ⟨UInt8.le_trans (by decide) hge, ?_, ?_⟩
    · rintro rfl
      exact absurd hge (by decide)
    · rintro rfl
      exact absurd hge (by decide)

theorem escaping_escape : Utf8.Escaping escape where
  ascii := Utf8.forall_byte (by decide +kernel)
  ne_nil := Utf8.forall_byte (by decide +kernel)
  copied := Utf8.forall_byte (by decide +kernel)

theorem chars_escape {c : UInt8} (hc : c < 0x80) : Chars (escape c) := by
  unfold escape
  refine chars_ite (by decide) fun _ => chars_ite (by decide) fun _ =>
    chars_ite (by decide) fun _ => chars_ite (by decide) fun _ => chars_ite (by decide) fun _ =>
    chars_ite (by decide) fun h22 => chars_ite (by decide) fun h5C => ?_
  split_ifs with h1F
  · exact chars_unicodeEscape _
  · have hge : 0x20 ≤ c := by
      rw [UInt8.le_iff_toNat_le] at h1F ⊢
      exact Nat.lt_of_not_le h1F
    exact chars_singleton hc ⟨hge, h22, h5C⟩

theorem dumpEscaped_eq (q : Utf8.State) (s : List UInt8) :
    dumpEscaped q s = if Utf8.run q s = some [] then some (s.flatMap escape) else none := by
  induction s generalizing q with
  | nil => simp [dumpEscaped, Utf8.run]
  | cons c s ih =>
    rw [dumpEscaped, Utf8.run_cons, List.flatMap_cons]
    cases Utf8.step q c with
    | none => rfl
    | some q' =>
      simp only [Option.bind_eq_bind, Option.bind_some, ih]
      split <;> rfl

theorem dumpString_eq (s : List UInt8) :
    dumpString s = if Valid s then some (quoted (s.flatMap escape)) else none := by
  rw [dumpString, dumpEscaped_eq]
  by_cases h : Utf8.run [] s = some []
  · rw [if_pos h, if_pos (show Valid s from h), Option.map_some]
  · rw [if_neg h, if_neg (show ¬ Valid s from h), Option.map_none]

theorem chars_of_valid {s : List UInt8} (hs : Valid s) : Chars (s.flatMap escape) :=
  chars_flatMap escaping_escape (fun _ hc => chars_escape hc) hs

/-! ### Values -/

/-- Reading and printing floating-point numbers. -/
structure FloatText (F : Type) where
  /-- The number of a numeral; `none` where it is not finite. -/
  strtod : List UInt8 → Option F
  /-- The numeral of a finite number. -/
  toChars : F → List UInt8
  /-- Conversion to a 32-bit integer. -/
  toInt : F → ℤ
  number_toChars : ∀ x, Number (toChars x)

/-- A platform without floating-point numbers: all numerals are integers. -/
def noFloats : FloatText Empty where
  strtod := fun _ => none
  toChars := Empty.elim
  toInt := Empty.elim
  number_toChars := fun x => x.elim

/-- A value in memory.  Integers are kept as unsigned numbers where they have no sign. -/
inductive Value (F : Type)
  | null
  | boolean (b : Bool)
  | integer (i : ℤ)
  | unsigned (n : ℕ)
  | float (x : F)
  | string (s : List UInt8)
  | array (vs : List (Value F))
  | object (ms : List (List UInt8 × Value F))

section Dump

variable {F : Type} (fl : FloatText F)

mutual

/-- The compact text of a value; `none` is the exception on malformed UTF-8. -/
def dump : Value F → Option (List UInt8)
  | .null => some (ascii "null")
  | .boolean true => some (ascii "true")
  | .boolean false => some (ascii "false")
  | .integer i => some (decimal i)
  | .unsigned n => some (natDecimal n)
  | .float x => some (fl.toChars x)
  | .string s => dumpString s
  | .array vs => (dumpElements vs).map (bracketed 0x5B 0x5D)
  | .object ms => (dumpMembers ms).map fun ts => bracketed 0x7B 0x7D (ts.map member)

/-- The texts of the elements of an array. -/
def dumpElements : List (Value F) → Option (List (List UInt8))
  | [] => some []
  | v :: vs => do
      let t ← dump v
      let ts ← dumpElements vs
      some (t :: ts)

/-- The texts of the names and values of an object. -/
def dumpMembers : List (List UInt8 × Value F) → Option (List (List UInt8 × List UInt8))
  | [] => some []
  | (k, v) :: ms => do
      let n ← dumpString k
      let t ← dump v
      let ts ← dumpMembers ms
      some ((n, t) :: ts)

end

mutual

/-- The strings and names inside a value. -/
def strings : Value F → List (List UInt8)
  | .string s => [s]
  | .array vs => stringsElements vs
  | .object ms => stringsMembers ms
  | _ => []

def stringsElements : List (Value F) → List (List UInt8)
  | [] => []
  | v :: vs => strings v ++ stringsElements vs

def stringsMembers : List (List UInt8 × Value F) → List (List UInt8)
  | [] => []
  | (k, v) :: ms => k :: (strings v ++ stringsMembers ms)

end

/-- A value all of whose strings are well-formed UTF-8. -/
def Clean (v : Value F) : Prop := ∀ s ∈ strings v, Valid s

theorem name_quoted {b : List UInt8} (h : Chars b) : Name (quoted b) := by
  have hname : Name ([] ++ (quoted b ++ [])) := Name.mk Ws.nil h Ws.nil
  rwa [List.append_nil, List.nil_append] at hname

theorem name_of_dumpString {s b : List UInt8} (h : dumpString s = some b) : Name b := by
  rw [dumpString_eq] at h
  split at h
  · next hs =>
    cases h
    exact name_quoted (chars_of_valid hs)
  · cases h

theorem text_of_dumpString {s b : List UInt8} (h : dumpString s = some b) : Text b := by
  rw [dumpString_eq] at h
  split at h
  · next hs =>
    cases h
    exact Text.string (chars_of_valid hs)
  · cases h

theorem text_bracketed {es : List (List UInt8)} (h : ∀ e ∈ es, Text e) :
    Text (bracketed 0x5B 0x5D es) := by
  by_cases hes : es = []
  · rw [hes]
    exact Text.emptyArray Ws.nil
  · exact Text.array hes h

theorem text_members {ms : List (List UInt8 × List UInt8)} (hn : ∀ m ∈ ms, Name m.1)
    (ht : ∀ m ∈ ms, Text m.2) : Text (bracketed 0x7B 0x7D (ms.map member)) := by
  by_cases hms : ms = []
  · rw [hms]
    exact Text.emptyObject Ws.nil
  · exact Text.object hms hn ht

mutual

/-- What is printed is a JSON text. -/
theorem text_of_dump : ∀ (v : Value F) {b : List UInt8}, dump fl v = some b → Text b
  | .null, _, h => by
    cases h
    exact Text.null
  | .boolean true, _, h => by
    cases h
    exact Text.true
  | .boolean false, _, h => by
    cases h
    exact Text.false
  | .integer i, _, h => by
    cases h
    exact Text.number (number_decimal i)
  | .unsigned n, _, h => by
    cases h
    exact Text.number (number_natDecimal n)
  | .float x, _, h => by
    cases h
    exact Text.number (fl.number_toChars x)
  | .string s, _, h => text_of_dumpString h
  | .array vs, _, h => by
    obtain ⟨ts, hts, rfl⟩ := Option.map_eq_some_iff.1 h
    exact text_bracketed (text_of_dumpElements vs hts)
  | .object ms, _, h => by
    obtain ⟨ts, hts, rfl⟩ := Option.map_eq_some_iff.1 h
    obtain ⟨hn, ht⟩ := text_of_dumpMembers ms hts
    exact text_members hn ht

theorem text_of_dumpElements : ∀ (vs : List (Value F)) {ts : List (List UInt8)},
    dumpElements fl vs = some ts → ∀ t ∈ ts, Text t
  | [], _, h => by
    cases h
    exact fun _ h => absurd h List.not_mem_nil
  | v :: vs, _, h => by
    simp only [dumpElements, Option.bind_eq_bind, Option.bind_eq_some_iff] at h
    obtain ⟨t, ht, ts, hts, h⟩ := h
    cases h
    exact List.forall_mem_cons.2 ⟨text_of_dump v ht, text_of_dumpElements vs hts⟩

theorem text_of_dumpMembers : ∀ (ms : List (List UInt8 × Value F))
    {ts : List (List UInt8 × List UInt8)}, dumpMembers fl ms = some ts →
      (∀ m ∈ ts, Name m.1) ∧ ∀ m ∈ ts, Text m.2
  | [], _, h => by
    cases h
    exact ⟨fun _ h => absurd h List.not_mem_nil, fun _ h => absurd h List.not_mem_nil⟩
  | (k, v) :: ms, _, h => by
    simp only [dumpMembers, Option.bind_eq_bind, Option.bind_eq_some_iff] at h
    obtain ⟨n, hn, t, ht, ts, hts, h⟩ := h
    cases h
    obtain ⟨ihn, iht⟩ := text_of_dumpMembers ms hts
    exact ⟨List.forall_mem_cons.2 ⟨name_of_dumpString hn, ihn⟩,
      List.forall_mem_cons.2 ⟨text_of_dump v ht, iht⟩⟩

end

theorem dumpString_isSome (s : List UInt8) : (dumpString s).isSome ↔ Valid s := by
  rw [dumpString_eq]
  split <;> simp_all

mutual

/-- Printing succeeds exactly on the values without malformed strings. -/
theorem dump_isSome_iff : ∀ v : Value F, (dump fl v).isSome ↔ ∀ s ∈ strings v, Valid s
  | .null => by simp [dump, strings]
  | .boolean true => by simp [dump, strings]
  | .boolean false => by simp [dump, strings]
  | .integer i => by simp [dump, strings]
  | .unsigned n => by simp [dump, strings]
  | .float x => by simp [dump, strings]
  | .string s => by
    rw [dump, dumpString_isSome, strings, List.forall_mem_singleton]
  | .array vs => by
    rw [dump, Option.isSome_map, strings, dumpElements_isSome_iff vs]
  | .object ms => by
    rw [dump, Option.isSome_map, strings, dumpMembers_isSome_iff ms]

theorem dumpElements_isSome_iff : ∀ vs : List (Value F),
    (dumpElements fl vs).isSome ↔ ∀ s ∈ stringsElements vs, Valid s
  | [] => by simp [dumpElements, stringsElements]
  | v :: vs => by
    rw [stringsElements, List.forall_mem_append, ← dump_isSome_iff v,
      ← dumpElements_isSome_iff vs, dumpElements]
    cases dump fl v <;> cases dumpElements fl vs <;> simp

theorem dumpMembers_isSome_iff : ∀ ms : List (List UInt8 × Value F),
    (dumpMembers fl ms).isSome ↔ ∀ s ∈ stringsMembers ms, Valid s
  | [] => by simp [dumpMembers, stringsMembers]
  | (k, v) :: ms => by
    rw [stringsMembers, List.forall_mem_cons, List.forall_mem_append, ← dump_isSome_iff v,
      ← dumpMembers_isSome_iff ms, ← dumpString_isSome, dumpMembers]
    cases dumpString k <;> cases dump fl v <;> cases dumpMembers fl ms <;> simp

end

/-- An operation that ended with a JSON text. -/
def Printed (o : Option (List UInt8)) : Prop := ∃ t, o = some t ∧ Text t

/-- Printing gives a JSON text exactly for the values without malformed strings. -/
theorem printed_dump_iff (v : Value F) : Printed (dump fl v) ↔ Clean v := by
  rw [Clean, ← dump_isSome_iff fl v]
  constructor
  · rintro ⟨t, ht, -⟩
    rw [ht]
    rfl
  · intro h
    obtain ⟨t, ht⟩ := Option.isSome_iff_exists.1 h
    exact ⟨t, ht, text_of_dump fl v ht⟩

variable {fl} in
/-- The text of an object begins with its first member. -/
theorem dump_object_cons {k : List UInt8} {v : Value F} {ms : List (List UInt8 × Value F)}
    {text : List UInt8} (h : dump fl (.object ((k, v) :: ms)) = some text) :
    ∃ name value rest, dumpString k = some name ∧ dump fl v = some value ∧
      text = 0x7B :: (name ++ 0x3A :: (value ++ rest)) := by
  rw [dump, Option.map_eq_some_iff] at h
  obtain ⟨ts, hts, rfl⟩ := h
  rw [dumpMembers] at hts
  simp only [Option.bind_eq_bind, Option.bind_eq_some_iff] at hts
  obtain ⟨name, hname, value, hvalue, ts, -, hts⟩ := hts
  cases hts
  cases ts with
  | nil => exact ⟨name, value, [0x7D], hname, hvalue, by simp [bracketed, member]⟩
  | cons m ts =>
    exact ⟨name, value, 0x2C :: ([0x2C].intercalate ((m :: ts).map member) ++ [0x7D]), hname,
      hvalue, by simp [bracketed, member, List.intercalate]⟩

end Dump

end Json
