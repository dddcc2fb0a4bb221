import Mathlib.Tactic

/-!
# UTF-16 strings and their UTF-8 form

A string of the JVM is a list of UTF-16 code units, not all of which encode text.  `scalars` reads
it as the Java encoders do, with a question mark for every unpaired surrogate; `utf8` is the byte
form, `String.getBytes(UTF_8)`.

* `scalars_append_cons`: a code unit that is no surrogate cuts the reading in two;
* `question_mem_scalars`: where the question marks of the reading come from;
* `scalars_inj`, `exists_scalars_eq`: the string can be recovered from its reading exactly when
  the reading has no question mark;
* `decodeUtf8`, `decodeUtf8_ascii`: the way back, with replacement of malformed input.
-/

namespace Utf16

/-- A string: a list of code units. -/
abbrev JString := List UInt16

/-- A high surrogate. -/
def isHigh (u : UInt16) : Bool := decide (0xD800 ≤ u.toNat ∧ u.toNat ≤ 0xDBFF)

/-- A low surrogate. -/
def isLow (u : UInt16) : Bool := decide (0xDC00 ≤ u.toNat ∧ u.toNat ≤ 0xDFFF)

/-- The character of a code unit that stands alone. -/
def unit (u : UInt16) : Char := if isHigh u || isLow u then '?' else Char.ofNat u.toNat

/-- The character of a surrogate pair. -/
def pair (u v : UInt16) : Char :=
  Char.ofNat (0x10000 + (u.toNat - 0xD800) * 0x400 + (v.toNat - 0xDC00))

/-- The characters of a string, a question mark standing for an unpaired surrogate. -/
def scalars : JString → List Char
  | [] => []
  | [u] => [unit u]
  | u :: v :: rest =>
      if isHigh u && isLow v then pair u v :: scalars rest else unit u :: scalars (v :: rest)

/-- Whether a string has an unpaired surrogate. -/
def hasUnpaired : JString → Bool
  | [] => false
  | [u] => isHigh u || isLow u
  | u :: v :: rest =>
      if isHigh u && isLow v then hasUnpaired rest
      else isHigh u || isLow u || hasUnpaired (v :: rest)

/-- The string that comes back from its bytes: a question mark for every unpaired surrogate. -/
def mend : JString → JString
  | [] => []
  | [u] => [if isHigh u || isLow u then 0x3F else u]
  | u :: v :: rest =>
      if isHigh u && isLow v then u :: v :: mend rest
      else (if isHigh u || isLow u then 0x3F else u) :: mend (v :: rest)

/-- The bytes of a text. -/
def utf8 (s : JString) : List UInt8 := (String.ofList (scalars s)).toByteArray.data.toList

/-- The code units of one character. -/
def unitsOf (c : Char) : JString :=
  if c.toNat < 0x10000 then [UInt16.ofNat c.toNat]
  else [UInt16.ofNat (0xD800 + (c.toNat - 0x10000) / 0x400),
    UInt16.ofNat (0xDC00 + (c.toNat - 0x10000) % 0x400)]

/-- The bytes of an ASCII literal. -/
def ascii (s : String) : List UInt8 := s.toList.map fun c => UInt8.ofNat c.toNat

/-- The string of a literal. -/
def ofString (s : String) : JString := s.toList.flatMap unitsOf

theorem utf8_eq_iff {s t : JString} : utf8 s = utf8 t ↔ scalars s = scalars t := by
  constructor
  · intro h
    exact String.ofList_injective
      (String.toByteArray_inj.1 (ByteArray.ext (Array.toList_inj.1 h)))
  · intro h
    rw [utf8, utf8, h]

/-! ### Reading one code unit -/

theorem isHigh_iff {u : UInt16} : isHigh u = true ↔ 0xD800 ≤ u.toNat ∧ u.toNat ≤ 0xDBFF :=
  decide_eq_true_iff

theorem isLow_iff {u : UInt16} : isLow u = true ↔ 0xDC00 ≤ u.toNat ∧ u.toNat ≤ 0xDFFF :=
  decide_eq_true_iff

theorem scalars_cons_of_not_high {u : UInt16} (hu : isHigh u = false) (r : JString) :
    scalars (u :: r) = unit u :: scalars r := by
  cases r with
  | nil => rfl
  | cons v r => simp [scalars, hu]

theorem scalars_cons_of_not_low {u : UInt16} {r : JString} (hr : ∀ v ∈ r.head?, isLow v = false) :
    scalars (u :: r) = unit u :: scalars r := by
  cases r with
  | nil => rfl
  | cons v r => simp [scalars, hr v rfl]

theorem scalars_cons_pair {u v : UInt16} (hu : isHigh u = true) (hv : isLow v = true)
    (r : JString) : scalars (u :: v :: r) = pair u v :: scalars r := by
  simp [scalars, hu, hv]

theorem unit_of_surrogate {u : UInt16} (h : (isHigh u || isLow u) = true) : unit u = '?' := by
  rw [unit, if_pos h]

theorem toNat_ofNat_of_valid {n : ℕ} (h : n.isValidChar) : (Char.ofNat n).toNat = n := by
  rw [Char.ofNat, dif_pos h]
  exact UInt32.toNat_ofNatLT

theorem toNat_unit {u : UInt16} (h : (isHigh u || isLow u) = false) : (unit u).toNat = u.toNat := by
  have hu := u.toNat_lt
  rw [Bool.or_eq_false_iff, ← Bool.not_eq_true, ← Bool.not_eq_true, isHigh_iff, isLow_iff] at h
  have hvalid : u.toNat.isValidChar := by
    unfold Nat.isValidChar
    omega
  have hs : (isHigh u || isLow u) = false := by
    rw [Bool.or_eq_false_iff, ← Bool.not_eq_true, ← Bool.not_eq_true, isHigh_iff, isLow_iff]
    exact h
  rw [unit, if_neg (by simp [hs]), toNat_ofNat_of_valid hvalid]

theorem toNat_pair {u v : UInt16} (hu : isHigh u = true) (hv : isLow v = true) :
    (pair u v).toNat = 0x10000 + (u.toNat - 0xD800) * 0x400 + (v.toNat - 0xDC00) := by
  rw [isHigh_iff] at hu
  rw [isLow_iff] at hv
  have hvalid : (0x10000 + (u.toNat - 0xD800) * 0x400 + (v.toNat - 0xDC00)).isValidChar := by
    unfold Nat.isValidChar
    omega
  rw [pair, toNat_ofNat_of_valid hvalid]

/-- A code unit that is no surrogate cuts the reading in two. -/
theorem scalars_append_cons {c : UInt16} (hc : (isHigh c || isLow c) = false) (x y : JString) :
    scalars (x ++ c :: y) = scalars x ++ unit c :: scalars y := by
  rw [Bool.or_eq_false_iff] at hc
  induction x using scalars.induct with
  | case1 => exact scalars_cons_of_not_high hc.1 y
  | case2 u =>
    rw [List.singleton_append, scalars_cons_of_not_low (by simpa using hc.2),
      scalars_cons_of_not_high hc.1]
    rfl
  | case3 u v rest h ih =>
    rw [Bool.and_eq_true] at h
    rw [List.cons_append, List.cons_append, scalars_cons_pair h.1 h.2, ih,
      scalars_cons_pair h.1 h.2, List.cons_append]
  | case4 u v rest h ih =>
    rw [List.cons_append, List.cons_append, scalars, if_neg h]
    rw [List.cons_append] at ih
    rw [ih, scalars, if_neg h, List.cons_append]

theorem scalars_intercalate {c : UInt16} (hc : (isHigh c || isLow c) = false)
    (xs : List JString) :
    scalars ([c].intercalate xs) = [unit c].intercalate (xs.map scalars) := by
  induction xs with
  | nil => rfl
  | cons x xs ih =>
    cases xs with
    | nil => simp
    | cons y ys =>
      rw [List.intercalate_cons_cons, List.append_assoc, List.singleton_append,
        scalars_append_cons hc, ih]
      simp [List.intercalate_cons_cons]

/-! ### Question marks -/

/-- A question mark is read from a question mark or from an unpaired surrogate. -/
theorem question_mem_scalars {s : JString} :
    '?' ∈ scalars s ↔ 0x3F ∈ s ∨ hasUnpaired s = true := by
  have hunit : ∀ u : UInt16, '?' = unit u ↔ 0x3F = u ∨ (isHigh u || isLow u) = true := by
    intro u
    cases hu : isHigh u || isLow u with
    | true => simp [unit_of_surrogate hu]
    | false =>
      have hn := toNat_unit hu
      simp only [Bool.false_eq_true, or_false]
      constructor
      · intro h
        rw [← h] at hn
        exact UInt16.toNat_inj.1 hn
      · rintro rfl
        rfl
  have hq : ∀ u v : UInt16, isHigh u = true → isLow v = true →
      '?' ≠ pair u v ∧ 0x3F ≠ u ∧ 0x3F ≠ v := by
    intro u v hu hv
    have hn := toNat_pair hu hv
    rw [isHigh_iff] at hu
    rw [isLow_iff] at hv
    refine ⟨fun h => ?_, fun h => ?_, fun h => ?_⟩
    · have h63 : (pair u v).toNat = 63 := by rw [← h]; rfl
      omega
    · rw [← h] at hu
      exact absurd hu (by decide)
    · rw [← h] at hv
      exact absurd hv (by decide)
  induction s using scalars.induct with
  | case1 => simp [scalars, hasUnpaired]
  | case2 u => simp [scalars, hasUnpaired, hunit]
  | case3 u v rest h ih =>
    rw [Bool.and_eq_true] at h
    obtain ⟨h1, h2, h3⟩ := hq u v h.1 h.2
    simp [scalars, hasUnpaired, h.1, h.2, h1, h2, h3, ih]
  | case4 u v rest h ih =>
    rw [scalars, if_neg h, hasUnpaired, if_neg h, List.mem_cons, hunit, List.mem_cons]
    simp only [Bool.or_eq_true]
    constructor
    · rintro ((hu | hu) | hm)
      · exact Or.inl (Or.inl hu)
      · exact Or.inr (Or.inl hu)
      · exact (ih.1 hm).elim (fun h => Or.inl (Or.inr h)) fun h => Or.inr (Or.inr h)
    · rintro ((hu | hm) | (hu | hm))
      · exact Or.inl (Or.inl hu)
      · exact Or.inr (ih.2 (Or.inl hm))
      · exact Or.inl (Or.inr hu)
      · exact Or.inr (ih.2 (Or.inr hm))

theorem mend_eq_self {s : JString} (h : hasUnpaired s = false) : mend s = s := by
  induction s using mend.induct with
  | case1 => rfl
  | case2 u =>
    have hu : (isHigh u || isLow u) = false := h
    rw [mend, hu, if_neg Bool.false_ne_true]
  | case3 u v rest hp ih =>
    rw [hasUnpaired, if_pos hp] at h
    rw [mend, if_pos hp, ih h]
  | case4 u v rest hp ih =>
    rw [hasUnpaired, if_neg hp, Bool.or_eq_false_iff] at h
    rw [mend, if_neg hp, h.1, if_neg Bool.false_ne_true, ih h.2]

theorem hasUnpaired_of_forall {s : JString} (h : ∀ u ∈ s, (isHigh u || isLow u) = false) :
    hasUnpaired s = false := by
  induction s using hasUnpaired.induct with
  | case1 => rfl
  | case2 u => exact h u List.mem_cons_self
  | case3 u v rest hp ih =>
    rw [hasUnpaired, if_pos hp]
    exact ih fun w hw => h w (List.mem_cons_of_mem _ (List.mem_cons_of_mem _ hw))
  | case4 u v rest hp ih =>
    rw [hasUnpaired, if_neg hp, h u List.mem_cons_self, Bool.false_or]
    exact ih fun w hw => h w (List.mem_cons_of_mem _ hw)

/-- The characters as code units, with `q` for a question mark. -/
def units (q : UInt16) (cs : List Char) : JString :=
  cs.flatMap fun c => if c = '?' then [q] else unitsOf c

theorem toNat_ofNat_of_lt {n : ℕ} (h : n < 0x10000) : (UInt16.ofNat n).toNat = n := by
  rw [UInt16.toNat_ofNat']
  exact Nat.mod_eq_of_lt h

/-- A reading without question marks determines the string. -/
theorem units_scalars {s : JString} (h : '?' ∉ scalars s) : units 0x3F (scalars s) = s := by
  have hunit : ∀ u : UInt16, '?' ≠ unit u →
      (if unit u = '?' then [0x3F] else unitsOf (unit u)) = [u] := by
    intro u hu
    have hs : (isHigh u || isLow u) = false := by
      rw [← Bool.not_eq_true]
      exact fun h => hu (unit_of_surrogate h).symm
    rw [if_neg hu.symm, unitsOf, toNat_unit hs, if_pos u.toNat_lt]
    simp
  induction s using scalars.induct with
  | case1 => rfl
  | case2 u =>
    simp only [scalars, List.mem_singleton] at h
    simp only [scalars, units, List.flatMap_cons, List.flatMap_nil, hunit u h, List.append_nil]
  | case3 u v rest hp ih =>
    rw [Bool.and_eq_true] at hp
    rw [scalars_cons_pair hp.1 hp.2, List.mem_cons, not_or] at h
    have hn := toNat_pair hp.1 hp.2
    rw [isHigh_iff, isLow_iff] at hp
    have hu : UInt16.ofNat (0xD800 + ((pair u v).toNat - 0x10000) / 0x400) = u := by
      apply UInt16.toNat_inj.1
      rw [hn, toNat_ofNat_of_lt] <;> omega
    have hv : UInt16.ofNat (0xDC00 + ((pair u v).toNat - 0x10000) % 0x400) = v := by
      apply UInt16.toNat_inj.1
      rw [hn, toNat_ofNat_of_lt] <;> omega
    rw [scalars_cons_pair (isHigh_iff.2 hp.1) (isLow_iff.2 hp.2), units, List.flatMap_cons,
      if_neg (Ne.symm h.1), unitsOf, if_neg (by omega), hu, hv]
    exact congrArg (u :: v :: ·) (ih h.2)
  | case4 u v rest hp ih =>
    rw [scalars, if_neg hp, List.mem_cons, not_or] at h
    rw [scalars, if_neg hp, units, List.flatMap_cons, hunit u h.1]
    exact congrArg (u :: ·) (ih h.2)

theorem scalars_inj {s t : JString} (hs : '?' ∉ scalars s) (h : scalars s = scalars t) : s = t := by
  rw [← units_scalars hs, h, units_scalars (h ▸ hs)]

/-- A reading comes back from its code units, whether a question mark is written as itself or as
a lone high surrogate. -/
theorem scalars_units {q : UInt16} (hq : q = 0x3F ∨ q = 0xD800) (cs : List Char) :
    scalars (units q cs) = cs := by
  have hqlow : isLow q = false := by rcases hq with rfl | rfl <;> rfl
  have hqunit : unit q = '?' := by rcases hq with rfl | rfl <;> rfl
  have hvalid : ∀ c : Char, c.toNat < 0xD800 ∨ (0xDFFF < c.toNat ∧ c.toNat < 0x110000) :=
    fun c => c.valid
  have hbmp : ∀ c : Char, c.toNat < 0x10000 →
      (isHigh (UInt16.ofNat c.toNat) || isLow (UInt16.ofNat c.toNat)) = false := by
    intro c hc
    have := hvalid c
    rw [Bool.or_eq_false_iff, ← Bool.not_eq_true, ← Bool.not_eq_true, isHigh_iff, isLow_iff,
      toNat_ofNat_of_lt hc]
    omega
  -- no character starts with a low surrogate
  have hhead : ∀ cs, ∀ v ∈ (units q cs).head?, isLow v = false := by
    intro cs v hv
    cases cs with
    | nil => cases hv
    | cons c cs =>
      rw [units, List.flatMap_cons] at hv
      split_ifs at hv with hc
      · simp only [List.singleton_append, List.head?_cons, Option.mem_def, Option.some.injEq] at hv
        rw [← hv]; exact hqlow
      · unfold unitsOf at hv
        split_ifs at hv with hlt
        · simp only [List.singleton_append, List.head?_cons, Option.mem_def,
            Option.some.injEq] at hv
          rw [← hv]; exact (Bool.or_eq_false_iff.1 (hbmp c hlt)).2
        · simp only [List.cons_append, List.head?_cons, Option.mem_def, Option.some.injEq] at hv
          have := hvalid c
          rw [← hv, ← Bool.not_eq_true, isLow_iff, toNat_ofNat_of_lt (by omega)]
          omega
  induction cs with
  | nil => rfl
  | cons c cs ih =>
    have hrest : units q (c :: cs) = (if c = '?' then [q] else unitsOf c) ++ units q cs := rfl
    rw [hrest]
    split_ifs with hc
    · rw [List.singleton_append, scalars_cons_of_not_low (hhead cs), hqunit, ih, hc]
    · unfold unitsOf
      split_ifs with hlt
      · have hb := hbmp c hlt
        rw [List.singleton_append, scalars_cons_of_not_high (Bool.or_eq_false_iff.1 hb).1, ih,
          unit, if_neg (by simp [hb]), toNat_ofNat_of_lt hlt, Char.ofNat_toNat]
      · have := hvalid c
        have hu : (UInt16.ofNat (0xD800 + (c.toNat - 0x10000) / 0x400)).toNat =
            0xD800 + (c.toNat - 0x10000) / 0x400 := toNat_ofNat_of_lt (by omega)
        have hv : (UInt16.ofNat (0xDC00 + (c.toNat - 0x10000) % 0x400)).toNat =
            0xDC00 + (c.toNat - 0x10000) % 0x400 := toNat_ofNat_of_lt (by omega)
        have hnat : 0x10000 + (0xD800 + (c.toNat - 0x10000) / 0x400 - 0xD800) * 0x400 +
            (0xDC00 + (c.toNat - 0x10000) % 0x400 - 0xDC00) = c.toNat := by omega
        rw [List.cons_append, List.singleton_append,
          scalars_cons_pair (isHigh_iff.2 (by omega)) (isLow_iff.2 (by omega)), ih, pair, hu, hv,
          hnat, Char.ofNat_toNat]

/-- A literal reads as itself. -/
theorem scalars_ofString (s : String) : scalars (ofString s) = s.toList := by
  have h : ofString s = units 0x3F s.toList := by
    rw [ofString, units]
    congr 1
    funext c
    split_ifs with hc
    · rw [hc]; rfl
    · rfl
  rw [h, scalars_units (Or.inl rfl)]

theorem ofString_injective : Function.Injective ofString := by
  intro s t h
  apply String.toList_injective
  rw [← scalars_ofString, ← scalars_ofString, h]

theorem unit_mem_scalars {c : UInt16} (hc : (isHigh c || isLow c) = false) {s : JString}
    (h : c ∈ s) : unit c ∈ scalars s := by
  obtain ⟨x, y, rfl⟩ := List.append_of_mem h
  rw [scalars_append_cons hc]
  simp

theorem units_ne {q q' : UInt16} (hq : q ≠ q') {cs : List Char} (h : '?' ∈ cs) :
    units q cs ≠ units q' cs := by
  induction cs with
  | nil => cases h
  | cons c cs ih =>
    rw [units, units, List.flatMap_cons, List.flatMap_cons]
    split_ifs with hc
    · exact fun e => hq (List.cons.inj e).1
    · exact fun e => ih ((List.mem_cons.1 h).resolve_left (Ne.symm hc)) (List.append_cancel_left e)

/-- A reading with a question mark is the reading of another string. -/
theorem exists_scalars_eq {s : JString} (hs : '?' ∈ scalars s) :
    ∃ t, t ≠ s ∧ scalars t = scalars s := by
  have hne : units 0x3F (scalars s) ≠ units 0xD800 (scalars s) := units_ne (by decide) hs
  by_cases h : units 0x3F (scalars s) = s
  · exact ⟨units 0xD800 (scalars s), fun e => hne (h.trans e.symm),
      scalars_units (Or.inr rfl) _⟩
  · exact ⟨units 0x3F (scalars s), h, scalars_units (Or.inl rfl) _⟩

/-! ### Decoding UTF-8 -/

/-- A decoder inside a character: the continuation bytes still to come, the range of the next one
and the bits collected. -/
structure Pending where
  needed : ℕ
  lower : ℕ
  upper : ℕ
  code : ℕ

/-- What a lead byte announces, or `none` where no character starts with it. -/
def lead (b : ℕ) : Option Pending :=
  if 0xC2 ≤ b ∧ b ≤ 0xDF then some ⟨1, 0x80, 0xBF, b - 0xC0⟩
  else if 0xE0 ≤ b ∧ b ≤ 0xEF then
    some ⟨2, if b = 0xE0 then 0xA0 else 0x80, if b = 0xED then 0x9F else 0xBF, b - 0xE0⟩
  else if 0xF0 ≤ b ∧ b ≤ 0xF4 then
    some ⟨3, if b = 0xF0 then 0x90 else 0x80, if b = 0xF4 then 0x8F else 0xBF, b - 0xF0⟩
  else none

/-- One byte between two characters. -/
def decodeStart (b : UInt8) : JString × Option Pending :=
  if b.toNat < 0x80 then ([b.toUInt16], none)
  else
    match lead b.toNat with
    | none => ([0xFFFD], none)
    | some p => ([], some p)

/-- One byte; one that cannot continue the character ends it with a replacement and starts over. -/
def decodeStep : Option Pending → UInt8 → JString × Option Pending
  | none, b => decodeStart b
  | some p, b =>
      if p.lower ≤ b.toNat ∧ b.toNat ≤ p.upper then
        let code := p.code * 64 + (b.toNat - 0x80)
        if p.needed = 1 then (unitsOf (Char.ofNat code), none)
        else ([], some ⟨p.needed - 1, 0x80, 0xBF, code⟩)
      else
        let r := decodeStart b
        (0xFFFD :: r.1, r.2)

/-- UTF-8 to UTF-16, U+FFFD replacing every maximal part of a malformed sequence. -/
def decodeUtf8From : Option Pending → List UInt8 → JString
  | none, [] => []
  | some _, [] => [0xFFFD]
  | st, b :: bs =>
      let r := decodeStep st b
      r.1 ++ decodeUtf8From r.2 bs

/-- `String(bytes, UTF_8)`. -/
def decodeUtf8 (bs : List UInt8) : JString := decodeUtf8From none bs

/-- ASCII text is decoded byte by byte, whatever follows it. -/
theorem decodeUtf8_ascii_append {bs : List UInt8} (h : ∀ b ∈ bs, b.toNat < 128)
    (rest : List UInt8) : decodeUtf8 (bs ++ rest) = bs.map UInt8.toUInt16 ++ decodeUtf8 rest := by
  unfold decodeUtf8
  induction bs with
  | nil => rfl
  | cons b bs ih =>
    rw [List.forall_mem_cons] at h
    rw [List.cons_append, decodeUtf8From, decodeStep, decodeStart, if_pos h.1, List.map_cons,
      ih h.2]
    rfl

end Utf16
