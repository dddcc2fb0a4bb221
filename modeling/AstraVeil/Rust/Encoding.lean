import AstraVeil.Lib.Base64Url
import AstraVeil.Lib.Digits

/-!
# Text encodings of the Rust library

`rust/src/capability_token.rs`: `base64url_encode`, `hex_encode` and `constant_time_eq`.  A Rust
string is a `String` (a list of Unicode scalar values); `asBytes` is its UTF-8 form.

* `constantTimeEq_iff`: the comparison without early exit is equality;
* `base64urlDecode_encode`: a decoder recovers the bytes, hence `base64urlEncode_injective`;
* `decode_base64urlEncode`: so does the decoder of RFC 4648, which refuses every other text.
-/

namespace AstraVeil.Rust

/-- `as_bytes`. -/
def asBytes (s : String) : List UInt8 := s.toByteArray.data.toList

theorem asBytes_injective : Function.Injective asBytes := by
  intro s t h
  exact String.toByteArray_inj.1 (ByteArray.ext (Array.toList_inj.1 h))

/-- `constant_time_eq`. -/
def constantTimeEq (a b : List UInt8) : Bool :=
  if a.length ≠ b.length then false
  else (a.zip b).foldl (fun diff xy => diff ||| (xy.1 ^^^ xy.2)) 0 == 0

theorem foldl_diff_eq_zero (ps : List (UInt8 × UInt8)) (d : UInt8) :
    ps.foldl (fun diff xy => diff ||| (xy.1 ^^^ xy.2)) d = 0 ↔ d = 0 ∧ ∀ p ∈ ps, p.1 = p.2 := by
  induction ps generalizing d with
  | nil => simp
  | cons p ps ih =>
    rw [List.foldl_cons, ih, UInt8.or_eq_zero_iff, UInt8.xor_eq_zero_iff, List.forall_mem_cons,
      and_assoc]

theorem constantTimeEq_iff {a b : List UInt8} : constantTimeEq a b = true ↔ a = b := by
  unfold constantTimeEq
  split_ifs with hlen
  · exact iff_of_false not_false fun h => hlen (congrArg List.length h)
  · rw [beq_iff_eq, foldl_diff_eq_zero]
    refine ⟨fun h => ?_, ?_⟩
    · refine List.ext_getElem (not_not.1 hlen) fun i h₁ h₂ => ?_
      have hi : i < (a.zip b).length := by rw [List.length_zip]; omega
      have hp := h.2 _ (List.getElem_mem hi)
      rwa [List.getElem_zip] at hp
    · rintro rfl
      refine ⟨rfl, fun p hp => ?_⟩
      obtain ⟨i, hi, rfl⟩ := List.getElem_of_mem hp
      rw [List.getElem_zip]

/-! ### base64url -/

/-- `CHARS`. -/
def base64Chars : List Char :=
  "ABCDEFGHIJKLMNOPQRSTUVWXYZabcdefghijklmnopqrstuvwxyz0123456789-_".toList

/-- `CHARS[i] as char`; the index is below 64 wherever it is used. -/
def base64Char (i : ℕ) : Char := base64Chars.getD i 'A'

/-- The four characters of a full chunk. -/
def base64Quad (b0 b1 b2 : UInt8) : List Char :=
  let n := (b0.toNat <<< 16) ||| (b1.toNat <<< 8) ||| b2.toNat
  [base64Char (n >>> 18 &&& 0x3F), base64Char (n >>> 12 &&& 0x3F),
    base64Char (n >>> 6 &&& 0x3F), base64Char (n &&& 0x3F)]

/-- `base64url_encode`, over `data.chunks(3)`; a short last chunk is filled with zeros and gives
one character more than it has bytes. -/
def base64urlEncode : List UInt8 → List Char
  | [] => []
  | [b0] => (base64Quad b0 0 0).take 2
  | [b0, b1] => (base64Quad b0 b1 0).take 3
  | b0 :: b1 :: b2 :: rest => base64Quad b0 b1 b2 ++ base64urlEncode rest

/-- The value of a base64url character. -/
def base64Value (c : Char) : ℕ := base64Chars.idxOf c

/-- A decoder for unpadded base64url. -/
def base64urlDecode : List Char → List UInt8
  | [] => []
  | [_] => []
  | [c0, c1] => [UInt8.ofNat (base64Value c0 * 4 + base64Value c1 / 16)]
  | [c0, c1, c2] =>
      [UInt8.ofNat (base64Value c0 * 4 + base64Value c1 / 16),
        UInt8.ofNat (base64Value c1 % 16 * 16 + base64Value c2 / 4)]
  | c0 :: c1 :: c2 :: c3 :: rest =>
      UInt8.ofNat (base64Value c0 * 4 + base64Value c1 / 16) ::
        UInt8.ofNat (base64Value c1 % 16 * 16 + base64Value c2 / 4) ::
        UInt8.ofNat (base64Value c2 % 4 * 64 + base64Value c3) :: base64urlDecode rest

theorem base64Value_char {i : ℕ} (hi : i < 64) : base64Value (base64Char i) = i := by
  have h : ∀ j : Fin 64, base64Value (base64Char j) = j := by decide +kernel
  exact h ⟨i, hi⟩

/-- The four indices of a chunk, as digits of its bytes. -/
theorem base64Quad_eq (b0 b1 b2 : UInt8) :
    base64Quad b0 b1 b2 = [base64Char (b0.toNat / 4),
      base64Char (b0.toNat % 4 * 16 + b1.toNat / 16),
      base64Char (b1.toNat % 16 * 4 + b2.toNat / 64), base64Char (b2.toNat % 64)] := by
  have h0 := b0.toNat_lt
  have h1 := b1.toNat_lt
  have h2 := b2.toNat_lt
  have hn : (b0.toNat <<< 16) ||| (b1.toNat <<< 8) ||| b2.toNat =
      b0.toNat * 65536 + b1.toNat * 256 + b2.toNat := by
    rw [← Nat.shiftLeft_add_eq_or_of_lt (i := 16) (by rw [Nat.shiftLeft_eq]; omega),
      Nat.shiftLeft_eq, Nat.shiftLeft_eq,
      show b0.toNat * 2 ^ 16 + b1.toNat * 2 ^ 8 = (b0.toNat * 256 + b1.toNat) <<< 8 by
        rw [Nat.shiftLeft_eq]; omega,
      ← Nat.shiftLeft_add_eq_or_of_lt (i := 8) (by omega), Nat.shiftLeft_eq]
    omega
  have hmask : ∀ m : ℕ, m &&& 0x3F = m % 64 := fun m => Nat.and_two_pow_sub_one_eq_mod m 6
  have e0 : (b0.toNat * 65536 + b1.toNat * 256 + b2.toNat) / 2 ^ 18 % 64 = b0.toNat / 4 := by omega
  have e1 : (b0.toNat * 65536 + b1.toNat * 256 + b2.toNat) / 2 ^ 12 % 64 =
      b0.toNat % 4 * 16 + b1.toNat / 16 := by omega
  have e2 : (b0.toNat * 65536 + b1.toNat * 256 + b2.toNat) / 2 ^ 6 % 64 =
      b1.toNat % 16 * 4 + b2.toNat / 64 := by omega
  have e3 : (b0.toNat * 65536 + b1.toNat * 256 + b2.toNat) % 64 = b2.toNat % 64 := by omega
  unfold base64Quad
  simp only [hn, hmask, Nat.shiftRight_eq_div_pow, e0, e1, e2, e3]

theorem ofNat_eq_of_toNat {n : ℕ} {b : UInt8} (h : n = b.toNat) : UInt8.ofNat n = b := by
  rw [h, UInt8.ofNat_toNat]

/-- The decoder recovers the bytes. -/
theorem base64urlDecode_encode (data : List UInt8) :
    base64urlDecode (base64urlEncode data) = data := by
  fun_induction base64urlEncode data with
  | case1 => rfl
  | case2 b0 =>
    have h0 := b0.toNat_lt
    rw [base64Quad_eq]
    simp only [List.take, base64urlDecode]
    rw [base64Value_char (by omega), base64Value_char (by simp; omega)]
    congr 1
    exact ofNat_eq_of_toNat (by simp; omega)
  | case3 b0 b1 =>
    have h0 := b0.toNat_lt
    have h1 := b1.toNat_lt
    rw [base64Quad_eq]
    simp only [List.take, base64urlDecode]
    rw [base64Value_char (by omega), base64Value_char (by omega), base64Value_char (by simp; omega)]
    congr 1
    · exact ofNat_eq_of_toNat (by omega)
    · congr 1
      exact ofNat_eq_of_toNat (by simp; omega)
  | case4 b0 b1 b2 rest ih =>
    have h0 := b0.toNat_lt
    have h1 := b1.toNat_lt
    have h2 := b2.toNat_lt
    rw [base64Quad_eq]
    simp only [List.cons_append, List.nil_append, base64urlDecode]
    rw [base64Value_char (by omega), base64Value_char (by omega), base64Value_char (by omega),
      base64Value_char (by omega), ih]
    congr 1
    · exact ofNat_eq_of_toNat (by omega)
    · congr 1
      · exact ofNat_eq_of_toNat (by omega)
      · congr 1
        exact ofNat_eq_of_toNat (by omega)

theorem base64urlEncode_injective : Function.Injective base64urlEncode :=
  Function.LeftInverse.injective base64urlDecode_encode

/-! ### The standard's reading of base64url -/

theorem sextet_base64Char {i : ℕ} (hi : i < 64) : Base64Url.sextet (base64Char i) = some i := by
  have h : ∀ j : Fin 64, Base64Url.sextet (base64Char j) = some (j : ℕ) := by decide +kernel
  exact h ⟨i, hi⟩

theorem base64Char_mem {i : ℕ} (hi : i < 64) : base64Char i ∈ base64Chars := by
  have h : ∀ j : Fin 64, base64Char j ∈ base64Chars := by decide +kernel
  exact h ⟨i, hi⟩

theorem sextet_isSome_of_mem {c : Char} (hc : c ∈ base64Chars) :
    (Base64Url.sextet c).isSome = true := by
  have h : base64Chars.all (fun c => (Base64Url.sextet c).isSome) = true := by decide +kernel
  exact List.all_eq_true.1 h c hc

theorem mem_of_mem_base64Quad {b0 b1 b2 : UInt8} {c : Char} (hc : c ∈ base64Quad b0 b1 b2) :
    c ∈ base64Chars := by
  have h0 := b0.toNat_lt
  have h1 := b1.toNat_lt
  have h2 := b2.toNat_lt
  rw [base64Quad_eq] at hc
  simp only [List.mem_cons, List.not_mem_nil, or_false] at hc
  rcases hc with rfl | rfl | rfl | rfl <;> exact base64Char_mem (by omega)

/-- Only characters of the alphabet are written. -/
theorem mem_of_mem_base64urlEncode {data : List UInt8} {c : Char}
    (hc : c ∈ base64urlEncode data) : c ∈ base64Chars := by
  fun_induction base64urlEncode data with
  | case1 => exact absurd hc List.not_mem_nil
  | case2 b0 => exact mem_of_mem_base64Quad (List.mem_of_mem_take hc)
  | case3 b0 b1 => exact mem_of_mem_base64Quad (List.mem_of_mem_take hc)
  | case4 b0 b1 b2 rest ih =>
    rcases List.mem_append.1 hc with h | h
    · exact mem_of_mem_base64Quad h
    · exact ih h

section Stream

open Base64Url

/-- A full chunk: four groups of six bits are three of eight. -/
theorem stream_quad_append (b0 b1 b2 : UInt8) (cs : List Char) :
    stream (base64Quad b0 b1 b2 ++ cs) =
      (stream cs).map (bits 8 b0.toNat ++ (bits 8 b1.toNat ++ bits 8 b2.toNat) ++ ·) := by
  have h0 := b0.toNat_lt
  have h1 := b1.toNat_lt
  have h2 := b2.toNat_lt
  rw [base64Quad_eq, ← bits_sextets h1 h2]
  simp only [List.cons_append, List.nil_append]
  rw [stream_cons (sextet_base64Char (by omega)), stream_cons (sextet_base64Char (by omega)),
    stream_cons (sextet_base64Char (by omega)), stream_cons (sextet_base64Char (by omega))]
  simp only [Option.map_map, Function.comp_def, List.append_assoc]

/-- A last chunk of one byte, with four bits of padding. -/
theorem stream_take_two (b0 : UInt8) :
    stream ((base64Quad b0 0 0).take 2) = some (bits 8 b0.toNat ++ List.replicate 4 false) := by
  have h0 := b0.toNat_lt
  rw [base64Quad_eq, ← bits_sextets_of_one]
  simp only [List.take, UInt8.toNat_zero, Nat.zero_div, Nat.add_zero]
  rw [stream_cons (sextet_base64Char (by omega)), stream_cons (sextet_base64Char (by omega))]
  simp only [stream, Option.map_some, List.append_nil]

/-- A last chunk of two bytes, with two bits of padding. -/
theorem stream_take_three (b0 b1 : UInt8) :
    stream ((base64Quad b0 b1 0).take 3) =
      some (bits 8 b0.toNat ++ (bits 8 b1.toNat ++ List.replicate 2 false)) := by
  have h0 := b0.toNat_lt
  have h1 := b1.toNat_lt
  rw [base64Quad_eq, ← bits_sextets_of_two h1]
  simp only [List.take, UInt8.toNat_zero, Nat.zero_div, Nat.add_zero]
  rw [stream_cons (sextet_base64Char (by omega)), stream_cons (sextet_base64Char (by omega)),
    stream_cons (sextet_base64Char (by omega))]
  simp only [stream, Option.map_some, List.append_nil]

/-- The bits of the text are those of the bytes and fewer than six zeros. -/
theorem stream_base64urlEncode (data : List UInt8) :
    ∃ z < 6, stream (base64urlEncode data) = some (octetBits data ++ List.replicate z false) := by
  fun_induction base64urlEncode data with
  | case1 => exact ⟨0, by decide, rfl⟩
  | case2 b0 => exact ⟨4, by decide, by simpa [octetBits_cons] using stream_take_two b0⟩
  | case3 b0 b1 => exact ⟨2, by decide, by simpa [octetBits_cons] using stream_take_three b0 b1⟩
  | case4 b0 b1 b2 rest ih =>
    obtain ⟨z, hz, hs⟩ := ih
    refine ⟨z, hz, ?_⟩
    rw [stream_quad_append, hs]
    simp [octetBits_cons, List.append_assoc]

/-- The decoder of the standard recovers the bytes. -/
theorem decode_base64urlEncode (data : List UInt8) :
    decode (base64urlEncode data) = some data :=
  decode_eq_some_iff.2 (stream_base64urlEncode data)

/-- No other text than the encoder's is read as the bytes. -/
theorem decode_iff_base64urlEncode {cs : List Char} {data : List UInt8} :
    decode cs = some data ↔ cs = base64urlEncode data := by
  constructor
  · exact fun h => decode_injective h (decode_base64urlEncode data)
  · rintro rfl
    exact decode_base64urlEncode data

end Stream

/-! ### Hexadecimal -/

/-- `hex_encode`: two lower-case digits a byte. -/
def hexEncode (data : List UInt8) : List Char := Digits.hex data

end AstraVeil.Rust
