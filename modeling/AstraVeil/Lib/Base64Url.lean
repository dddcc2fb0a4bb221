import Mathlib.Data.List.Basic
import Mathlib.Data.List.Induction
import Mathlib.Data.Nat.Basic
import Mathlib.Tactic.Ring

/-!
# The base64url decoder of RFC 4648 §5

The reading of base64url text as the standard describes it: the six bits of every character, most
significant first, joined to one stream, which is cut into octets.  What is left after the last
octet is padding, fewer than six bits and all of them zero; any other text is refused.

* `bits_append`: the bits of a number whose high and low parts are given;
* `decode_eq_some_iff`: a text decodes to the octets whose bits, padded with zeros, are its bits;
* `decode_injective`: no two texts decode to the same octets.
-/

namespace AstraVeil.Base64Url

/-! ### Bits of a number -/

/-- The low `w` bits of a number, most significant first. -/
def bits : ℕ → ℕ → List Bool
  | 0, _ => []
  | w + 1, n => bits w (n / 2) ++ [n % 2 == 1]

/-- The number written by a list of bits. -/
def ofBits (s : List Bool) : ℕ := s.foldl (fun n b => 2 * n + b.toNat) 0

@[simp] theorem length_bits (w n : ℕ) : (bits w n).length = w := by
  induction w generalizing n with
  | zero => rfl
  | succ w ih => rw [bits, List.length_append, ih, List.length_singleton]

@[simp] theorem bits_zero (w : ℕ) : bits w 0 = List.replicate w false := by
  induction w with
  | zero => rfl
  | succ w ih => rw [bits, Nat.zero_div, ih, List.replicate_succ']; rfl

/-- The low part of a number has the last bits, the high part those before. -/
theorem bits_append {w b : ℕ} (v a : ℕ) (hb : b < 2 ^ w) :
    bits (v + w) (a * 2 ^ w + b) = bits v a ++ bits w b := by
  induction w generalizing b with
  | zero =>
    have hb0 : b = 0 := by simpa using hb
    simp [hb0, bits]
  | succ w ih =>
    have hb2 : b / 2 < 2 ^ w := by rw [pow_succ] at hb; omega
    have hdiv : (a * 2 ^ (w + 1) + b) / 2 = a * 2 ^ w + b / 2 := by
      rw [pow_succ, ← mul_assoc]; omega
    have hmod : (a * 2 ^ (w + 1) + b) % 2 = b % 2 := by
      rw [pow_succ, ← mul_assoc]; omega
    rw [← Nat.add_assoc, bits, hdiv, hmod, ih hb2, bits, List.append_assoc]

theorem bits_split (v w n : ℕ) : bits (v + w) n = bits v (n / 2 ^ w) ++ bits w (n % 2 ^ w) := by
  have h := bits_append v (n / 2 ^ w) (Nat.mod_lt n (Nat.two_pow_pos w))
  rwa [Nat.div_add_mod'] at h

theorem ofBits_append (s : List Bool) (b : Bool) : ofBits (s ++ [b]) = 2 * ofBits s + b.toNat := by
  rw [ofBits, List.foldl_append]; rfl

theorem ofBits_bits {w n : ℕ} (hn : n < 2 ^ w) : ofBits (bits w n) = n := by
  induction w generalizing n with
  | zero => have hn0 : n = 0 := by simpa using hn
            rw [hn0]; rfl
  | succ w ih =>
    rw [pow_succ] at hn
    rw [bits, ofBits_append, ih (by omega)]
    rcases Nat.mod_two_eq_zero_or_one n with h | h <;> simp [h] <;> omega

theorem bits_ofBits (s : List Bool) : bits s.length (ofBits s) = s := by
  induction s using List.reverseRecOn with
  | nil => rfl
  | append_singleton s b ih =>
    have hdiv : (2 * ofBits s + b.toNat) / 2 = ofBits s := by cases b <;> simp; omega
    have hmod : ((2 * ofBits s + b.toNat) % 2 == 1) = b := by cases b <;> simp
    rw [List.length_append, List.length_singleton, ofBits_append, bits, hdiv, hmod, ih]

theorem ofBits_lt (s : List Bool) : ofBits s < 2 ^ s.length := by
  induction s using List.reverseRecOn with
  | nil => decide
  | append_singleton s b ih =>
    rw [ofBits_append, List.length_append, List.length_singleton, pow_succ]
    cases b <;> simp <;> omega

/-! ### Octets -/

/-- The bits of a list of octets. -/
def octetBits (data : List UInt8) : List Bool := data.flatMap fun b => bits 8 b.toNat

/-- The first `k` octets of a stream of bits. -/
def octets : ℕ → List Bool → List UInt8
  | 0, _ => []
  | k + 1, s => UInt8.ofNat (ofBits (s.take 8)) :: octets k (s.drop 8)

@[simp] theorem octetBits_nil : octetBits [] = [] := rfl

theorem octetBits_cons (b : UInt8) (data : List UInt8) :
    octetBits (b :: data) = bits 8 b.toNat ++ octetBits data := rfl

@[simp] theorem length_octetBits (data : List UInt8) :
    (octetBits data).length = 8 * data.length := by
  induction data with
  | nil => rfl
  | cons b data ih =>
    rw [octetBits_cons, List.length_append, length_bits, ih, List.length_cons]
    ring

theorem octets_octetBits (data : List UInt8) (rest : List Bool) :
    octets data.length (octetBits data ++ rest) = data := by
  induction data with
  | nil => rfl
  | cons b data ih =>
    rw [List.length_cons, octets, octetBits_cons, List.append_assoc,
      List.take_left' (length_bits 8 _), List.drop_left' (length_bits 8 _), ih,
      ofBits_bits b.toNat_lt, UInt8.ofNat_toNat]

/-- A stream is its first octets and what is left after them. -/
theorem octetBits_octets {k : ℕ} {s : List Bool} (hk : 8 * k ≤ s.length) :
    octetBits (octets k s) ++ s.drop (8 * k) = s := by
  induction k generalizing s with
  | zero => rfl
  | succ k ih =>
    have hlen : (s.take 8).length = 8 := by rw [List.length_take]; omega
    have hlt : ofBits (s.take 8) < 256 := by simpa [hlen] using ofBits_lt (s.take 8)
    have hbits : bits 8 (UInt8.ofNat (ofBits (s.take 8))).toNat = s.take 8 := by
      rw [UInt8.toNat_ofNat_of_lt' hlt]
      simpa [hlen] using bits_ofBits (s.take 8)
    have hrest := ih (s := s.drop 8) (by rw [List.length_drop]; omega)
    rw [List.drop_drop, show 8 + 8 * k = 8 * (k + 1) by ring] at hrest
    rw [octets, octetBits_cons, hbits, List.append_assoc, hrest, List.take_append_drop]

/-! ### Sextets -/

theorem bits_two_four (a : ℕ) {b : ℕ} (hb : b < 256) :
    bits 6 (a * 16 + b / 16) = bits 2 a ++ bits 4 (b / 16) :=
  bits_append (w := 4) 2 a (by omega)

theorem bits_four_two (b : ℕ) {c : ℕ} (hc : c < 256) :
    bits 6 (b * 4 + c / 64) = bits 4 b ++ bits 2 (c / 64) :=
  bits_append (w := 2) 4 b (by omega)

theorem bits_six_two (a : ℕ) : bits 8 a = bits 6 (a / 4) ++ bits 2 (a % 4) := bits_split 6 2 a

theorem bits_four_four (b : ℕ) : bits 8 b = bits 4 (b / 16) ++ bits 4 (b % 16) := bits_split 4 4 b

theorem bits_two_six (c : ℕ) : bits 8 c = bits 2 (c / 64) ++ bits 6 (c % 64) := bits_split 2 6 c

/-- Three octets are four sextets. -/
theorem bits_sextets {a b c : ℕ} (hb : b < 256) (hc : c < 256) :
    bits 6 (a / 4) ++ (bits 6 (a % 4 * 16 + b / 16) ++
      (bits 6 (b % 16 * 4 + c / 64) ++ bits 6 (c % 64))) = bits 8 a ++ (bits 8 b ++ bits 8 c) := by
  rw [bits_two_four _ hb, bits_four_two _ hc, bits_six_two a, bits_four_four b, bits_two_six c]
  simp only [List.append_assoc]

/-- Two octets are three sextets with two bits of padding. -/
theorem bits_sextets_of_two {a b : ℕ} (hb : b < 256) :
    bits 6 (a / 4) ++ (bits 6 (a % 4 * 16 + b / 16) ++ bits 6 (b % 16 * 4)) =
      bits 8 a ++ (bits 8 b ++ List.replicate 2 false) := by
  have hpad : bits 6 (b % 16 * 4) = bits 4 (b % 16) ++ bits 2 0 := by
    have h := bits_four_two (b % 16) (c := 0) (by decide)
    rwa [Nat.zero_div, Nat.add_zero] at h
  rw [bits_two_four _ hb, hpad, bits_six_two a, bits_four_four b, bits_zero]
  simp only [List.append_assoc]

/-- One octet is two sextets with four bits of padding. -/
theorem bits_sextets_of_one (a : ℕ) :
    bits 6 (a / 4) ++ bits 6 (a % 4 * 16) = bits 8 a ++ List.replicate 4 false := by
  have hpad : bits 6 (a % 4 * 16) = bits 2 (a % 4) ++ bits 4 0 := by
    have h := bits_two_four (a % 4) (b := 0) (by decide)
    rwa [Nat.zero_div, Nat.add_zero] at h
  rw [hpad, bits_six_two a, bits_zero]
  simp only [List.append_assoc]

/-! ### Characters -/

/-- The value of a character of the URL and filename safe alphabet. -/
def sextet (c : Char) : Option ℕ :=
  if 'A' ≤ c ∧ c ≤ 'Z' then some (c.toNat - 'A'.toNat)
  else if 'a' ≤ c ∧ c ≤ 'z' then some (c.toNat - 'a'.toNat + 26)
  else if '0' ≤ c ∧ c ≤ '9' then some (c.toNat - '0'.toNat + 52)
  else if c = '-' then some 62
  else if c = '_' then some 63
  else none

/-- The bits of a text, if all of it is of the alphabet. -/
def stream : List Char → Option (List Bool)
  | [] => some []
  | c :: cs => (sextet c).bind fun v => (stream cs).map (bits 6 v ++ ·)

theorem stream_cons {c : Char} {v : ℕ} (hc : sextet c = some v) (cs : List Char) :
    stream (c :: cs) = (stream cs).map (bits 6 v ++ ·) := by
  rw [stream, hc]; rfl

/-- The octets of a text. -/
def decode (cs : List Char) : Option (List UInt8) :=
  (stream cs).bind fun s =>
    let rest := s.drop (8 * (s.length / 8))
    if rest.length < 6 ∧ ∀ b ∈ rest, b = false then some (octets (s.length / 8) s) else none

/-- The code point of a character of the alphabet, by its value. -/
def codePoint (v : ℕ) : ℕ :=
  if v < 26 then v + 65 else if v < 52 then v + 71 else if v < 62 then v - 4
  else if v = 62 then 45 else 95

theorem le_iff_toNat (c d : Char) : c ≤ d ↔ c.toNat ≤ d.toNat := Iff.rfl

theorem sextet_spec {c : Char} {v : ℕ} (h : sextet c = some v) :
    v < 64 ∧ c.toNat = codePoint v := by
  have hA : 'A'.toNat = 65 := rfl
  have hZ : 'Z'.toNat = 90 := rfl
  have ha : 'a'.toNat = 97 := rfl
  have hz : 'z'.toNat = 122 := rfl
  have h0 : '0'.toNat = 48 := rfl
  have h9 : '9'.toNat = 57 := rfl
  simp only [sextet, le_iff_toNat, hA, hZ, ha, hz, h0, h9] at h
  unfold codePoint
  split_ifs at h with h1 h2 h3 h4 h5
  · cases h; split_ifs <;> omega
  · cases h; split_ifs <;> omega
  · cases h; split_ifs <;> omega
  · cases h; subst h4; decide
  · cases h; subst h5; decide

theorem sextet_inj {c d : Char} {v : ℕ} (hc : sextet c = some v) (hd : sextet d = some v) :
    c = d :=
  Char.toNat_inj.1 ((sextet_spec hc).2.trans (sextet_spec hd).2.symm)

/-- No two texts have the same stream. -/
theorem stream_inj {cs ds : List Char} {s : List Bool} (hc : stream cs = some s)
    (hd : stream ds = some s) : cs = ds := by
  induction cs generalizing ds s with
  | nil =>
    cases hc
    cases ds with
    | nil => rfl
    | cons d ds =>
      obtain ⟨v, -, hv⟩ := Option.bind_eq_some_iff.1 hd
      obtain ⟨t, -, ht⟩ := Option.map_eq_some_iff.1 hv
      have hlen := congrArg List.length ht
      rw [List.length_append, length_bits, List.length_nil] at hlen
      omega
  | cons c cs ih =>
    obtain ⟨v, hv, hc⟩ := Option.bind_eq_some_iff.1 hc
    obtain ⟨t, ht, rfl⟩ := Option.map_eq_some_iff.1 hc
    cases ds with
    | nil =>
      have hlen := congrArg List.length (Option.some.inj hd)
      rw [List.length_append, length_bits, List.length_nil] at hlen
      omega
    | cons d ds =>
      obtain ⟨w, hw, hd⟩ := Option.bind_eq_some_iff.1 hd
      obtain ⟨u, hu, hd⟩ := Option.map_eq_some_iff.1 hd
      obtain ⟨hvw, rfl⟩ := List.append_inj hd (by rw [length_bits, length_bits])
      have hval : w = v := by
        rw [← ofBits_bits (w := 6) (sextet_spec hw).1, hvw, ofBits_bits (sextet_spec hv).1]
      subst hval
      rw [sextet_inj hv hw, ih ht hu]

theorem length_stream {cs : List Char} {s : List Bool} (h : stream cs = some s) :
    s.length = 6 * cs.length := by
  induction cs generalizing s with
  | nil => cases h; rfl
  | cons c cs ih =>
    obtain ⟨v, -, h⟩ := Option.bind_eq_some_iff.1 h
    obtain ⟨t, ht, rfl⟩ := Option.map_eq_some_iff.1 h
    rw [List.length_append, length_bits, ih ht, List.length_cons]
    ring

/-! ### The decoder -/

theorem decode_eq_some_iff {cs : List Char} {data : List UInt8} :
    decode cs = some data ↔
      ∃ z < 6, stream cs = some (octetBits data ++ List.replicate z false) := by
  simp only [decode, Option.bind_eq_some_iff]
  constructor
  · rintro ⟨s, hs, h⟩
    split_ifs at h with hrest
    cases h
    refine ⟨_, hrest.1, ?_⟩
    rw [hs, ← List.eq_replicate_of_mem hrest.2, octetBits_octets (by omega)]
  · rintro ⟨z, hz, hs⟩
    refine ⟨_, hs, ?_⟩
    have hlen : (octetBits data ++ List.replicate z false).length = 8 * data.length + z := by
      rw [List.length_append, length_octetBits, List.length_replicate]
    have hdiv : (8 * data.length + z) / 8 = data.length := by omega
    rw [hlen, hdiv, List.drop_left' (length_octetBits data), octets_octetBits]
    rw [if_pos ⟨by rwa [List.length_replicate], fun b hb => List.eq_of_mem_replicate hb⟩]

/-- Each text is the only one for its octets. -/
theorem decode_injective {cs ds : List Char} {data : List UInt8} (hc : decode cs = some data)
    (hd : decode ds = some data) : cs = ds := by
  obtain ⟨z, hz, hs⟩ := decode_eq_some_iff.1 hc
  obtain ⟨z', hz', hs'⟩ := decode_eq_some_iff.1 hd
  have hlen := length_stream hs
  have hlen' := length_stream hs'
  rw [List.length_append, List.length_replicate] at hlen hlen'
  have hzz : z = z' := by omega
  subst hzz
  exact stream_inj hs hs'

theorem length_of_decode {cs : List Char} {data : List UInt8} (h : decode cs = some data) :
    cs.length = (4 * data.length + 2) / 3 := by
  obtain ⟨z, hz, hs⟩ := decode_eq_some_iff.1 h
  have hlen := length_stream hs
  rw [List.length_append, length_octetBits, List.length_replicate] at hlen
  omega

example : decode "TWE".toList = some [77, 97] := by decide

end AstraVeil.Base64Url
