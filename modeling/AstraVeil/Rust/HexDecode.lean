import AstraVeil.Lib.Utf8
import AstraVeil.Rust.ZkCapability

/-!
# What `hex_decode` reads

`hex_decode` of `rust/src/zk_capability.rs` cuts its text after every second byte and hands the
pairs to `u8::from_str_radix`.  A cut inside of a character panics, and the number reader takes a
plus sign in front of one digit.

* `hexDecode_eq_none_iff`, `hexDecode_isSome_iff`: when it panics, and when it decodes;
* `hexExact_iff`: the texts on which it is the inverse of `hex_encode` and nothing else;
* `hex_decode_exact_iff`: these, the round trip, and when `zk_verify` aborts.
-/

namespace AstraVeil.Rust

/-- A hexadecimal digit, in either case. -/
def IsHexDigit (c : Char) : Prop :=
  ('0' ≤ c ∧ c ≤ '9') ∨ ('a' ≤ c ∧ c ≤ 'f') ∨ ('A' ≤ c ∧ c ≤ 'F')

instance (c : Char) : Decidable (IsHexDigit c) := inferInstanceAs (Decidable (_ ∨ _))

/-- `hex_decode` returns, decodes the texts of an even number of digits and no others, and gives the
bytes that are written so. -/
structure HexExact (s : String) : Prop where
  total : hexDecode s ≠ none
  decodes_iff : (∃ bytes, hexDecode s = some (some bytes)) ↔
    (asBytes s).length % 2 = 0 ∧ ∀ c ∈ s.toList, IsHexDigit c
  encoded : ∀ bytes, hexDecode s = some (some bytes) →
    hexEncode bytes = s.toList.map Char.toLower

/-- Pairs of bytes that `from_str_radix` takes for numbers, and nothing behind them. -/
def NumberPairs : List UInt8 → Prop
  | [] => True
  | [_] => False
  | a :: b :: rest => (fromStrRadix16 a b).isSome = true ∧ NumberPairs rest

/-- Behind number pairs the next pair ends inside of a character. -/
def CutsCharacter (bytes : List UInt8) : Prop :=
  ∃ ps a b rest, bytes = ps ++ a :: b :: rest ∧ NumberPairs ps ∧ isCharBoundary rest = false

/-! ### Pairs -/

theorem fromStrRadix16_isSome_iff {a b : UInt8} : (fromStrRadix16 a b).isSome = true ↔
    (a = 0x2B ∨ (toDigit16 a).isSome = true) ∧ (toDigit16 b).isSome = true := by
  unfold fromStrRadix16
  split_ifs with ha
  · simp [ha]
  · cases toDigit16 a <;> cases toDigit16 b <;> simp [ha]

theorem toDigit16_ascii (b : UInt8) : (toDigit16 b).isSome = true → b < 0x80 :=
  Utf8.forall_byte (P := fun b => (toDigit16 b).isSome = true → b < 0x80) (by decide +kernel) b

/-- A number pair begins with a whole character. -/
theorem isCharBoundary_of_numberPairs {bytes : List UInt8} (h : NumberPairs bytes) :
    isCharBoundary bytes = true := by
  match bytes, h with
  | [], _ => rfl
  | a :: b :: rest, h =>
    have ha : a < 0x80 := by
      rcases (fromStrRadix16_isSome_iff.1 h.1).1 with rfl | ha
      · decide
      · exact toDigit16_ascii a ha
    simp [isCharBoundary, UInt8.not_le.2 ha]

theorem cutsCharacter_cons {a b : UInt8} {rest : List UInt8} :
    CutsCharacter (a :: b :: rest) ↔
      isCharBoundary rest = false ∨ (fromStrRadix16 a b).isSome = true ∧ CutsCharacter rest := by
  constructor
  · rintro ⟨ps, a', b', rest', hbytes, hps, hcut⟩
    match ps, hps with
    | [], _ =>
      obtain ⟨-, -, rfl⟩ : a = a' ∧ b = b' ∧ rest = rest' := by simpa using hbytes
      exact Or.inl hcut
    | x :: y :: ps, hps =>
      obtain ⟨rfl, rfl, rfl⟩ : a = x ∧ b = y ∧ rest = ps ++ a' :: b' :: rest' := by
        simpa using hbytes
      exact Or.inr ⟨hps.1, ps, a', b', rest', rfl, hps.2, hcut⟩
  · rintro (hcut | ⟨hnum, ps, a', b', rest', rfl, hps, hcut⟩)
    · exact ⟨[], a, b, rest, rfl, trivial, hcut⟩
    · exact ⟨a :: b :: ps, a', b', rest', rfl, ⟨hnum, hps⟩, hcut⟩

/-- The loop panics where a cut comes before the first pair that is no number. -/
theorem hexDecodePairs_eq_none_iff (bytes : List UInt8) :
    hexDecodePairs bytes = none ↔ CutsCharacter bytes := by
  induction bytes using hexDecodePairs.induct with
  | case1 =>
    refine iff_of_false (by simp [hexDecodePairs]) ?_
    rintro ⟨ps, a, b, rest, hbytes, -⟩
    simp at hbytes
  | case2 x =>
    refine iff_of_false (by simp [hexDecodePairs]) ?_
    rintro ⟨ps, a, b, rest, hbytes, -⟩
    have hlen := congrArg List.length hbytes
    simp at hlen
    omega
  | case3 a b rest hcut => simp [hexDecodePairs, cutsCharacter_cons, hcut]
  | case4 a b rest hcut hnum => simp [hexDecodePairs, cutsCharacter_cons, hcut, hnum]
  | case5 a b rest hcut v hnum ih => simp [hexDecodePairs, cutsCharacter_cons, hcut, hnum, ih]

/-- The loop gives bytes for number pairs only. -/
theorem hexDecodePairs_isSome_iff (bytes : List UInt8) :
    (∃ data, hexDecodePairs bytes = some (some data)) ↔ NumberPairs bytes := by
  induction bytes using hexDecodePairs.induct with
  | case1 => simp [hexDecodePairs, NumberPairs]
  | case2 x => simp [hexDecodePairs, NumberPairs]
  | case3 a b rest hcut =>
    refine iff_of_false (by simp [hexDecodePairs, hcut]) fun h => ?_
    rw [isCharBoundary_of_numberPairs h.2] at hcut
    exact absurd hcut (by decide)
  | case4 a b rest hcut hnum => simp [hexDecodePairs, NumberPairs, hcut, hnum]
  | case5 a b rest hcut v hnum ih =>
    rw [NumberPairs, hnum, ← ih]
    simp only [hexDecodePairs, hcut, hnum]
    constructor
    · rintro ⟨data, h⟩
      simp only [Bool.true_eq_false, if_false, Option.map_eq_some_iff] at h
      obtain ⟨o, ho, d, rfl, -⟩ := h
      exact ⟨rfl, d, ho⟩
    · rintro ⟨-, d, hd⟩
      exact ⟨v :: d, by simp [hd]⟩

theorem even_of_numberPairs {bytes : List UInt8} (h : NumberPairs bytes) :
    bytes.length % 2 = 0 := by
  induction bytes using NumberPairs.induct with
  | case1 => rfl
  | case2 x => exact h.elim
  | case3 a b rest ih =>
    have hrest := ih h.2
    rw [List.length_cons, List.length_cons]
    omega

theorem digits_iff_numberPairs {bytes : List UInt8} (heven : bytes.length % 2 = 0) :
    (∀ b ∈ bytes, (toDigit16 b).isSome = true) ↔ NumberPairs bytes ∧ 0x2B ∉ bytes := by
  have hplus : toDigit16 0x2B = none := by decide
  induction bytes using NumberPairs.induct with
  | case1 => simp [NumberPairs]
  | case2 x => simp at heven
  | case3 a b rest ih =>
    rw [List.length_cons, List.length_cons] at heven
    have htail : (∀ b ∈ rest, (toDigit16 b).isSome = true) ↔ NumberPairs rest ∧ 0x2B ∉ rest :=
      ih (by omega)
    rw [List.forall_mem_cons, List.forall_mem_cons, htail, NumberPairs,
      fromStrRadix16_isSome_iff, List.mem_cons, List.mem_cons]
    constructor
    · rintro ⟨ha, hb, hrest, hnot⟩
      refine ⟨⟨⟨Or.inr ha, hb⟩, hrest⟩, ?_⟩
      rintro (rfl | rfl | h)
      · rw [hplus] at ha; exact absurd ha (by decide)
      · rw [hplus] at hb; exact absurd hb (by decide)
      · exact hnot h
    · rintro ⟨⟨⟨ha, hb⟩, hrest⟩, hnot⟩
      rw [not_or, not_or] at hnot
      exact ⟨ha.resolve_left (Ne.symm hnot.1), hb, hrest, hnot.2.2⟩

/-! ### Characters -/

/-- A digit is one byte, whose value is that of the lower-case digit. -/
theorem hexDigit_spec {c : Char} (h : IsHexDigit c) : ∃ b, String.utf8EncodeChar c = [b] ∧
    b ≠ 0x2B ∧ ∃ i < 16, toDigit16 b = some i ∧ Nat.digitChar i = c.toLower := by
  have key : ∀ n : Fin 128, IsHexDigit (Char.ofNat n) → UInt8.ofNat n ≠ 0x2B ∧
      ∃ i : Fin 16, toDigit16 (UInt8.ofNat n) = some i.val ∧
        Nat.digitChar i = (Char.ofNat n).toLower := by
    decide +kernel
  have hle : c.toNat ≤ 0x7F := by
    simp only [IsHexDigit, Base64Url.le_iff_toNat] at h
    have h9 : '9'.toNat = 57 := rfl
    have hf : 'f'.toNat = 102 := rfl
    have hF : 'F'.toNat = 70 := rfl
    omega
  obtain ⟨hplus, i, hval, hdigit⟩ := key ⟨c.toNat, by omega⟩ (by rwa [Char.ofNat_toNat])
  rw [Char.ofNat_toNat] at hdigit
  exact ⟨UInt8.ofNat c.toNat, if_pos hle, hplus, i, i.isLt, hval, hdigit⟩

/-- A character is a digit if all of its bytes are. -/
theorem isHexDigit_iff_bytes (c : Char) :
    (∀ b ∈ String.utf8EncodeChar c, (toDigit16 b).isSome = true) ↔ IsHexDigit c := by
  have hlast : ∀ n < 0x40, toDigit16 (UInt8.ofNat (n + 0x80)) = none := by decide +kernel
  have key : ∀ n : Fin 128, (toDigit16 (UInt8.ofNat n)).isSome = true →
      IsHexDigit (Char.ofNat n) := by
    decide +kernel
  constructor
  · intro h
    by_cases hle : c.toNat ≤ 0x7F
    · have hbyte : String.utf8EncodeChar c = [UInt8.ofNat c.toNat] := if_pos hle
      rw [hbyte] at h
      have hdigit := key ⟨c.toNat, by omega⟩ (h _ (List.mem_singleton.2 rfl))
      rwa [Char.ofNat_toNat] at hdigit
    · -- the last byte of a longer form is none
      have hmem : UInt8.ofNat (c.toNat % 0x40 + 0x80) ∈ String.utf8EncodeChar c := by
        have hle' : ¬ c.val.toNat ≤ 0x7F := hle
        change UInt8.ofNat (c.val.toNat % 0x40 + 0x80) ∈ String.utf8EncodeChar c
        simp only [String.utf8EncodeChar, hle', if_false]
        split_ifs <;> simp only [List.mem_cons, true_or, or_true]
      have hdigit := h _ hmem
      rw [hlast _ (Nat.mod_lt _ (by decide))] at hdigit
      exact absurd hdigit (by decide)
  · intro h b hb
    obtain ⟨b', hbytes, -, i, -, hval, -⟩ := hexDigit_spec h
    rw [hbytes, List.mem_singleton] at hb
    rw [hb, hval]
    rfl

theorem isHexDigit_iff (cs : List Char) :
    (∀ b ∈ cs.flatMap String.utf8EncodeChar, (toDigit16 b).isSome = true) ↔
      ∀ c ∈ cs, IsHexDigit c := by
  simp only [List.mem_flatMap, forall_exists_index, and_imp]
  constructor
  · exact fun h c hc => (isHexDigit_iff_bytes c).1 fun b hb => h b c hc hb
  · exact fun h b c hc hb => (isHexDigit_iff_bytes c).2 (h c hc) b hb

/-- The bytes that digits stand for are written with the same digits, in lower case. -/
theorem hexEncode_hexDecodePairs : ∀ {cs : List Char} {data : List UInt8},
    (∀ c ∈ cs, IsHexDigit c) →
    hexDecodePairs (cs.flatMap String.utf8EncodeChar) = some (some data) →
      hexEncode data = cs.map Char.toLower
  | [], data, _, h => by
    cases h
    rfl
  | [c], data, hc, h => by
    obtain ⟨b, hb, -⟩ := hexDigit_spec (hc c (List.mem_singleton.2 rfl))
    rw [List.flatMap_cons, List.flatMap_nil, List.append_nil, hb] at h
    cases h
  | c :: d :: cs, data, hcs, h => by
    rw [List.forall_mem_cons, List.forall_mem_cons] at hcs
    obtain ⟨x, hx, hplus, i, hi, hival, hidigit⟩ := hexDigit_spec hcs.1
    obtain ⟨y, hy, -, j, hj, hjval, hjdigit⟩ := hexDigit_spec hcs.2.1
    rw [List.flatMap_cons, List.flatMap_cons, hx, hy, List.singleton_append, List.singleton_append,
      hexDecodePairs, fromStrRadix16, if_neg hplus, hival, hjval] at h
    split_ifs at h with hcut
    obtain ⟨o, ho, hdata⟩ := Option.map_eq_some_iff.1 h
    obtain ⟨rest, rfl, rfl⟩ := Option.map_eq_some_iff.1 hdata
    have ih := hexEncode_hexDecodePairs hcs.2.2 ho
    have hbyte : (UInt8.ofNat (16 * i + j)).toNat = 16 * i + j :=
      UInt8.toNat_ofNat_of_lt' (show _ < 256 by omega)
    have hhi : (16 * i + j) / 16 = i := by omega
    have hlo : (16 * i + j) % 16 = j := by omega
    rw [hexEncode, Digits.hex, List.flatMap_cons, hbyte, hhi, hlo, hidigit, hjdigit]
    exact congrArg (fun t => c.toLower :: d.toLower :: t) ih

/-! ### Texts -/

theorem asBytes_eq (s : String) : asBytes s = s.toList.flatMap String.utf8EncodeChar := by
  rw [← ZkCapability.asBytes_ofList, String.ofList_toList]

/-- When `hex_decode` panics. -/
theorem hexDecode_eq_none_iff (s : String) :
    hexDecode s = none ↔ (asBytes s).length % 2 = 0 ∧ CutsCharacter (asBytes s) := by
  unfold hexDecode
  split_ifs with hodd
  · exact iff_of_false (by simp) fun h => hodd h.1
  · rw [hexDecodePairs_eq_none_iff, and_iff_right (not_not.1 hodd)]

/-- When `hex_decode` gives bytes. -/
theorem hexDecode_isSome_iff (s : String) :
    (∃ data, hexDecode s = some (some data)) ↔ NumberPairs (asBytes s) := by
  unfold hexDecode
  split_ifs with hodd
  · exact iff_of_false (by simp) fun h => hodd (even_of_numberPairs h)
  · exact hexDecodePairs_isSome_iff _

/-- A number pair with a plus sign and a cut inside of a character are what goes wrong. -/
theorem hexExact_iff (s : String) :
    HexExact s ↔ (asBytes s).length % 2 ≠ 0 ∨ ¬ CutsCharacter (asBytes s) ∧
      ¬ (NumberPairs (asBytes s) ∧ 0x2B ∈ asBytes s) := by
  have hchars := isHexDigit_iff s.toList
  rw [← asBytes_eq] at hchars
  constructor
  · rintro ⟨htotal, hiff, -⟩
    by_cases heven : (asBytes s).length % 2 = 0
    · refine Or.inr ⟨fun hcut => htotal ((hexDecode_eq_none_iff s).2 ⟨heven, hcut⟩), ?_⟩
      rintro ⟨hnum, hplus⟩
      have hdigits := hchars.2 (hiff.1 ((hexDecode_isSome_iff s).2 hnum)).2
      exact ((digits_iff_numberPairs heven).1 hdigits).2 hplus
    · exact Or.inl heven
  · intro h
    by_cases heven : (asBytes s).length % 2 = 0
    · obtain ⟨hcut, hplus⟩ := h.resolve_left (not_not.2 heven)
      have hdigits : NumberPairs (asBytes s) ↔ ∀ c ∈ s.toList, IsHexDigit c := by
        rw [← hchars, digits_iff_numberPairs heven]
        exact ⟨fun hnum => ⟨hnum, fun hmem => hplus ⟨hnum, hmem⟩⟩, fun hnum => hnum.1⟩
      refine ⟨fun hnone => hcut ((hexDecode_eq_none_iff s).1 hnone).2, ?_, fun data hdata => ?_⟩
      · rw [hexDecode_isSome_iff, hdigits, and_iff_right heven]
      · have hhex := hdigits.1 ((hexDecode_isSome_iff s).1 ⟨data, hdata⟩)
        rw [hexDecode, if_neg (not_not.2 heven), asBytes_eq] at hdata
        exact hexEncode_hexDecodePairs hhex hdata
    · have hnone : hexDecode s = some none := if_pos heven
      refine ⟨by simp [hnone], ?_, fun data hdata => ?_⟩
      · exact iff_of_false (by simp [hnone]) fun hdec => heven hdec.1
      · rw [hnone] at hdata
        cases hdata

/-! ### Transcripts -/

namespace ZkCapability

/-- `zk_verify`, of a null pointer or a text, with the transcript that `serde_json::from_str` makes
of the text as a parameter; `none` is a panic, which aborts the process. -/
def zkVerify (C : Crypto) (fromStr : String → Option ProofTranscript) : Option String → Option ℤ
  | none => some (-1)
  | some json =>
      match fromStr json with
      | none => some (-1)
      | some transcript => (verifyTranscript C transcript).map fun ok => if ok then 1 else 0

/-- The text panics. -/
def Cuts (s : String) : Prop := (asBytes s).length % 2 = 0 ∧ CutsCharacter (asBytes s)

/-- A field cuts a character, and the fields before it are number pairs. -/
def AnyCuts : List String → Prop
  | [] => False
  | s :: rest => Cuts s ∨ NumberPairs (asBytes s) ∧ AnyCuts rest

/-- The fields in the order in which they are decoded. -/
def transcriptFields (t : ProofTranscript) : List String :=
  [t.commitment, t.challenge, t.response, t.publicKey]

theorem decoding_eq_none {s : String} {rest : List UInt8 → Option Bool} {p : Prop}
    (hrest : ∀ bytes, rest bytes = none ↔ p) :
    decoding s rest = none ↔ Cuts s ∨ NumberPairs (asBytes s) ∧ p := by
  rw [Cuts, ← hexDecode_eq_none_iff, ← hexDecode_isSome_iff, decoding]
  cases hexDecode s with
  | none => simp
  | some d =>
    cases d with
    | none => simp
    | some bytes => simp [hrest bytes]

/-- When `verify_transcript` panics. -/
theorem verifyTranscript_eq_none_iff (C : Crypto) (t : ProofTranscript) :
    verifyTranscript C t = none ↔ AnyCuts (transcriptFields t) :=
  decoding_eq_none fun _ => decoding_eq_none fun _ => decoding_eq_none fun _ =>
    decoding_eq_none fun _ => iff_of_false (Option.some_ne_none _) id

theorem zkVerify_eq_none_iff (C : Crypto) (fromStr : String → Option ProofTranscript)
    (json : Option String) : zkVerify C fromStr json = none ↔
      ∃ text transcript, json = some text ∧ fromStr text = some transcript ∧
        AnyCuts (transcriptFields transcript) := by
  cases json with
  | none => simp [zkVerify]
  | some text =>
    unfold zkVerify
    cases htext : fromStr text with
    | none => simp [htext]
    | some transcript => simp [htext, verifyTranscript_eq_none_iff]

/-- **When `hex_decode` is total and exact**: on texts of odd length, and on those that cut no
character and are no number pairs with a plus sign.  It reads back what `hex_encode` writes, and
`zk_verify` aborts where a field cuts a character behind fields of number pairs. -/
theorem hex_decode_exact_iff (s : String) :
    (HexExact s ↔ (asBytes s).length % 2 ≠ 0 ∨ ¬ CutsCharacter (asBytes s) ∧
      ¬ (NumberPairs (asBytes s) ∧ 0x2B ∈ asBytes s)) ∧
    (∀ data : List UInt8, hexDecode (String.ofList (hexEncode data)) = some (some data)) ∧
    ∀ (C : Crypto) (fromStr : String → Option ProofTranscript) (json : Option String),
      zkVerify C fromStr json ≠ none ↔ ∀ text transcript, json = some text →
        fromStr text = some transcript → ¬ AnyCuts (transcriptFields transcript) := by
  refine ⟨hexExact_iff s, hexDecode_hexEncode, fun C fromStr json => ?_⟩
  rw [ne_eq, zkVerify_eq_none_iff]
  simp only [not_exists, not_and]

/-- A transcript whose commitment is `aéb`. -/
def sampleJson : String :=
  "\x7b\"commitment\":\"a\u00e9b\",\"challenge\":\"\"," ++
    "\"response\":\"\",\"public_key\":\"\"\x7d"

/-- What `serde_json` makes of it. -/
def sampleFromStr (json : String) : Option ProofTranscript :=
  if json = sampleJson then some ⟨"a\u00e9b", "", "", ""⟩ else none

/-- `aéb` panics, in a transcript it aborts the process, and `+f` is read as a byte. -/
theorem not_hexExact_sample :
    hexDecode "a\u00e9b" = none ∧ hexDecode "+f" = some (some [15]) ∧ ¬ (∀ s, HexExact s) ∧
      zkVerify sampleCrypto sampleFromStr (some sampleJson) = none := by
  have hpanic : hexDecode "a\u00e9b" = none := by decide +kernel
  refine ⟨hpanic, by decide +kernel, fun h => (h "a\u00e9b").total hpanic, ?_⟩
  rw [zkVerify, sampleFromStr, if_pos rfl, Option.map_eq_none_iff, verifyTranscript, decoding,
    hpanic]

end ZkCapability

end AstraVeil.Rust
