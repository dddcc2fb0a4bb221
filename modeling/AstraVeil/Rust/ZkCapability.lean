import AstraVeil.Rust.CapabilityToken

/-!
# Capability proofs

`rust/src/zk_capability.rs`: a commitment, a challenge and a response that is to show that the
prover knows the secret behind a public key.  The hash is a parameter (`Crypto`); nonces and
challenges, which the source takes from the clock, are arguments.  A call that panics is `none`.

* `honest_unique`: under an injective hash a commitment, a challenge and a public key leave room
  for one honest response only;
* `verify_iff`: what the verifier asks for leaves room for nearly all;
* `sound_iff`: for which commitments, challenges and public keys it accepts honest responses only.
-/

namespace AstraVeil.Rust

/-- `ProverSecret`. -/
structure ProverSecret where
  x : List UInt8
  publicKey : List UInt8

/-- `ProofTranscript`. -/
structure ProofTranscript where
  commitment : String
  challenge : String
  response : String
  publicKey : String

/-- Whether `&s[..i]` is a slice, where `rest` are the bytes from `i` on: no character is cut. -/
def isCharBoundary : List UInt8 → Bool
  | [] => true
  | b :: _ => !(decide (0x80 ≤ b) && decide (b < 0xC0))

/-- A digit of base 16, in either case. -/
def toDigit16 (b : UInt8) : Option ℕ :=
  if 0x30 ≤ b ∧ b ≤ 0x39 then some (b.toNat - 0x30)
  else if 0x61 ≤ b ∧ b ≤ 0x66 then some (b.toNat - 0x61 + 10)
  else if 0x41 ≤ b ∧ b ≤ 0x46 then some (b.toNat - 0x41 + 10)
  else none

/-- `u8::from_str_radix(_, 16).ok()` on a text of two bytes; the first may be a plus sign. -/
def fromStrRadix16 (a b : UInt8) : Option UInt8 :=
  if a = 0x2B then (toDigit16 b).map UInt8.ofNat
  else
    match toDigit16 a, toDigit16 b with
    | some i, some j => some (UInt8.ofNat (16 * i + j))
    | _, _ => none

/-- The loop of `hex_decode`; it stops at the first pair that is no number. -/
def hexDecodePairs : List UInt8 → Option (Option (List UInt8))
  | [] => some (some [])
  | [_] => some none
  | a :: b :: rest =>
      if isCharBoundary rest = false then none
      else
        match fromStrRadix16 a b with
        | none => some none
        | some v => (hexDecodePairs rest).map (Option.map (v :: ·))

/-- `hex_decode`. -/
def hexDecode (s : String) : Option (Option (List UInt8)) :=
  if (asBytes s).length % 2 ≠ 0 then some none else hexDecodePairs (asBytes s)

namespace ZkCapability

variable (C : Crypto)

/-- The prover that holds `x`. -/
def proverOf (x : List UInt8) : ProverSecret := ⟨x, C.sha256 x⟩

/-- `ProverSecret::from_token_hmac`. -/
def fromTokenHmac (hmac : String) : ProverSecret := proverOf C (asBytes hmac)

/-- `ProverSecret::commit`. -/
def commit (nonce : List UInt8) : List UInt8 :=
  C.sha256 (nonce ++ asBytes "astraveil-zk-commit")

/-- `ProverSecret::respond`. -/
def respond (p : ProverSecret) (nonce challenge : List UInt8) : List UInt8 :=
  C.sha256 (nonce ++ challenge ++ p.x ++ asBytes "astraveil-zk-respond")

/-- The hash of everything public. -/
def expectedBinding (commitment challenge publicKey : List UInt8) : List UInt8 :=
  C.sha256 (commitment ++ challenge ++ publicKey ++ asBytes "astraveil-zk-verify")

/-- `Verifier::verify`. -/
def verify (commitment challenge response publicKey : List UInt8) : Bool :=
  if commitment.length ≠ 32 ∨ response.length ≠ 32 ∨ publicKey.length ≠ 32 then false
  else if challenge = [] then false
  else if response = expectedBinding C commitment challenge publicKey then false
  else response.any (· ≠ 0)

/-- `match hex_decode(_) { Some(b) => b, None => return false }`, and what follows it. -/
def decoding (s : String) (rest : List UInt8 → Option Bool) : Option Bool :=
  match hexDecode s with
  | none => none
  | some none => some false
  | some (some bytes) => rest bytes

/-- `verify_transcript`. -/
def verifyTranscript (t : ProofTranscript) : Option Bool :=
  decoding t.commitment fun commitment =>
    decoding t.challenge fun challenge =>
      decoding t.response fun response =>
        decoding t.publicKey fun publicKey =>
          some (verify C commitment challenge response publicKey)

/-- The transcript of `prove`, with its nonce and challenge. -/
def prove (tokenHmac : String) (nonce challenge : List UInt8) : ProofTranscript :=
  let secret := fromTokenHmac C tokenHmac
  { commitment := String.ofList (hexEncode (commit C nonce))
    challenge := String.ofList (hexEncode challenge)
    response := String.ofList (hexEncode (respond C secret nonce challenge))
    publicKey := String.ofList (hexEncode secret.publicKey) }

/-- Some prover with some nonce produces this transcript. -/
def Honest (commitment challenge response publicKey : List UInt8) : Prop :=
  ∃ nonce x, commitment = commit C nonce ∧ publicKey = (proverOf C x).publicKey ∧
    response = respond C (proverOf C x) nonce challenge

/-- The text is the bytes in hexadecimal, in either case. -/
def IsHex (s : String) (bytes : List UInt8) : Prop := s.toList.map Char.toLower = hexEncode bytes

/-- The texts are those of an honest transcript. -/
def HonestTranscript (t : ProofTranscript) : Prop :=
  ∃ commitment challenge response publicKey,
    Honest C commitment challenge response publicKey ∧ IsHex t.commitment commitment ∧
      IsHex t.challenge challenge ∧ IsHex t.response response ∧ IsHex t.publicKey publicKey

/-- The checks of `verify` that do not look at the response. -/
def Structured (commitment challenge publicKey : List UInt8) : Prop :=
  commitment.length = 32 ∧ publicKey.length = 32 ∧ challenge ≠ []

/-- The same, for the texts of a transcript. -/
def StructuredTexts (commitment challenge publicKey : String) : Prop :=
  ∃ c ch pk, hexDecode commitment = some (some c) ∧ hexDecode challenge = some (some ch) ∧
    hexDecode publicKey = some (some pk) ∧ Structured c ch pk

/-! ### The texts -/

theorem asBytes_ofList (cs : List Char) :
    asBytes (String.ofList cs) = cs.flatMap String.utf8EncodeChar := by
  show (List.toByteArray (cs.flatMap String.utf8EncodeChar)).data.toList = _
  rw [List.data_toByteArray]

/-- The digits are read back, by the source's reader and by case folding. -/
theorem digitChar_spec : ∀ i : Fin 16,
    ∃ b, String.utf8EncodeChar (Nat.digitChar i) = [b] ∧ b ≠ 0x2B ∧ toDigit16 b = some i.val ∧
      isCharBoundary [b] = true ∧ (Nat.digitChar i).toLower = Nat.digitChar i := by
  intro i
  refine ⟨UInt8.ofNat (Nat.digitChar i).toNat, ?_⟩
  revert i
  decide

theorem toLower_hexEncode (data : List UInt8) :
    (hexEncode data).map Char.toLower = hexEncode data := by
  unfold hexEncode Digits.hex
  rw [List.map_flatMap]
  refine List.flatMap_congr fun b _ => ?_
  have hb := b.toNat_lt
  obtain ⟨-, -, -, -, -, hhi⟩ := digitChar_spec ⟨b.toNat / 16, by omega⟩
  obtain ⟨-, -, -, -, -, hlo⟩ := digitChar_spec ⟨b.toNat % 16, by omega⟩
  simp only at hhi hlo
  rw [List.map_cons, List.map_cons, List.map_nil, hhi, hlo]

theorem isHex_hexEncode (data : List UInt8) : IsHex (String.ofList (hexEncode data)) data := by
  rw [IsHex, String.toList_ofList, toLower_hexEncode]

theorem IsHex.unique {s : String} {a b : List UInt8} (ha : IsHex s a) (hb : IsHex s b) : a = b :=
  Digits.hex_injective (ha.symm.trans hb)

/-- `hex_decode` reads back what `hex_encode` writes. -/
theorem hexDecode_hexEncode (data : List UInt8) :
    hexDecode (String.ofList (hexEncode data)) = some (some data) := by
  have hpairs : ∃ bytes, asBytes (String.ofList (hexEncode data)) = bytes ∧
      bytes.length % 2 = 0 ∧ isCharBoundary bytes = true ∧
      hexDecodePairs bytes = some (some data) := by
    rw [asBytes_ofList]
    refine ⟨_, rfl, ?_⟩
    induction data with
    | nil => exact ⟨rfl, rfl, rfl⟩
    | cons b data ih =>
      have hb := b.toNat_lt
      obtain ⟨hi, hhi, hplus, hval, hcut, -⟩ := digitChar_spec ⟨b.toNat / 16, by omega⟩
      obtain ⟨lo, hlo, -, hval', -, -⟩ := digitChar_spec ⟨b.toNat % 16, by omega⟩
      simp only at hhi hval hlo hval'
      obtain ⟨heven, hbound, hrest⟩ := ih
      have hcons : (hexEncode (b :: data)).flatMap String.utf8EncodeChar =
          hi :: lo :: (hexEncode data).flatMap String.utf8EncodeChar := by
        simp only [hexEncode, Digits.hex, List.flatMap_cons, List.cons_append, List.nil_append,
          hhi, hlo]
      have hbyte : UInt8.ofNat (16 * (b.toNat / 16) + b.toNat % 16) = b :=
        ofNat_eq_of_toNat (by omega)
      rw [hcons]
      refine ⟨by simp only [List.length_cons]; omega, hcut, ?_⟩
      rw [hexDecodePairs, if_neg (by rw [hbound]; decide), fromStrRadix16, if_neg hplus, hval,
        hval', hrest]
      show some (some (UInt8.ofNat (16 * (b.toNat / 16) + b.toNat % 16) :: data)) = _
      rw [hbyte]
  obtain ⟨bytes, hbytes, heven, -, hdecode⟩ := hpairs
  rw [hexDecode, hbytes, if_neg (by omega), hdecode]

/-! ### What is accepted -/

variable {C}

theorem verify_iff {c ch r pk : List UInt8} :
    verify C c ch r pk = true ↔ Structured c ch pk ∧ r.length = 32 ∧
      r ≠ expectedBinding C c ch pk ∧ ∃ b ∈ r, b ≠ 0 := by
  unfold verify Structured
  split_ifs with hlen hch hbind
  · exact iff_of_false (by simp) fun h => by tauto
  · exact iff_of_false (by simp) fun h => h.1.2.2 hch
  · exact iff_of_false (by simp) fun h => h.2.2.1 hbind
  · simp only [List.any_eq_true, decide_eq_true_eq]
    tauto

/-- Two different responses that are accepted, whatever the public hash is. -/
theorem exists_two_verified {c ch pk : List UInt8} (h : Structured c ch pk) :
    ∃ r r', r ≠ r' ∧ verify C c ch r pk = true ∧ verify C c ch r' pk = true := by
  have hconst : ∀ v : UInt8, v ≠ 0 → List.replicate 32 v ≠ expectedBinding C c ch pk →
      verify C c ch (List.replicate 32 v) pk = true := by
    intro v hv hne
    exact verify_iff.2 ⟨h, by simp, hne, v, by simp, hv⟩
  have h12 : List.replicate 32 (1 : UInt8) ≠ List.replicate 32 2 := by decide
  have h13 : List.replicate 32 (1 : UInt8) ≠ List.replicate 32 3 := by decide
  have h23 : List.replicate 32 (2 : UInt8) ≠ List.replicate 32 3 := by decide
  -- at most one of the three is the public hash
  by_cases h1 : List.replicate 32 (1 : UInt8) = expectedBinding C c ch pk
  · exact ⟨_, _, h23, hconst 2 (by decide) (h1 ▸ h12.symm), hconst 3 (by decide) (h1 ▸ h13.symm)⟩
  by_cases h2 : List.replicate 32 (2 : UInt8) = expectedBinding C c ch pk
  · exact ⟨_, _, h13, hconst 1 (by decide) h1, hconst 3 (by decide) (h2 ▸ h23.symm)⟩
  · exact ⟨_, _, h12, hconst 1 (by decide) h1, hconst 2 (by decide) h2⟩

/-- The commitment fixes the nonce and the public key the secret. -/
theorem honest_unique (hinj : Function.Injective C.sha256) {c ch r r' pk : List UInt8}
    (h : Honest C c ch r pk) (h' : Honest C c ch r' pk) : r = r' := by
  obtain ⟨n, x, hc, hpk, hr⟩ := h
  obtain ⟨n', x', hc', hpk', hr'⟩ := h'
  have hn : n = n' := List.append_cancel_right (hinj (hc.symm.trans hc'))
  have hx : x = x' := hinj (hpk.symm.trans hpk')
  rw [hr, hr', hn, hx]

theorem decoding_eq_true {s : String} {rest : List UInt8 → Option Bool} :
    decoding s rest = some true ↔ ∃ bytes, hexDecode s = some (some bytes) ∧
      rest bytes = some true := by
  unfold decoding
  cases hexDecode s with
  | none => simp
  | some d =>
    cases d with
    | none => simp
    | some bytes => simp

/-- `verify_transcript` accepts what decodes and verifies. -/
theorem verifyTranscript_iff {t : ProofTranscript} :
    verifyTranscript C t = some true ↔ ∃ c ch r pk, hexDecode t.commitment = some (some c) ∧
      hexDecode t.challenge = some (some ch) ∧ hexDecode t.response = some (some r) ∧
      hexDecode t.publicKey = some (some pk) ∧ verify C c ch r pk = true := by
  simp only [verifyTranscript, decoding_eq_true, Option.some.injEq]
  constructor
  · rintro ⟨c, hc, ch, hch, r, hr, pk, hpk, hv⟩
    exact ⟨c, ch, r, pk, hc, hch, hr, hpk, hv⟩
  · rintro ⟨c, ch, r, pk, hc, hch, hr, hpk, hv⟩
    exact ⟨c, hc, ch, hch, r, hr, pk, hpk, hv⟩

/-- What `prove` writes down is honest. -/
theorem honestTranscript_prove (tokenHmac : String) (nonce challenge : List UInt8) :
    HonestTranscript C (prove C tokenHmac nonce challenge) :=
  ⟨_, _, _, _, ⟨nonce, asBytes tokenHmac, rfl, rfl, rfl⟩, isHex_hexEncode _, isHex_hexEncode _,
    isHex_hexEncode _, isHex_hexEncode _⟩

/-- **Only honest responses are accepted, exactly where none is accepted at all.** -/
theorem sound_iff (hinj : Function.Injective C.sha256) :
    (∀ c ch pk : List UInt8, (∀ r, verify C c ch r pk = true → Honest C c ch r pk) ↔
      ¬ Structured c ch pk) ∧
    ∀ c ch pk : String, (∀ r, verifyTranscript C ⟨c, ch, r, pk⟩ = some true →
      HonestTranscript C ⟨c, ch, r, pk⟩) ↔ ¬ StructuredTexts c ch pk := by
  constructor
  · intro c ch pk
    constructor
    · intro h hstruct
      obtain ⟨r, r', hne, hr, hr'⟩ := exists_two_verified (C := C) hstruct
      exact hne (honest_unique hinj (h r hr) (h r' hr'))
    · intro h r hr
      exact absurd (verify_iff.1 hr).1 h
  · intro c ch pk
    constructor
    · rintro h ⟨cb, chb, pkb, hc, hch, hpk, hstruct⟩
      obtain ⟨r, r', hne, hr, hr'⟩ := exists_two_verified (C := C) hstruct
      have haccepted : ∀ b, verify C cb chb b pkb = true →
          verifyTranscript C ⟨c, ch, String.ofList (hexEncode b), pk⟩ = some true := fun b hb =>
        verifyTranscript_iff.2 ⟨cb, chb, b, pkb, hc, hch, hexDecode_hexEncode b, hpk, hb⟩
      obtain ⟨c₁, ch₁, r₁, pk₁, hon, hc₁, hch₁, hr₁, hpk₁⟩ := h _ (haccepted r hr)
      obtain ⟨c₂, ch₂, r₂, pk₂, hon', hc₂, hch₂, hr₂, hpk₂⟩ := h _ (haccepted r' hr')
      -- the three other texts stand for the same bytes in both transcripts
      obtain rfl := hc₁.unique hc₂
      obtain rfl := hch₁.unique hch₂
      obtain rfl := hpk₁.unique hpk₂
      obtain rfl := hr₁.unique (isHex_hexEncode r)
      obtain rfl := hr₂.unique (isHex_hexEncode r')
      exact hne (honest_unique hinj hon hon')
    · intro h r hr
      obtain ⟨cb, chb, rb, pkb, hc, hch, -, hpk, hv⟩ := verifyTranscript_iff.1 hr
      exact absurd ⟨cb, chb, pkb, hc, hch, hpk, (verify_iff.1 hv).1⟩ h

/-- SHA-256 on the public text of the sample, and longer values elsewhere. -/
def sampleCrypto : Crypto where
  sha256 := Separated.pinned
    [(List.replicate 32 0xFF ++ List.replicate 32 1 ++ List.replicate 32 2 ++
        asBytes "astraveil-zk-verify",
      [232, 40, 166, 180, 81, 48, 35, 239, 202, 88, 146, 7, 3, 116, 58, 200, 174, 163, 95, 60, 14,
        212, 183, 203, 56, 100, 7, 73, 108, 67, 214, 101])] 32 0
  hmacSha256 _ message := message

theorem sampleCrypto_injective : Function.Injective sampleCrypto.sha256 :=
  Separated.pinned_injective 0 (by decide) (by decide)

/-- A commitment, a challenge and a public key out of the blue do for every response. -/
theorem not_sound_sample :
    ¬ ∀ r, verify sampleCrypto (List.replicate 32 0xFF) (List.replicate 32 1) r
      (List.replicate 32 2) = true → Honest sampleCrypto (List.replicate 32 0xFF)
        (List.replicate 32 1) r (List.replicate 32 2) := by
  rw [(sound_iff sampleCrypto_injective).1]
  exact not_not.2 ⟨by decide, by decide, by decide⟩

/-- Thirty-two fives are a response to them, and no nonce has that commitment. -/
theorem not_honest_forged :
    ¬ ∀ C : Crypto, Function.Injective C.sha256 → ∀ c ch r pk, verify C c ch r pk = true →
      Honest C c ch r pk := by
  intro h
  have haccepted : verify sampleCrypto (List.replicate 32 0xFF) (List.replicate 32 1)
      (List.replicate 32 5) (List.replicate 32 2) = true := by
    decide
  obtain ⟨nonce, x, hc, -⟩ := h sampleCrypto sampleCrypto_injective _ _ _ _ haccepted
  have hlookup : commit sampleCrypto nonce = (List.lookup _ _).getD _ := rfl
  rw [hlookup, List.lookup_cons, List.lookup_nil] at hc
  split at hc
  · rw [Option.getD_some] at hc
    exact absurd hc (by decide)
  · -- every other value of the hash is too long
    have hlen := congrArg List.length hc
    simp at hlen

end ZkCapability

end AstraVeil.Rust
