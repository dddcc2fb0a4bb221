import AstraVeil.Lib.Separated
import AstraVeil.Rust.Encoding

/-!
# Capability tokens

`rust/src/capability_token.rs`: the daemon signs `module_id:capability:issued_at:expires_at:nonce`
with HMAC-SHA256 and hands out the fields with the tag.  The hash functions are parameters
(`Crypto`); the clock and the process-wide nonce counter are explicit.

* `base64url_encode_correct`: tags are texts of RFC 4648 and `verify` compares MAC values;
* `computeHmac_inj`: with an injective MAC, equal tags mean equal payloads;
* `NonTransferable`: a token that an adversary assembles around issued tags verifies only if it
  is an issued token, for the module it was issued to;
* `nonTransferable_iff`: this holds exactly when no issued module id or capability contains the
  separator.
-/

namespace AstraVeil.Rust

/-- The hash functions of the crates `sha2` and `hmac`. -/
structure Crypto where
  sha256 : List UInt8 → List UInt8
  /-- `HmacSha256::new_from_slice(key)`, `update(message)`, `finalize()`. -/
  hmacSha256 : List UInt8 → List UInt8 → List UInt8

/-- `CapabilityToken`. -/
structure CapabilityToken where
  moduleId : String
  capability : String
  issuedAt : UInt64
  expiresAt : UInt64
  nonce : String
  hmac : String
  deriving DecidableEq

/-- `TokenAuthority`. -/
structure TokenAuthority where
  secret : List UInt8

/-- `u64::saturating_add`. -/
def saturatingAdd (a b : UInt64) : UInt64 :=
  if a.toNat + b.toNat < 2 ^ 64 then a + b else UInt64.ofNat (2 ^ 64 - 1)

/-- `u64::to_le_bytes`. -/
def toLeBytes (x : UInt64) : List UInt8 :=
  (List.range 8).map fun i => UInt8.ofNat (x.toNat / 256 ^ i)

/-- The arguments of one call of `issue`, with the clock reading `now` it makes. -/
structure IssueRequest where
  moduleId : String
  capability : String
  durationSecs : UInt64
  now : UInt64

namespace TokenAuthority

/-- The signed text of a token. -/
def payload (token : CapabilityToken) : String :=
  token.moduleId ++ ":" ++ token.capability ++ ":" ++ token.issuedAt.toNat.repr ++ ":" ++
    token.expiresAt.toNat.repr ++ ":" ++ token.nonce

variable (C : Crypto) (A : TokenAuthority)

/-- `compute_hmac`. -/
def computeHmac (token : CapabilityToken) : String :=
  String.ofList (base64urlEncode (C.hmacSha256 A.secret (asBytes (payload token))))

/-- The nonce of the call that found `count` in `COUNTER`. -/
def nonceOf (count : UInt64) (r : IssueRequest) : String :=
  let hash := C.sha256 (toLeBytes r.now ++ toLeBytes count ++ asBytes r.moduleId ++
    asBytes r.capability)
  String.ofList (hexEncode (hash.take 8))

/-- `issue`, by the call that found `count` in `COUNTER`. -/
def issue (count : UInt64) (r : IssueRequest) : CapabilityToken :=
  let token : CapabilityToken :=
    { moduleId := r.moduleId, capability := r.capability, issuedAt := r.now
      expiresAt := saturatingAdd r.now r.durationSecs, nonce := nonceOf C count r, hmac := "" }
  { token with hmac := computeHmac C A token }

/-- The tokens of a sequence of `issue` calls. -/
def issueAll : UInt64 → List IssueRequest → List CapabilityToken
  | _, [] => []
  | count, r :: rs => issue C A count r :: issueAll (count + 1) rs

/-- `verify`, at the clock reading `now`. -/
def verify (token : CapabilityToken) (expectedModuleId : String) (now : UInt64) : Bool :=
  if token.moduleId ≠ expectedModuleId then false
  else if now > token.expiresAt then false
  else constantTimeEq (asBytes token.hmac) (asBytes (computeHmac C A token))

/-- A token whose tag stems from the issued tokens verifies only if its fields do as well. -/
def NonTransferable (issued : List CapabilityToken) : Prop :=
  ∀ (token : CapabilityToken) (m : String) (now : UInt64),
    token.hmac ∈ issued.map (·.hmac) → verify C A token m now = true →
      ∃ s ∈ issued, s.moduleId = token.moduleId ∧ s.capability = token.capability ∧
        s.issuedAt = token.issuedAt ∧ s.expiresAt = token.expiresAt ∧ s.nonce = token.nonce ∧
        s.moduleId = m

/-! ### The signed text -/

/-- The fields of the signed text. -/
def fields (token : CapabilityToken) : List (List Char) :=
  [token.moduleId.toList, token.capability.toList, Nat.toDigits 10 token.issuedAt.toNat,
    Nat.toDigits 10 token.expiresAt.toNat, token.nonce.toList]

theorem toList_payload (token : CapabilityToken) :
    (payload token).toList = [':'].intercalate (fields token) := by
  simp [payload, fields, String.toList_append]

theorem fields_inj {s t : CapabilityToken} (h : fields s = fields t) :
    s.moduleId = t.moduleId ∧ s.capability = t.capability ∧ s.issuedAt = t.issuedAt ∧
      s.expiresAt = t.expiresAt ∧ s.nonce = t.nonce := by
  unfold fields at h
  simp only [List.cons.injEq, and_true, String.toList_inj] at h
  obtain ⟨h1, h2, h3, h4, h5⟩ := h
  exact ⟨h1, h2, UInt64.toNat_inj.1 (Digits.toDigits_injective h3),
    UInt64.toNat_inj.1 (Digits.toDigits_injective h4), h5⟩

variable {C A}

/-- Equal tags, equal signed texts. -/
theorem computeHmac_inj (hmac : Function.Injective (C.hmacSha256 A.secret))
    {s t : CapabilityToken} : computeHmac C A s = computeHmac C A t ↔ payload s = payload t := by
  constructor
  · intro h
    exact asBytes_injective (hmac (base64urlEncode_injective (String.ofList_injective h)))
  · intro h
    rw [computeHmac, computeHmac, h]

theorem verify_iff {token : CapabilityToken} {m : String} {now : UInt64} :
    verify C A token m now = true ↔
      token.moduleId = m ∧ now ≤ token.expiresAt ∧ token.hmac = computeHmac C A token := by
  unfold verify
  split_ifs with h1 h2
  · exact iff_of_false not_false fun h => h1 h.1
  · exact iff_of_false not_false fun h => UInt64.not_lt.2 h.2.1 h2
  · rw [constantTimeEq_iff]
    exact ⟨fun h => ⟨not_not.1 h1, UInt64.not_lt.1 h2, asBytes_injective h⟩,
      fun h => congrArg _ h.2.2⟩

/-- The tag that `verify` accepts is the base64url text of the MAC and no other. -/
theorem hmac_eq_computeHmac_iff {token : CapabilityToken} :
    token.hmac = computeHmac C A token ↔ Base64Url.decode token.hmac.toList =
      some (C.hmacSha256 A.secret (asBytes (payload token))) := by
  rw [decode_iff_base64urlEncode, computeHmac, ← String.toList_inj, String.toList_ofList]

/-- **`base64url_encode` is the unpadded encoding of RFC 4648 §5**: its alphabet, its length, what
the standard's decoder makes of it; so `verify` compares MAC values. -/
theorem base64url_encode_correct :
    (∀ data : List UInt8,
      (∀ c ∈ base64urlEncode data, c ∈ base64Chars ∧ (Base64Url.sextet c).isSome) ∧
      (base64urlEncode data).length = (4 * data.length + 2) / 3 ∧
      (∀ cs, Base64Url.decode cs = some data ↔ cs = base64urlEncode data)) ∧
    Function.Injective base64urlEncode ∧
    (∀ a b : List UInt8, constantTimeEq a b = true ↔ a = b) ∧
    (∀ mac mac' : List UInt8,
      constantTimeEq (asBytes (String.ofList (base64urlEncode mac)))
        (asBytes (String.ofList (base64urlEncode mac'))) = true ↔ mac = mac') ∧
    (∀ (C : Crypto) (A : TokenAuthority) (token : CapabilityToken) (m : String) (now : UInt64),
      verify C A token m now = true ↔ token.moduleId = m ∧ now ≤ token.expiresAt ∧
        Base64Url.decode token.hmac.toList =
          some (C.hmacSha256 A.secret (asBytes (payload token)))) := by
  refine ⟨fun data => ⟨fun c hc => ?_, ?_, fun cs => decode_iff_base64urlEncode⟩,
    base64urlEncode_injective, fun a b => constantTimeEq_iff, fun mac mac' => ?_,
    fun C A token m now => ?_⟩
  · have hmem := mem_of_mem_base64urlEncode hc
    exact ⟨hmem, sextet_isSome_of_mem hmem⟩
  · exact Base64Url.length_of_decode (decode_base64urlEncode data)
  · rw [constantTimeEq_iff, asBytes_injective.eq_iff, String.ofList_inj,
      base64urlEncode_injective.eq_iff]
  · rw [verify_iff, hmac_eq_computeHmac_iff]

/-! ### Issued tokens -/

theorem hmac_issue (count : UInt64) (r : IssueRequest) :
    (issue C A count r).hmac = computeHmac C A (issue C A count r) := rfl

theorem colon_not_mem_nonceOf (count : UInt64) (r : IssueRequest) :
    ':' ∉ (nonceOf C count r).toList := by
  rw [nonceOf, String.toList_ofList]
  exact Digits.not_mem_hex (by decide) _

/-- What is known of an issued token. -/
theorem mem_issueAll {count : UInt64} {reqs : List IssueRequest} {s : CapabilityToken}
    (h : s ∈ issueAll C A count reqs) :
    ∃ r ∈ reqs, s.moduleId = r.moduleId ∧ s.capability = r.capability ∧
      s.hmac = computeHmac C A s ∧ ':' ∉ s.nonce.toList := by
  induction reqs generalizing count with
  | nil => cases h
  | cons r rs ih =>
    rcases List.mem_cons.1 h with rfl | h
    · exact ⟨r, List.mem_cons_self, rfl, rfl, hmac_issue count r, colon_not_mem_nonceOf count r⟩
    · obtain ⟨r', hr', hs⟩ := ih h
      exact ⟨r', List.mem_cons_of_mem _ hr', hs⟩

/-- Every request is answered. -/
theorem exists_mem_issueAll (count : UInt64) {reqs : List IssueRequest} {r : IssueRequest}
    (h : r ∈ reqs) : ∃ s ∈ issueAll C A count reqs,
      s.moduleId = r.moduleId ∧ s.capability = r.capability := by
  induction reqs generalizing count with
  | nil => cases h
  | cons r' rs ih =>
    rcases List.mem_cons.1 h with rfl | h
    · exact ⟨issue C A count r, List.mem_cons_self, rfl, rfl⟩
    · obtain ⟨s, hs, hr⟩ := ih (count + 1) h
      exact ⟨s, List.mem_cons_of_mem _ hs, hr⟩

/-- A token whose module id and capability are free of the separator is the only reading of its
signed text. -/
theorem eq_of_payload_eq {s t : CapabilityToken} (hm : ':' ∉ s.moduleId.toList)
    (hc : ':' ∉ s.capability.toList) (hn : ':' ∉ s.nonce.toList) (h : payload s = payload t) :
    fields s = fields t := by
  refine Separated.intercalate_inj (s := ':') rfl ?_ ?_
  · simp only [fields, List.forall_mem_cons, List.not_mem_nil, false_imp_iff, implies_true,
      and_true]
    exact ⟨hm, hc, Digits.not_mem_toDigits rfl _, Digits.not_mem_toDigits rfl _, hn⟩
  · rw [← toList_payload, ← toList_payload, h]

/-- A separator in the module id or the capability: the same tag fits another module. -/
theorem exists_transfer {s : CapabilityToken} (hs : s.hmac = computeHmac C A s)
    (h : ':' ∈ s.moduleId.toList ∨ ':' ∈ s.capability.toList) :
    ∃ t : CapabilityToken, t.hmac = s.hmac ∧ t.nonce = s.nonce ∧ t.moduleId ≠ s.moduleId ∧
      verify C A t t.moduleId 0 = true := by
  obtain ⟨x, y, hxy, hne⟩ := Separated.resplit h
  refine ⟨{ s with moduleId := String.ofList x, capability := String.ofList y }, rfl, rfl, ?_, ?_⟩
  · intro e
    apply hne
    rw [← e, String.toList_ofList]
  · refine verify_iff.2 ⟨rfl, UInt64.zero_le, hs.trans ?_⟩
    have hpay : payload s = payload { s with moduleId := .ofList x, capability := .ofList y } := by
      apply String.toList_injective
      simp only [toList_payload, fields, String.toList_ofList, List.intercalate_cons_cons,
        ← List.append_assoc, List.append_cancel_right_eq]
      simpa using hxy.symm
    rw [computeHmac, computeHmac, hpay]

/-- **Tokens are bound to their module and capability exactly when the separator does not occur
in an issued module id or capability.** -/
theorem nonTransferable_iff (hmac : Function.Injective (C.hmacSha256 A.secret))
    (count : UInt64) (reqs : List IssueRequest)
    (hnonce : ((issueAll C A count reqs).map (·.nonce)).Nodup) :
    NonTransferable C A (issueAll C A count reqs) ↔
      ∀ r ∈ reqs, ':' ∉ r.moduleId.toList ∧ ':' ∉ r.capability.toList := by
  constructor
  · intro h r hr
    obtain ⟨s, hs, hm, hc⟩ := exists_mem_issueAll (C := C) (A := A) count hr
    obtain ⟨-, -, -, -, htag, -⟩ := mem_issueAll hs
    rw [← hm, ← hc, ← not_or]
    intro hsep
    obtain ⟨t, hthmac, htn, htm, htv⟩ := exists_transfer htag hsep
    obtain ⟨s', hs', hm', -, -, -, hn', -⟩ :=
      h t t.moduleId 0 (hthmac ▸ List.mem_map_of_mem hs) htv
    -- the nonce tells the issued tokens apart
    have hss : s' = s := List.inj_on_of_nodup_map hnonce hs' hs (hn'.trans htn)
    exact htm (by rw [← hm', hss])
  · intro h token m now hmem hver
    obtain ⟨hm, -, htok⟩ := verify_iff.1 hver
    obtain ⟨s, hs, hsh⟩ := List.mem_map.1 hmem
    obtain ⟨r, hr, hrm, hrc, htag, hn⟩ := mem_issueAll hs
    have hpay : payload s = payload token :=
      (computeHmac_inj hmac).1 (by rw [← htag, ← htok]; exact hsh)
    have hfree := h r hr
    rw [← hrm, ← hrc] at hfree
    obtain ⟨h1, h2, h3, h4, h5⟩ := fields_inj (eq_of_payload_eq hfree.1 hfree.2 hn hpay)
    exact ⟨s, hs, h1, h2, h3, h4, h5, h1.trans hm⟩

/-! ### Two tokens -/

/-- SHA-256 and HMAC-SHA256 (under the key `01020304`) on the texts of the two tokens below, and
injective elsewhere. -/
def sampleCrypto : Crypto where
  sha256 := Separated.pinned
    [(toLeBytes 1722556800 ++ toLeBytes 0 ++ asBytes "com.test.mod" ++ asBytes "overlayfs",
      [230, 190, 243, 44, 44, 86, 88, 10, 96, 247, 171, 121, 151, 11, 28, 178, 67, 150, 212, 204,
        204, 226, 139, 175, 176, 196, 48, 19, 35, 236, 97, 32]),
     (toLeBytes 1722556800 ++ toLeBytes 0 ++ asBytes "astra:builtin" ++ asBytes "shell",
      [151, 20, 119, 108, 26, 142, 88, 185, 18, 250, 106, 232, 143, 33, 112, 170, 105, 235, 172,
        161, 72, 148, 217, 111, 120, 91, 252, 184, 38, 152, 208, 66])] 32 0
  hmacSha256 := fun _ => Separated.pinned
    [(asBytes "com.test.mod:overlayfs:1722556800:1722560400:e6bef32c2c56580a",
      [50, 62, 255, 210, 166, 108, 205, 239, 111, 235, 183, 0, 134, 111, 156, 0, 71, 107, 46, 113,
        5, 248, 176, 95, 23, 181, 184, 86, 135, 34, 217, 33]),
     (asBytes "astra:builtin:shell:1722556800:1722560400:9714776c1a8e58b9",
      [197, 223, 248, 122, 124, 6, 41, 246, 30, 33, 243, 230, 35, 2, 156, 99, 185, 252, 227, 162,
        196, 246, 40, 133, 180, 212, 85, 64, 190, 206, 234, 14])] 32 0

/-- The authority of the unit tests. -/
def sampleAuthority : TokenAuthority := ⟨[1, 2, 3, 4]⟩

theorem sampleCrypto_injective :
    Function.Injective (sampleCrypto.hmacSha256 sampleAuthority.secret) :=
  Separated.pinned_injective 0 (by decide) (by decide)

/-- A module id without the separator: the token is bound to it. -/
theorem nonTransferable_overlayfs :
    NonTransferable sampleCrypto sampleAuthority (issueAll sampleCrypto sampleAuthority 0
      [⟨"com.test.mod", "overlayfs", 3600, 1722556800⟩]) :=
  (nonTransferable_iff sampleCrypto_injective 0 _ (by decide)).2 (by decide)

/-- The token issued to `astra:builtin` for `shell` is one of `astra` for `builtin:shell`. -/
theorem transferred_builtin :
    ¬ NonTransferable sampleCrypto sampleAuthority (issueAll sampleCrypto sampleAuthority 0
      [⟨"astra:builtin", "shell", 3600, 1722556800⟩]) := by
  intro h
  have hver : verify sampleCrypto sampleAuthority
      ⟨"astra", "builtin:shell", 1722556800, 1722560400, "9714776c1a8e58b9",
        "xd_4enwGKfYeIfPmIwKcY7n846LE9iiFtNRVQL7O6g4"⟩ "astra" 1722556801 = true := by decide
  obtain ⟨s, hs, hm, -⟩ := h _ _ _ (by decide) hver
  rw [issueAll, issueAll, List.mem_singleton] at hs
  subst hs
  revert hm
  decide

end TokenAuthority

end AstraVeil.Rust
