import AstraVeil.Lib.JsonText
import AstraVeil.Rust.CapabilityToken

/-!
# The life time of a token

How long the tokens of `rust/src/capability_token.rs` verify, as they are issued and after a trip
through their JSON form.  The JSON codec is a parameter that gives every token back; `serdeJson`
is the text that `serde_json` writes.

* `toNat_saturatingAdd`: the expiry is the sum, cut at the largest `u64`;
* `verify_issue`: an issued token verifies for its module up to and including its expiry;
* `verify_issue_iff`: the same for the token that the codec gives back.
-/

namespace AstraVeil.Rust

theorem toNat_saturatingAdd (a b : UInt64) :
    (saturatingAdd a b).toNat = min (a.toNat + b.toNat) (2 ^ 64 - 1) := by
  unfold saturatingAdd
  split_ifs with h
  · rw [UInt64.toNat_add, Nat.mod_eq_of_lt h]
    omega
  · rw [UInt64.toNat_ofNat_of_lt' (by decide)]
    omega

namespace TokenAuthority

variable {C : Crypto} {A : TokenAuthority}

theorem verify_issue (count : UInt64) (r : IssueRequest) (m : String) (now : UInt64) :
    verify C A (issue C A count r) m now = true ↔
      m = r.moduleId ∧ now.toNat ≤ min (r.now.toNat + r.durationSecs.toNat) (2 ^ 64 - 1) := by
  rw [verify_iff, UInt64.le_iff_toNat_le]
  have hexpiry : (issue C A count r).expiresAt.toNat =
      min (r.now.toNat + r.durationSecs.toNat) (2 ^ 64 - 1) := toNat_saturatingAdd _ _
  rw [hexpiry]
  constructor
  · rintro ⟨hm, hnow, -⟩
    exact ⟨hm.symm, hnow⟩
  · rintro ⟨hm, hnow⟩
    exact ⟨hm.symm, hnow, hmac_issue count r⟩

/-- **An issued token verifies exactly for its module and up to the end of its duration, cut at
the largest `u64`, also after a trip through JSON.** -/
theorem verify_issue_iff (C : Crypto) (A : TokenAuthority)
    {toJson : CapabilityToken → String} {fromJson : String → Option CapabilityToken}
    (hserde : ∀ token, fromJson (toJson token) = some token)
    (count : UInt64) (r : IssueRequest) (m : String) (now : UInt64) :
    (verify C A (issue C A count r) m now = true ↔
      m = r.moduleId ∧ now.toNat ≤ min (r.now.toNat + r.durationSecs.toNat) (2 ^ 64 - 1)) ∧
    ∃ parsed, fromJson (toJson (issue C A count r)) = some parsed ∧
      (verify C A parsed m now = true ↔
        m = r.moduleId ∧ now.toNat ≤ min (r.now.toNat + r.durationSecs.toNat) (2 ^ 64 - 1)) :=
  ⟨verify_issue count r m now, _, hserde _, verify_issue count r m now⟩

/-! ### The text of `serde_json` -/

/-- Characters as code units. -/
def charUnits : JsonText.Units Char where
  code := Char.toNat
  ascii := Char.ofNat
  code_injective := fun _ _ h => Char.toNat_inj.1 h
  code_ascii := by decide

/-- The fields in the order of the declaration. -/
def tokenText (token : CapabilityToken) : List Char :=
  charUnits.lit "\x7b\"module_id\":" ++ (charUnits.quote token.moduleId.toList ++
    (charUnits.lit ",\"capability\":" ++ (charUnits.quote token.capability.toList ++
    (charUnits.lit ",\"issued_at\":" ++ (charUnits.number token.issuedAt.toNat ++
    (charUnits.lit "\"expires_at\":" ++ (charUnits.number token.expiresAt.toNat ++
    (charUnits.lit "\"nonce\":" ++ (charUnits.quote token.nonce.toList ++
    (charUnits.lit ",\"hmac\":" ++ (charUnits.quote token.hmac.toList ++
      charUnits.lit "\x7d")))))))))))

theorem delimited_tokenText : JsonText.Delimited tokenText := by
  have hquote : JsonText.Delimited charUnits.quote := JsonText.Units.delimited_quote
  have hnumber : JsonText.Delimited charUnits.number := JsonText.delimited_number
  intro s t x y h
  simp only [tokenText, List.append_assoc, List.append_cancel_left_eq] at h
  obtain ⟨h1, h⟩ := hquote _ _ _ _ h
  obtain ⟨h2, h⟩ := hquote _ _ _ _ (List.append_cancel_left h)
  obtain ⟨h3, h⟩ := hnumber _ _ _ _ (List.append_cancel_left h)
  obtain ⟨h4, h⟩ := hnumber _ _ _ _ (List.append_cancel_left h)
  obtain ⟨h5, h⟩ := hquote _ _ _ _ (List.append_cancel_left h)
  obtain ⟨h6, h⟩ := hquote _ _ _ _ (List.append_cancel_left h)
  refine ⟨?_, List.append_cancel_left h⟩
  obtain ⟨m, c, i, e, n, a⟩ := s
  obtain ⟨m', c', i', e', n', a'⟩ := t
  simp only [CapabilityToken.mk.injEq]
  exact ⟨String.toList_inj.1 h1, String.toList_inj.1 h2, UInt64.toNat_inj.1 (Int.ofNat.inj h3),
    UInt64.toNat_inj.1 (Int.ofNat.inj h4), String.toList_inj.1 h5, String.toList_inj.1 h6⟩

/-- `serde_json::to_string`. -/
def serdeToString (token : CapabilityToken) : String := String.ofList (tokenText token)

/-- `serde_json::from_str`, on the texts that `to_string` writes. -/
noncomputable def serdeFromStr (text : String) : Option CapabilityToken :=
  JsonText.read tokenText text.toList

theorem serdeFromStr_toString (token : CapabilityToken) :
    serdeFromStr (serdeToString token) = some token := by
  rw [serdeFromStr, serdeToString, String.toList_ofList]
  exact JsonText.read_print delimited_tokenText token

example : serdeToString ⟨"m\n", "su", 1, 2, "ab", "x_"⟩ =
    "\x7b\"module_id\":\"m\\n\",\"capability\":\"su\",\"issued_at\":1,\"expires_at\":2," ++
      "\"nonce\":\"ab\",\"hmac\":\"x_\"\x7d" := by
  decide

/-- An hour: the last second is in, the next one is not. -/
theorem verify_overlayfs_hour :
    (∃ parsed, serdeFromStr (serdeToString (issue sampleCrypto sampleAuthority 0
        ⟨"com.test.mod", "overlayfs", 3600, 1722556800⟩)) = some parsed ∧
      verify sampleCrypto sampleAuthority parsed "com.test.mod" 1722560400 = true) ∧
    ∃ parsed, serdeFromStr (serdeToString (issue sampleCrypto sampleAuthority 0
        ⟨"com.test.mod", "overlayfs", 3600, 1722556800⟩)) = some parsed ∧
      ¬ verify sampleCrypto sampleAuthority parsed "com.test.mod" 1722560401 = true := by
  obtain ⟨-, p, hp, hver⟩ := verify_issue_iff sampleCrypto sampleAuthority serdeFromStr_toString 0
    ⟨"com.test.mod", "overlayfs", 3600, 1722556800⟩ "com.test.mod" 1722560400
  obtain ⟨-, q, hq, hver'⟩ := verify_issue_iff sampleCrypto sampleAuthority serdeFromStr_toString 0
    ⟨"com.test.mod", "overlayfs", 3600, 1722556800⟩ "com.test.mod" 1722560401
  exact ⟨⟨p, hp, hver.2 ⟨rfl, by decide⟩⟩, q, hq, fun h => absurd (hver'.1 h).2 (by decide)⟩

end TokenAuthority

end AstraVeil.Rust
