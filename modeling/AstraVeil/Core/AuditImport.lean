import AstraVeil.Core.AuditRuns
import AstraVeil.Core.AuditVerify
import AstraVeil.Lib.JsonText

/-!
# Backups of the audit chain

`export` and `import` of `core/security/audit/AuditChain.kt`.  The JSON codec is a parameter that
gives every exported chain back; `chainText` is the text that the Kotlin codec writes.

* `importChain_cases`: the three exits of `import`;
* `intact_run`: no call leaves a broken chain behind;
* `allOrNothing_iff`: a failed import leaves the chain as it was exactly when the chain was empty
  or the text is not that of a broken chain;
* `import_export`: this, and that the export of a reachable chain replaces any other.
-/

namespace AstraVeil.Core.AuditChain

open Utf16 Runs

variable (sha256 : List UInt8 → List UInt8) (decode : JString → Option (List AuditLink))

/-- An import that answers `false` leaves the chain as it was. -/
def AllOrNothing (chain : List AuditLink) (jsonStr : JString) : Prop :=
  (importChain sha256 decode chain jsonStr).1 = false →
    (importChain sha256 decode chain jsonStr).2 = chain

/-- The three exits of `import`: the text cannot be read, the chain in it is broken, or the chain
in it takes the place of the old one. -/
theorem importChain_cases (chain : List AuditLink) (jsonStr : JString) :
    (decode jsonStr = none ∧ importChain sha256 decode chain jsonStr = (false, chain)) ∨
      (∃ imported, decode jsonStr = some imported ∧ (∃ i, Broken sha256 imported i) ∧
        importChain sha256 decode chain jsonStr = (false, [])) ∨
      ∃ imported, decode jsonStr = some imported ∧ (∀ i, ¬ Broken sha256 imported i) ∧
        importChain sha256 decode chain jsonStr = (true, imported) := by
  unfold importChain
  cases hdecode : decode jsonStr with
  | none => exact Or.inl ⟨rfl, rfl⟩
  | some imported =>
    by_cases hintact : verify sha256 imported = -1
    · refine Or.inr (Or.inr ⟨imported, rfl, verify_eq_neg_one_iff.1 hintact, ?_⟩)
      exact if_neg fun h => verify_nonneg_iff.1 h hintact
    · refine Or.inr (Or.inl ⟨imported, rfl, ?_, if_pos (verify_nonneg_iff.2 hintact)⟩)
      rw [verify_eq_neg_one_iff] at hintact
      push Not at hintact
      exact hintact

variable {sha256 decode}

/-- The chain that is lost is the old one, and it is lost to a broken import. -/
theorem allOrNothing_iff (chain : List AuditLink) (jsonStr : JString) :
    AllOrNothing sha256 decode chain jsonStr ↔
      (chain = [] ∨
        ∀ imported, decode jsonStr = some imported → ∀ i, ¬ Broken sha256 imported i) := by
  unfold AllOrNothing
  rcases importChain_cases sha256 decode chain jsonStr with
    ⟨hdecode, heq⟩ | ⟨imported, hdecode, ⟨i, hbroken⟩, heq⟩ | ⟨imported, hdecode, hintact, heq⟩
  · rw [heq, hdecode]
    exact iff_of_true (fun _ => rfl) (Or.inr fun imported h => by cases h)
  · rw [heq, hdecode]
    constructor
    · intro h
      exact Or.inl (h rfl).symm
    · rintro (h | h) -
      · exact h.symm
      · exact absurd hbroken (h imported rfl i)
  · rw [heq, hdecode]
    refine iff_of_true (fun h => by cases h) (Or.inr ?_)
    rintro _ ⟨⟩
    exact hintact

/-! ### Reachable chains -/

theorem intact_step {chain : List AuditLink} (op : ChainOp) (h : ∀ i, ¬ Broken sha256 chain i) :
    ∀ i, ¬ Broken sha256 (step sha256 decode chain op) i := by
  cases op with
  | append now eventType moduleId capability detail =>
    rw [← verify_eq_neg_one_iff] at h ⊢
    exact linked_append h now eventType moduleId capability detail
  | importJson jsonStr =>
    show ∀ i, ¬ Broken sha256 (importChain sha256 decode chain jsonStr).2 i
    rcases importChain_cases sha256 decode chain jsonStr with
      ⟨-, heq⟩ | ⟨-, -, -, heq⟩ | ⟨imported, -, hintact, heq⟩
    · rw [heq]
      exact h
    · rw [heq]
      exact verify_eq_neg_one_iff.1 rfl
    · rw [heq]
      exact hintact

theorem intact_run (ops : List ChainOp) :
    ∀ i, ¬ Broken sha256 (run (step sha256 decode) [] ops) i :=
  run_invariant (I := fun chain => ∀ i, ¬ Broken sha256 chain i)
    (fun _ op h => intact_step op h) (verify_eq_neg_one_iff.1 rfl) ops

/-- **A failed import leaves the chain as it was exactly when the chain was empty or the text is
not that of a broken chain.  The export of a reachable chain is always accepted, and makes the
importing chain equal to it.** -/
theorem import_export (sha256 : List UInt8 → List UInt8)
    {encode : List AuditLink → JString} {decode : JString → Option (List AuditLink)}
    (hcodec : ∀ chain, decode (encode chain) = some chain) :
    (∀ (chain : List AuditLink) (jsonStr : JString),
      AllOrNothing sha256 decode chain jsonStr ↔
        (chain = [] ∨
          ∀ imported, decode jsonStr = some imported → ∀ i, ¬ Broken sha256 imported i)) ∧
    ∀ (ops : List ChainOp) (other : List AuditLink),
      importChain sha256 decode other (encode (run (step sha256 decode) [] ops)) =
        (true, run (step sha256 decode) [] ops) := by
  refine ⟨fun chain jsonStr => allOrNothing_iff chain jsonStr, fun ops other => ?_⟩
  have hread := hcodec (run (step sha256 decode) [] ops)
  rcases importChain_cases sha256 decode other
      (encode (run (step sha256 decode) [] ops)) with
    ⟨hdecode, -⟩ | ⟨imported, hdecode, ⟨i, hbroken⟩, -⟩ | ⟨imported, hdecode, -, heq⟩
  · rw [hread] at hdecode
    cases hdecode
  · obtain rfl := Option.some.inj (hread.symm.trans hdecode)
    exact absurd hbroken (intact_run ops i)
  · obtain rfl := Option.some.inj (hread.symm.trans hdecode)
    exact heq

/-! ### The text of the Kotlin codec -/

/-- UTF-16 code units. -/
def utf16Units : JsonText.Units UInt16 where
  code := UInt16.toNat
  ascii := UInt16.ofNat
  code_injective := fun _ _ h => UInt16.toNat_inj.1 h
  code_ascii := by decide

/-- The fields in the order of the declaration. -/
def linkText (l : AuditLink) : JString :=
  utf16Units.lit "\x7b\"sequence\":" ++ (utf16Units.number l.sequence.toInt ++
    (utf16Units.lit "\"timestampMs\":" ++ (utf16Units.number l.timestampMs.toInt ++
    (utf16Units.lit "\"eventType\":" ++ (utf16Units.quote l.eventType ++
    (utf16Units.lit ",\"moduleId\":" ++ (utf16Units.quote l.moduleId ++
    (utf16Units.lit ",\"capability\":" ++ (utf16Units.quote l.capability ++
    (utf16Units.lit ",\"detail\":" ++ (utf16Units.quote l.detail ++
    (utf16Units.lit ",\"prevHash\":" ++ (utf16Units.quote l.prevHash ++
    (utf16Units.lit ",\"hash\":" ++ (utf16Units.quote l.hash ++
      utf16Units.lit "\x7d")))))))))))))))

theorem delimited_linkText : JsonText.Delimited linkText := by
  have hquote : JsonText.Delimited utf16Units.quote := JsonText.Units.delimited_quote
  have hnumber : JsonText.Delimited utf16Units.number := JsonText.delimited_number
  intro a b x y h
  simp only [linkText, List.append_assoc, List.append_cancel_left_eq] at h
  obtain ⟨h1, h⟩ := hnumber _ _ _ _ h
  obtain ⟨h2, h⟩ := hnumber _ _ _ _ (List.append_cancel_left h)
  obtain ⟨h3, h⟩ := hquote _ _ _ _ (List.append_cancel_left h)
  obtain ⟨h4, h⟩ := hquote _ _ _ _ (List.append_cancel_left h)
  obtain ⟨h5, h⟩ := hquote _ _ _ _ (List.append_cancel_left h)
  obtain ⟨h6, h⟩ := hquote _ _ _ _ (List.append_cancel_left h)
  obtain ⟨h7, h⟩ := hquote _ _ _ _ (List.append_cancel_left h)
  obtain ⟨h8, h⟩ := hquote _ _ _ _ (List.append_cancel_left h)
  refine ⟨?_, List.append_cancel_left h⟩
  obtain ⟨s, t, e, m, c, d, p, k⟩ := a
  obtain ⟨s', t', e', m', c', d', p', k'⟩ := b
  simp only [AuditLink.mk.injEq]
  exact ⟨Int64.toInt_inj.1 h1, Int64.toInt_inj.1 h2, h3, h4, h5, h6, h7, h8⟩

/-- `json.encodeToString(chain)`. -/
def chainText (chain : List AuditLink) : JString := utf16Units.array linkText chain

/-- `json.decodeFromString`, on the texts that `encodeToString` writes. -/
noncomputable def readChain : JString → Option (List AuditLink) := JsonText.read chainText

theorem readChain_chainText (chain : List AuditLink) :
    readChain (chainText chain) = some chain :=
  JsonText.read_print (JsonText.delimited_array delimited_linkText fun _ => rfl) chain

/-- The exported text of one link is read back into any chain. -/
theorem import_export_grant :
    importChain (sampleSha256 grantLink grantDigest) readChain []
        (chainText (run (step (sampleSha256 grantLink grantDigest) readChain) []
          [.importJson (chainText [grantLink])])) =
      (true, run (step (sampleSha256 grantLink grantDigest) readChain) []
        [.importJson (chainText [grantLink])]) :=
  (import_export (sampleSha256 grantLink grantDigest) readChain_chainText).2
    [.importJson (chainText [grantLink])] []

/-! ### A forged backup -/

/-- The link with another detail under the old hash. -/
def forgedLink : AuditLink := { grantLink with detail := ofString "denied" }

theorem broken_forgedLink : Broken (sampleSha256 grantLink grantDigest) [forgedLink] 0 := by
  have hgrant : Linked (sampleSha256 grantLink grantDigest) genesisHash [grantLink] :=
    verify_eq_iff.1 (verify_sample rfl rfl)
  refine brokenFrom_zero.2 (Or.inr fun hhash => ?_)
  have hread : scalars (buildHashPayload forgedLink) = scalars (buildHashPayload grantLink) :=
    (sha256Hex_eq_iff (sampleSha256_injective grantLink rfl)).1 (hhash.trans hgrant.2.1.symm)
  exact absurd (congrArg List.length hread) (by decide)

/-- The import of a forged backup fails and erases the chain that was there. -/
theorem forged_import_erases :
    ¬ ∀ (ops : List ChainOp) (jsonStr : JString),
      AllOrNothing (sampleSha256 grantLink grantDigest) readChain
        (run (step (sampleSha256 grantLink grantDigest) readChain) [] ops) jsonStr := by
  intro h
  have hops : run (step (sampleSha256 grantLink grantDigest) readChain) []
      [.append grantLink.timestampMs grantLink.eventType grantLink.moduleId grantLink.capability
        grantLink.detail] ≠ [] := by
    simp [step, append]
  rcases (allOrNothing_iff _ _).1 (h _ (chainText [forgedLink])) with hnil | hintact
  · exact hops hnil
  · exact hintact [forgedLink] (readChain_chainText _) 0 broken_forgedLink

end AstraVeil.Core.AuditChain
