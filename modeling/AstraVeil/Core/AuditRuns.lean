import AstraVeil.Core.AuditChain
import AstraVeil.Lib.Runs

/-!
# Histories of the audit chain

Every sequence of `append` and `import` calls of `core/security/audit/AuditChain.kt`, from an empty
chain.  The reader of the exported JSON is a parameter: it gives the links of a text, or nothing
where it throws.

* `Consistent`: intact, numbered from zero, every link naming the hash of the one before it;
* `consistent_append`: `append` keeps it, whatever the texts and the clock;
* `consistent_import_iff`: `import` keeps it exactly for texts whose links are numbered from zero;
* `consistent_run_iff`: the chains of a run are all consistent exactly when its imports are so.
-/

namespace AstraVeil.Core.AuditChain

open Utf16 Runs

/-- The calls that change the chain. -/
inductive ChainOp
  | append (now : Int64) (eventType moduleId capability detail : JString)
  | importJson (jsonStr : JString)

variable (sha256 : List UInt8 → List UInt8) (decode : JString → Option (List AuditLink))

/-- `import`: the answer and the chain after it.  The old chain is lost as soon as the text can be
read. -/
def importChain (chain : List AuditLink) (jsonStr : JString) : Bool × List AuditLink :=
  match decode jsonStr with
  | none => (false, chain)
  | some imported => if verify sha256 imported ≥ 0 then (false, []) else (true, imported)

/-- The chain after a call. -/
def step (chain : List AuditLink) : ChainOp → List AuditLink
  | .append now eventType moduleId capability detail =>
      append sha256 chain now eventType moduleId capability detail
  | .importJson jsonStr => (importChain sha256 decode chain jsonStr).2

/-- The links carry the numbers from zero on. -/
def Numbered (chain : List AuditLink) : Prop :=
  ∀ (i : ℕ) (l : AuditLink), chain[i]? = some l → l.sequence = Int64.ofNat i

/-- Every link carries the hash of the one before it, the first the genesis hash. -/
def Chained (chain : List AuditLink) : Prop :=
  (∀ l, chain[0]? = some l → l.prevHash = genesisHash) ∧
    ∀ (i : ℕ) (k l : AuditLink), chain[i]? = some k → chain[i + 1]? = some l → l.prevHash = k.hash

/-- The chain is intact, numbered and chained. -/
structure Consistent (chain : List AuditLink) : Prop where
  intact : verify sha256 chain = -1
  numbered : Numbered chain
  chained : Chained chain

/-- A call that does not import an intact chain with other numbers. -/
def ImportsNumbered : ChainOp → Prop
  | .append .. => True
  | .importJson jsonStr =>
      ∀ imported, decode jsonStr = some imported → verify sha256 imported = -1 → Numbered imported

variable {sha256 decode}

/-! ### What `verify` gives -/

theorem verifyFrom_range (i : ℤ) (prev : JString) (chain : List AuditLink) :
    verifyFrom sha256 i prev chain = -1 ∨ i ≤ verifyFrom sha256 i prev chain := by
  induction chain generalizing i prev with
  | nil => exact Or.inl rfl
  | cons l ls ih =>
    unfold verifyFrom
    split_ifs
    · exact Or.inr le_rfl
    · exact Or.inr le_rfl
    · rcases ih (i + 1) l.hash with h | h
      · exact Or.inl h
      · exact Or.inr (by omega)

/-- The check of `import` on the answer of `verify`. -/
theorem verify_nonneg_iff {chain : List AuditLink} :
    verify sha256 chain ≥ 0 ↔ verify sha256 chain ≠ -1 := by
  have hrange : verify sha256 chain = -1 ∨ 0 ≤ verify sha256 chain :=
    verifyFrom_range 0 genesisHash chain
  omega

theorem prevHash_of_linked {prev : JString} {chain : List AuditLink}
    (h : Linked sha256 prev chain) :
    (∀ l, chain[0]? = some l → l.prevHash = prev) ∧
      ∀ (i : ℕ) (k l : AuditLink), chain[i]? = some k → chain[i + 1]? = some l →
        l.prevHash = k.hash := by
  induction chain generalizing prev with
  | nil => simp
  | cons a as ih =>
    obtain ⟨hprev, -, htail⟩ := h
    obtain ⟨hfirst, hnext⟩ := ih htail
    refine ⟨?_, ?_⟩
    · intro l hl
      obtain rfl : a = l := by simpa using hl
      exact hprev
    · intro i k l hk hl
      rw [List.getElem?_cons_succ] at hl
      cases i with
      | zero =>
        obtain rfl : a = k := by simpa using hk
        exact hfirst l hl
      | succ i => exact hnext i k l (by simpa using hk) hl

/-- Intact chains are chained; the numbers are the only thing that `verify` does not look at. -/
theorem consistent_iff {chain : List AuditLink} (h : verify sha256 chain = -1) :
    Consistent sha256 chain ↔ Numbered chain :=
  ⟨fun hc => hc.numbered, fun hn => ⟨h, hn, prevHash_of_linked (verify_eq_iff.1 h)⟩⟩

/-! ### One call -/

theorem consistent_nil : Consistent sha256 [] :=
  (consistent_iff rfl).2 fun i l h => by simp at h

theorem consistent_append {chain : List AuditLink} (h : Consistent sha256 chain) (now : Int64)
    (eventType moduleId capability detail : JString) :
    Consistent sha256 (append sha256 chain now eventType moduleId capability detail) := by
  refine (consistent_iff (linked_append h.intact now eventType moduleId capability detail)).2 ?_
  intro i l hl
  rw [append, List.getElem?_append] at hl
  split_ifs at hl with hi
  · exact h.numbered i l hl
  · -- the new link, whose number is the length of the chain
    obtain ⟨hlast, rfl⟩ : i - chain.length = 0 ∧ _ = l := by
      simpa [List.getElem?_singleton] using hl
    show Int64.ofNat chain.length = Int64.ofNat i
    congr 1
    omega

theorem consistent_import_iff {chain : List AuditLink} (h : Consistent sha256 chain)
    (jsonStr : JString) :
    Consistent sha256 (importChain sha256 decode chain jsonStr).2 ↔
      ImportsNumbered sha256 decode (.importJson jsonStr) := by
  unfold importChain ImportsNumbered
  cases hdecode : decode jsonStr with
  | none => exact iff_of_true h (by simp [hdecode])
  | some imported =>
    simp only [hdecode, Option.some.injEq, forall_eq']
    by_cases hintact : verify sha256 imported = -1
    · rw [if_neg (by rw [verify_nonneg_iff]; simpa using hintact), consistent_iff hintact]
      exact ⟨fun hn _ => hn, fun hn => hn hintact⟩
    · rw [if_pos (verify_nonneg_iff.2 hintact)]
      exact iff_of_true consistent_nil fun h => absurd h hintact

theorem consistent_step_iff {chain : List AuditLink} (h : Consistent sha256 chain) (op : ChainOp) :
    Consistent sha256 (step sha256 decode chain op) ↔ ImportsNumbered sha256 decode op := by
  cases op with
  | append now eventType moduleId capability detail =>
    exact iff_of_true (consistent_append h now eventType moduleId capability detail) trivial
  | importJson jsonStr => exact consistent_import_iff h jsonStr

/-! ### Runs -/

/-- **After every call of a run the chain is intact, numbered from zero and chained exactly when
no call imports an intact chain with other numbers.** -/
theorem consistent_run_iff (sha256 : List UInt8 → List UInt8)
    (decode : JString → Option (List AuditLink)) (ops : List ChainOp) :
    (∀ pre post, ops = pre ++ post → Consistent sha256 (run (step sha256 decode) [] pre)) ↔
      ∀ op ∈ ops, ImportsNumbered sha256 decode op := by
  rw [prefixes_iff_along (I := Consistent sha256) (fun _ op h => consistent_step_iff h op)
    consistent_nil, along_forall]

/-! ### A chain that starts at seven -/

/-- SHA-256 of the text of `seventhLink`. -/
def seventhDigest : List UInt8 :=
  [0, 87, 140, 38, 34, 58, 182, 60, 92, 116, 171, 73, 199, 80, 200, 216, 170, 159, 17, 100, 171,
    163, 234, 63, 200, 53, 232, 202, 114, 51, 205, 170]

/-- A first link that claims to be the eighth. -/
def seventhLink : AuditLink where
  sequence := 7
  timestampMs := 0
  eventType := ofString "GRANT"
  moduleId := ofString "m"
  capability := ofString "su"
  detail := []
  prevHash := genesisHash
  hash := ofString (String.ofList (Digits.hex seventhDigest))

/-- The text of a chain with that link only. -/
def seventhJson : JString :=
  ofString "[\x7b\"sequence\":7,\"timestampMs\":0,\"eventType\":\"GRANT\",\"moduleId\":\"m\"," ++
    ofString "\"capability\":\"su\",\"detail\":\"\",\"prevHash\":\"" ++ genesisHash ++
    ofString "\",\"hash\":\"" ++ seventhLink.hash ++ ofString "\"\x7d]"

/-- The reader, on that text. -/
def sampleDecode (text : JString) : Option (List AuditLink) :=
  if text = seventhJson then some [seventhLink] else none

/-- An import of recomputed hashes with another number is accepted. -/
theorem not_consistent_seventh :
    ¬ ∀ ops : List ChainOp, ∀ pre post, ops = pre ++ post →
      Consistent (sampleSha256 seventhLink seventhDigest)
        (run (step (sampleSha256 seventhLink seventhDigest) sampleDecode) [] pre) := by
  intro h
  have hrun := h [.importJson seventhJson] [.importJson seventhJson] [] (List.append_nil _).symm
  rw [run_cons, run_nil] at hrun
  have hnumbered : Numbered [seventhLink] :=
    (consistent_step_iff consistent_nil _).1 hrun [seventhLink]
      (by rw [sampleDecode, if_pos rfl]) (verify_sample rfl rfl)
  have hseven := hnumbered 0 seventhLink rfl
  simp [seventhLink] at hseven

end AstraVeil.Core.AuditChain
