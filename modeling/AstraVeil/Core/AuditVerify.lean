import AstraVeil.Core.AuditChain

/-!
# Full and fast verification

The two checks of `core/security/audit/AuditChain.kt` on any list of links, tampered or not.
`verify` walks from the first link on, `verifyTail` looks at the last `n`.

* `Broken`: the link at an index does not fit its predecessor or its own hash;
* `verify_cases`: `verify` answers the first broken index, or -1 for a chain without one;
* `verifyTail_iff`: `verifyTail n` finds the broken indices from `size - n` on;
* `verify_verifyTail`: how the two answers go together.
-/

namespace AstraVeil.Core.AuditChain

open Utf16

variable (sha256 : List UInt8 → List UInt8)

/-- The hash that the link at an index has to name, in a chain that starts from `prev`. -/
def expectedPrevHash (prev : JString) (chain : List AuditLink) : ℕ → JString
  | 0 => prev
  | i + 1 => (chain[i]?.map AuditLink.hash).getD []

/-- One round of the loop of `verifyTail`. -/
def checkLink (chain : List AuditLink) (i : ℕ) : Bool :=
  match chain[i]? with
  | none => true
  | some link =>
      if link.prevHash ≠ expectedPrevHash genesisHash chain i then false
      else if sha256Hex sha256 (buildHashPayload link) ≠ link.hash then false
      else true

/-- `verifyTail`. -/
def verifyTail (chain : List AuditLink) (n : ℤ) : Bool :=
  let start := (max 0 ((chain.length : ℤ) - n)).toNat
  (List.range' start (chain.length - start)).all (checkLink sha256 chain)

/-- The link at the index `i` names another hash than that of the link before it (`prev` for the
first), or carries another hash than its own. -/
def BrokenFrom (prev : JString) (chain : List AuditLink) (i : ℕ) : Prop :=
  ∃ link, chain[i]? = some link ∧
    (link.prevHash ≠ expectedPrevHash prev chain i ∨
      sha256Hex sha256 (buildHashPayload link) ≠ link.hash)

/-- A broken index of the chain. -/
def Broken (chain : List AuditLink) (i : ℕ) : Prop := BrokenFrom sha256 genesisHash chain i

variable {sha256}

/-! ### One link -/

theorem brokenFrom_zero {prev : JString} {l : AuditLink} {ls : List AuditLink} :
    BrokenFrom sha256 prev (l :: ls) 0 ↔
      l.prevHash ≠ prev ∨ sha256Hex sha256 (buildHashPayload l) ≠ l.hash := by
  simp [BrokenFrom, expectedPrevHash]

/-- The rest of a chain starts from the hash of its first link. -/
theorem brokenFrom_succ {prev : JString} {l : AuditLink} {ls : List AuditLink} {i : ℕ} :
    BrokenFrom sha256 prev (l :: ls) (i + 1) ↔ BrokenFrom sha256 l.hash ls i := by
  unfold BrokenFrom
  rw [List.getElem?_cons_succ]
  cases i with
  | zero => rfl
  | succ i => rfl

theorem Broken.lt_length {chain : List AuditLink} {i : ℕ} (h : Broken sha256 chain i) :
    i < chain.length := by
  obtain ⟨link, hlink, -⟩ := h
  exact (List.getElem?_eq_some_iff.1 hlink).1

theorem checkLink_iff {chain : List AuditLink} {i : ℕ} :
    checkLink sha256 chain i = true ↔ ¬ Broken sha256 chain i := by
  unfold checkLink Broken BrokenFrom
  cases hlink : chain[i]? with
  | none => simp
  | some link =>
    simp only [Option.some.injEq, exists_eq_left']
    split_ifs with h1 h2
    · exact iff_of_false not_false fun h => h (Or.inl h1)
    · exact iff_of_false not_false fun h => h (Or.inr h2)
    · exact iff_of_true rfl fun h => h.elim h1 h2

/-! ### The two loops -/

theorem verifyFrom_cases (sha256 : List UInt8 → List UInt8) (k : ℤ) (prev : JString)
    (chain : List AuditLink) :
    (∃ i : ℕ, IsLeast {i | BrokenFrom sha256 prev chain i} i ∧
        verifyFrom sha256 k prev chain = k + i) ∨
      (∀ i, ¬ BrokenFrom sha256 prev chain i) ∧ verifyFrom sha256 k prev chain = -1 := by
  induction chain generalizing k prev with
  | nil => exact Or.inr ⟨fun i ⟨link, hlink, _⟩ => by simp at hlink, rfl⟩
  | cons l ls ih =>
    by_cases hfirst : BrokenFrom sha256 prev (l :: ls) 0
    · -- the loop returns in its first round
      refine Or.inl ⟨0, ⟨hfirst, fun i _ => Nat.zero_le i⟩, ?_⟩
      unfold verifyFrom
      rcases brokenFrom_zero.1 hfirst with h | h
      · rw [if_pos h]
        simp
      · rw [if_pos h]
        split_ifs <;> simp
    · have hgo : verifyFrom sha256 k prev (l :: ls) = verifyFrom sha256 (k + 1) l.hash ls := by
        rw [brokenFrom_zero, not_or] at hfirst
        rw [verifyFrom, if_neg hfirst.1, if_neg hfirst.2]
      rw [hgo]
      rcases ih (k + 1) l.hash with ⟨i, ⟨hi, hleast⟩, heq⟩ | ⟨hnone, heq⟩
      · refine Or.inl ⟨i + 1, ⟨brokenFrom_succ.2 hi, ?_⟩, ?_⟩
        · intro j hj
          cases j with
          | zero => exact absurd hj hfirst
          | succ j => exact Nat.succ_le_succ (hleast (brokenFrom_succ.1 hj))
        · rw [heq]
          push_cast
          omega
      · refine Or.inr ⟨fun j => ?_, heq⟩
        cases j with
        | zero => exact hfirst
        | succ j => exact fun hj => hnone j (brokenFrom_succ.1 hj)

/-- What `verify` answers. -/
theorem verify_cases (sha256 : List UInt8 → List UInt8) (chain : List AuditLink) :
    (∃ i : ℕ, IsLeast {i | Broken sha256 chain i} i ∧ verify sha256 chain = i) ∨
      (∀ i, ¬ Broken sha256 chain i) ∧ verify sha256 chain = -1 := by
  rcases verifyFrom_cases sha256 0 genesisHash chain with ⟨i, hleast, heq⟩ | h
  · exact Or.inl ⟨i, hleast, by rw [verify, heq, zero_add]⟩
  · exact Or.inr h

theorem verify_eq_natCast_iff {chain : List AuditLink} {i : ℕ} :
    verify sha256 chain = i ↔ IsLeast {i | Broken sha256 chain i} i := by
  rcases verify_cases sha256 chain with ⟨j, hleast, heq⟩ | ⟨hnone, heq⟩
  · rw [heq, Nat.cast_inj]
    exact ⟨fun h => h ▸ hleast, fun h => hleast.unique h⟩
  · rw [heq]
    exact iff_of_false (by omega) fun h => hnone i h.1

theorem verify_eq_neg_one_iff {chain : List AuditLink} :
    verify sha256 chain = -1 ↔ ∀ i, ¬ Broken sha256 chain i := by
  rcases verify_cases sha256 chain with ⟨j, hleast, heq⟩ | ⟨hnone, heq⟩
  · rw [heq]
    exact iff_of_false (by omega) fun h => h j hleast.1
  · exact iff_of_true heq hnone

theorem verifyTail_iff (chain : List AuditLink) (n : ℤ) :
    verifyTail sha256 chain n = true ↔
      ∀ i : ℕ, max 0 ((chain.length : ℤ) - n) ≤ i → ¬ Broken sha256 chain i := by
  unfold verifyTail
  simp only [List.all_eq_true, checkLink_iff, List.mem_range'_1]
  constructor
  · intro h i hi hbroken
    have hlt := hbroken.lt_length
    exact h i ⟨by omega, by omega⟩ hbroken
  · intro h i hi
    exact h i (by omega)

/-- **`verify` answers the least broken index, or -1 if there is none; `verifyTail n` holds exactly
when no index from `size - n` on is broken.  So `verify` finds nothing exactly when
`verifyTail size` holds, and a longer tail is harder to pass.** -/
theorem verify_verifyTail (sha256 : List UInt8 → List UInt8) (chain : List AuditLink) :
    (∀ i : ℕ, verify sha256 chain = i ↔ IsLeast {i | Broken sha256 chain i} i) ∧
      (verify sha256 chain = -1 ↔ ∀ i, ¬ Broken sha256 chain i) ∧
      (∀ n : ℕ, verifyTail sha256 chain n = true ↔
        ∀ i : ℕ, max 0 ((chain.length : ℤ) - n) ≤ i → ¬ Broken sha256 chain i) ∧
      (verify sha256 chain = -1 ↔ verifyTail sha256 chain chain.length = true) ∧
      ∀ m n : ℕ, m ≤ n → verifyTail sha256 chain n = true → verifyTail sha256 chain m = true := by
  refine ⟨fun i => verify_eq_natCast_iff, verify_eq_neg_one_iff, fun n => verifyTail_iff chain n,
    ?_, ?_⟩
  · rw [verify_eq_neg_one_iff, verifyTail_iff]
    constructor
    · intro h i _
      exact h i
    · intro h i
      exact h i (by omega)
  · intro m n hmn h
    rw [verifyTail_iff] at h ⊢
    intro i hi
    exact h i (by omega)

end AstraVeil.Core.AuditChain
