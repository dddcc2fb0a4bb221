import Mathlib.Tactic

/-!
# The execution policy

`execution_policy.rs` and its C interface in `ffi.rs`.
-/

namespace AstraVeil.Rust

/-- `PolicyDecision`. -/
inductive PolicyDecision
  | allow
  | deny
  | requireApproval
  deriving DecidableEq

/-- `ExecutionPolicy`. -/
structure ExecutionPolicy where
  moduleId : List UInt8
  capability : List UInt8
  riskLevel : ℕ
  approved : Bool

/-- `evaluate`: high risk always prompts, and without a prior grant the answer is no. -/
def evaluate (policy : ExecutionPolicy) : PolicyDecision :=
  if policy.riskLevel ≥ 80 then .requireApproval
  else if !policy.approved then .deny
  else .allow

/-- The code of a decision at the C interface. -/
def PolicyDecision.code : PolicyDecision → ℤ
  | .allow => 0
  | .deny => 1
  | .requireApproval => 2

/-- `policy_check_with`.  The texts are C strings, which end at the first zero byte. -/
def policyCheckWith (moduleId capability : List UInt8) (riskLevel : ℕ) (approved : Bool) : ℤ :=
  (evaluate ⟨moduleId.takeWhile (· ≠ 0), capability.takeWhile (· ≠ 0), riskLevel, approved⟩).code

theorem evaluate_eq_allow_iff (policy : ExecutionPolicy) :
    evaluate policy = .allow ↔ policy.riskLevel < 80 ∧ policy.approved = true := by
  unfold evaluate
  split
  · next h => simp [h]
  split
  · next h => simp_all
  · next hr ha =>
    refine ⟨fun _ => ⟨by omega, by simpa using ha⟩, fun _ => rfl⟩

end AstraVeil.Rust
