import AstraVeil.Lib.Finmap

/-!
# The policy engine

`policy.rs`: which permissions a module may use, and which of them need approval.
-/

namespace AstraVeil.Rust

open Finmaps

/-- `Permission`. -/
inductive Permission
  | none
  | shell
  | root
  | kernel
  deriving DecidableEq

/-- `as_level`. -/
def Permission.asLevel : Permission → ℕ
  | .none => 0
  | .shell => 1
  | .root => 2
  | .kernel => 3

/-- `ModulePolicy`. -/
structure ModulePolicy where
  moduleId : String
  permissions : List String
  maxLevel : Permission

/-- `Decision`. -/
inductive Decision
  | allow
  | deny
  | requireApproval
  deriving DecidableEq

/-- `DENYLIST`. -/
def denylist : List String := ["mount", "su", "kernel_hook", "ptrace", "namespace"]

/-- `PolicyEngine`. -/
structure PolicyEngine where
  policies : Map String ModulePolicy

namespace PolicyEngine

/-- `new`. -/
def new : PolicyEngine := ⟨∅⟩

/-- `register`. -/
def register (engine : PolicyEngine) (policy : ModulePolicy) : PolicyEngine :=
  ⟨engine.policies.insert policy.moduleId policy⟩

/-- `evaluate`. -/
def evaluate (engine : PolicyEngine) (moduleId requestedPermission : String) : Decision :=
  match engine.policies.lookup moduleId with
  | .none => .deny
  | some policy =>
      if requestedPermission ∉ policy.permissions then .deny
      else if requestedPermission ∈ denylist then
        if policy.maxLevel.asLevel < Permission.shell.asLevel then .deny else .requireApproval
      else .allow

/-- Only a permission of the denylist needs approval. -/
theorem mem_denylist_of_evaluate {engine : PolicyEngine} {moduleId p : String}
    (h : engine.evaluate moduleId p = .requireApproval) : p ∈ denylist := by
  unfold evaluate at h
  split at h
  · cases h
  split_ifs at h with h1 h2
  exact h2

/-- And each of them does, under some policy. -/
theorem evaluate_of_mem_denylist {p : String} (h : p ∈ denylist) (moduleId : String) :
    (new.register ⟨moduleId, [p], .shell⟩).evaluate moduleId p = .requireApproval := by
  have hlookup : (new.register ⟨moduleId, [p], .shell⟩).policies.lookup moduleId =
      some ⟨moduleId, [p], .shell⟩ := AList.lookup_insert _
  unfold evaluate
  rw [hlookup]
  simp [h]

end PolicyEngine

end AstraVeil.Rust
