import Mathlib.Tactic

/-!
# The policy table of `astra_root.ko`

`kernel/astra_root.c`, lines 39–105: the request and policy structures, the table loaded by
`ASTRA_SET_POLICY`, and `check_policy`.

The array `policy_table` with its counter `policy_count` is the list of the loaded entries, in
loading order and never longer than `ASTRA_MAX_POLICIES`.  A 64-bit capability mask is a
`BitVec 64`, so that a statement about capabilities is a statement about its bits.
-/

namespace AstraVeil.Kernel

/-- `CAP_LAST_CAP` of the supported kernels (GKI 5.10 to 6.6): `CAP_CHECKPOINT_RESTORE`. -/
def capLastCap : ℕ := 40

/-- `ASTRA_MAX_POLICIES`. -/
def maxPolicies : ℕ := 128

/-- The errors `astra_ioctl` returns, negated. -/
inductive Errno
  | EPERM
  | EFAULT
  | ENOMEM
  | ENOSPC
  | ENOTTY
  deriving DecidableEq, Repr

/-- What a kernel function returns: `0`, or `-e` for an error `e`. -/
abbrev Ret := Except Errno Unit

/-- The value a C caller sees. -/
def retVal : Ret → ℤ
  | .ok () => 0
  | .error .EPERM => -1
  | .error .ENOMEM => -12
  | .error .EFAULT => -14
  | .error .ENOTTY => -25
  | .error .ENOSPC => -28

/-- `struct astra_caps`, the argument of `ASTRA_GET_CAPS`. -/
structure AstraCaps where
  capEffective : BitVec 64
  capPermitted : BitVec 64
  targetUid : UInt32
  targetGid : UInt32
  result : ℤ := 0
  deriving DecidableEq, Repr

/-- `struct astra_policy_entry`, the argument of `ASTRA_SET_POLICY`. -/
structure PolicyEntry where
  uid : UInt32
  allowedCaps : BitVec 64
  allowFullRoot : UInt32
  deriving DecidableEq, Repr

/-- `policy_table[0 .. policy_count)`. -/
structure PolicyTable where
  entries : List PolicyEntry
  bound : entries.length ≤ maxPolicies

/-- The table `astra_root_init` starts with. -/
def PolicyTable.empty : PolicyTable := ⟨[], Nat.zero_le _⟩

/-- The entry the loop of `check_policy` stops at: the first one loaded for `uid`. -/
def PolicyTable.entryFor (t : PolicyTable) (uid : UInt32) : Option PolicyEntry :=
  t.entries.find? (fun e => e.uid = uid)

/-- Loading one more entry, while there is room. -/
def PolicyTable.push (t : PolicyTable) (e : PolicyEntry) : Option PolicyTable :=
  if h : t.entries.length < maxPolicies then
    some ⟨t.entries ++ [e], by simpa using h⟩
  else none

/-- `check_policy`. -/
def checkPolicy (enforce : Bool) (t : PolicyTable) (uid : UInt32) (requestedCaps : BitVec 64)
    (wantFullRoot : Bool) : Ret :=
  if !enforce then .ok ()
  else if t.entries.length = 0 then .error .EPERM
  else
    let allowed : Bool :=
      match t.entryFor uid with
      | none => false
      | some e =>
          if wantFullRoot then e.allowFullRoot != 0
          else (requestedCaps &&& e.allowedCaps) == requestedCaps
    if allowed then .ok () else .error .EPERM

/-- Every capability of the mask `a` is one of the mask `b`. -/
def CapsSubset (a b : BitVec 64) : Prop := ∀ i, a.getLsbD i = true → b.getLsbD i = true

theorem and_eq_left_iff_capsSubset (a b : BitVec 64) : a &&& b = a ↔ CapsSubset a b := by
  constructor
  · intro h i hi
    have hb := congrArg (fun v : BitVec 64 => v.getLsbD i) h
    simpa [hi] using hb
  · intro h
    apply BitVec.eq_of_getLsbD_eq
    intro i _
    have hi := h i
    cases ha : a.getLsbD i <;> simp_all

/-- The entry of `uid` allows full root. -/
def PolicyTable.GrantsFullRoot (t : PolicyTable) (uid : UInt32) : Prop :=
  ∃ e, t.entryFor uid = some e ∧ e.allowFullRoot ≠ 0

theorem PolicyTable.length_ne_zero_of_entryFor {t : PolicyTable} {uid : UInt32} {e : PolicyEntry}
    (h : t.entryFor uid = some e) : t.entries.length ≠ 0 := by
  intro h0
  rw [List.length_eq_zero_iff] at h0
  simp [entryFor, h0] at h

/-- With `enforce=1` a full-root check passes exactly for the uids whose entry allows it. -/
theorem checkPolicy_full_iff (t : PolicyTable) (uid : UInt32) (caps : BitVec 64) :
    checkPolicy true t uid caps true = .ok () ↔ t.GrantsFullRoot uid := by
  unfold checkPolicy PolicyTable.GrantsFullRoot
  cases he : t.entryFor uid with
  | none => simp
  | some e =>
    have hlen := PolicyTable.length_ne_zero_of_entryFor he
    by_cases hr : e.allowFullRoot = 0 <;> simp [hlen, hr]

/-- With `enforce=1` a capability check passes exactly for the masks inside the entry's. -/
theorem checkPolicy_caps_iff (t : PolicyTable) (uid : UInt32) (caps : BitVec 64) :
    checkPolicy true t uid caps false = .ok () ↔
      ∃ e, t.entryFor uid = some e ∧ CapsSubset caps e.allowedCaps := by
  unfold checkPolicy
  cases he : t.entryFor uid with
  | none => simp
  | some e =>
    have hlen := PolicyTable.length_ne_zero_of_entryFor he
    simp only [Bool.not_true, Bool.false_eq_true, if_false, hlen, beq_iff_eq,
      Option.some.injEq, exists_eq_left']
    rw [← and_eq_left_iff_capsSubset]
    by_cases hc : caps &&& e.allowedCaps = caps <;> simp [hc]

end AstraVeil.Kernel
