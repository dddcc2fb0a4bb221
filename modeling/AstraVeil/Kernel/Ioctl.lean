import AstraVeil.Lib.Runs
import AstraVeil.Kernel.Policy

/-!
# The ioctls of `astra_root.ko`

`kernel/astra_root.c`, lines 109–232: `astra_ioctl` over the credentials of the calling task.

The kernel services the module calls are explicit: a user namespace is the pair of maps behind
`make_kuid` / `from_kuid` (and `make_kgid`), `prepare_kernel_cred(NULL)` yields the credentials of
the initial task, and `Faults` says which of `copy_from_user`, `copy_to_user` and the allocation of
new credentials succeed in a call.  A caller controls the copies (it may hand over an unmapped or
a read-only page), so every statement below is for every choice of faults.
-/

namespace AstraVeil.Kernel

/-- A user namespace: how its ids are mapped to kernel ids and back. -/
structure UserNs where
  makeKuid : UInt32 → UInt32
  fromKuid : UInt32 → UInt32
  makeKgid : UInt32 → UInt32

/-- `init_user_ns`, where an id is its own kernel id. -/
def initUserNs : UserNs := ⟨id, id, id⟩

/-- The fields of `struct cred` the module reads or writes. -/
@[ext] structure Cred where
  uid : UInt32
  euid : UInt32
  suid : UInt32
  gid : UInt32
  egid : UInt32
  sgid : UInt32
  capEffective : BitVec 64
  capPermitted : BitVec 64
  capInheritable : BitVec 64
  capBset : BitVec 64
  userNs : UserNs

/-- Bits `0 .. CAP_LAST_CAP`, the mask `ALL_CAPS_MASK`. -/
def allCapsMask : BitVec 64 := (1#64 <<< (capLastCap + 1)) - 1#64

/-- `prepare_kernel_cred(NULL)`: the credentials of the initial task. -/
def initCred : Cred where
  uid := 0
  euid := 0
  suid := 0
  gid := 0
  egid := 0
  sgid := 0
  capEffective := allCapsMask
  capPermitted := allCapsMask
  capInheritable := 0#64
  capBset := allCapsMask
  userNs := initUserNs

/-- `cap_raise`. -/
def capRaise (caps : BitVec 64) (cap : ℕ) : BitVec 64 := caps ||| (1#64 <<< cap)

/-- The loop of `ASTRA_GET_CAPS` for one of the two sets: from the cleared set, raise every
capability up to `CAP_LAST_CAP` whose bit is set in the requested mask. -/
def raiseRequested (mask : BitVec 64) : BitVec 64 :=
  (List.range (capLastCap + 1)).foldl
    (fun caps cap => if mask &&& (1#64 <<< cap) != 0#64 then capRaise caps cap else caps) 0#64

/-- The credentials `ASTRA_GET_CAPS` commits. -/
def capsCred (c : Cred) (r : AstraCaps) : Cred :=
  let kuid := c.userNs.makeKuid r.targetUid
  let kgid := c.userNs.makeKgid r.targetGid
  { c with
    capEffective := raiseRequested r.capEffective
    capPermitted := raiseRequested r.capPermitted
    capInheritable := 0#64
    capBset := 0#64
    uid := if r.targetUid != 0 then kuid else c.uid
    euid := if r.targetUid != 0 then kuid else c.euid
    suid := if r.targetUid != 0 then kuid else c.suid
    gid := if r.targetGid != 0 then kgid else c.gid
    egid := if r.targetGid != 0 then kgid else c.egid
    sgid := if r.targetGid != 0 then kgid else c.sgid }

/-- Which kernel services succeed during one call. -/
structure Faults where
  copyFromUser : Bool
  copyToUser : Bool
  prepareCred : Bool
  deriving DecidableEq, Repr

/-- No service fails. -/
def Faults.none : Faults := ⟨true, true, true⟩

/-- The commands of the device. -/
inductive Ioctl
  | getRoot
  | getCaps (r : AstraCaps)
  | setPolicy (e : PolicyEntry)
  | getVersion
  | other (cmd : UInt32)

/-- What is copied back to the caller. -/
inductive Out
  | none
  | caps (r : AstraCaps)
  | version (v : ℤ)

/-- Module parameter, policy table, and the credentials of the calling task. -/
structure State where
  enforce : Bool
  table : PolicyTable
  cred : Cred

/-- `ASTRA_VERSION`. -/
def astraVersion : ℤ := 2

/-- `from_kuid(current_user_ns(), current_uid())`: the identity every check is made against. -/
def State.caller (k : State) : UInt32 := k.cred.userNs.fromKuid k.cred.uid

/-- The case `ASTRA_GET_ROOT`. -/
def getRoot (k : State) (f : Faults) : State × Ret × Out :=
  match checkPolicy k.enforce k.table k.caller 0#64 true with
  | .error e => (k, .error e, .none)
  | .ok () =>
      if !f.prepareCred then (k, .error .ENOMEM, .none)
      else ({ k with cred := initCred }, .ok (), .none)

/-- The case `ASTRA_GET_CAPS`. -/
def getCaps (k : State) (r : AstraCaps) (f : Faults) : State × Ret × Out :=
  if !f.copyFromUser then (k, .error .EFAULT, .none)
  else
    match checkPolicy k.enforce k.table k.caller r.capEffective false with
    | .error e =>
        if !f.copyToUser then (k, .error .EFAULT, .none)
        else (k, .error e, .caps { r with result := retVal (.error e) })
    | .ok () =>
        if !f.prepareCred then (k, .error .ENOMEM, .none)
        else
          -- `commit_creds` comes before the result is copied back
          let k' := { k with cred := capsCred k.cred r }
          if !f.copyToUser then (k', .error .EFAULT, .none)
          else (k', .ok (), .caps { r with result := 0 })

/-- The case `ASTRA_SET_POLICY`. -/
def setPolicy (k : State) (e : PolicyEntry) (f : Faults) : State × Ret × Out :=
  if k.cred.uid ≠ 0 then (k, .error .EPERM, .none)
  else if !f.copyFromUser then (k, .error .EFAULT, .none)
  else
    match k.table.push e with
    | some t => ({ k with table := t }, .ok (), .none)
    | none => (k, .error .ENOSPC, .none)

/-- `astra_ioctl`. -/
def astraIoctl (k : State) (f : Faults) : Ioctl → State × Ret × Out
  | .getRoot => getRoot k f
  | .getCaps r => getCaps k r f
  | .setPolicy e => setPolicy k e f
  | .getVersion =>
      if !f.copyToUser then (k, .error .EFAULT, .none) else (k, .ok (), .version astraVersion)
  | .other _ => (k, .error .ENOTTY, .none)

/-! ### What one call can do -/

theorem mem_capsBits (mask : BitVec 64) {cap : ℕ} (h : cap < 64) :
    (mask &&& (1#64 <<< cap) != 0#64) = mask.getLsbD cap := by
  rw [Bool.eq_iff_iff, bne_iff_ne, ne_eq, ← not_iff_not, not_not]
  constructor
  · intro h0
    have hb := congrArg (fun v : BitVec 64 => v.getLsbD cap) h0
    simpa [h] using hb
  · intro h0
    apply BitVec.eq_of_getLsbD_eq
    intro i hi
    rcases Nat.lt_trichotomy i cap with hlt | rfl | hgt
    · simp [hlt]
    · have hm : mask.getLsbD i = false := by simpa using h0
      simp [hm]
    · have hne : i - cap ≠ 0 := by omega
      simp [hne]

theorem getLsbD_capRaise (caps : BitVec 64) {cap : ℕ} (h : cap < 64) (i : ℕ) :
    (capRaise caps cap).getLsbD i = (caps.getLsbD i || decide (i = cap)) := by
  unfold capRaise
  rcases Nat.lt_trichotomy i cap with hlt | rfl | hgt
  · have hne : i ≠ cap := by omega
    simp [hlt, hne]
  · simp [h]
  · have hne : i - cap ≠ 0 := by omega
    have hne' : i ≠ cap := by omega
    simp [hne, hne']

/-- The raised set is the requested mask cut off after `CAP_LAST_CAP`. -/
theorem getLsbD_raiseRequested (mask : BitVec 64) (i : ℕ) :
    (raiseRequested mask).getLsbD i = (mask.getLsbD i && decide (i ≤ capLastCap)) := by
  -- the accumulator after the first `n` rounds holds the first `n` bits
  have key : ∀ n ≤ 64, ((List.range n).foldl
      (fun caps cap => if mask &&& (1#64 <<< cap) != 0#64 then capRaise caps cap else caps)
      0#64).getLsbD i = (mask.getLsbD i && decide (i < n)) := by
    intro n
    induction n with
    | zero => simp
    | succ n ih =>
      intro hn
      rw [List.range_succ, List.foldl_append, List.foldl_cons, List.foldl_nil,
        mem_capsBits mask (by omega)]
      rcases eq_or_ne i n with rfl | hne
      · split_ifs with hb
        · simp [getLsbD_capRaise _ (show i < 64 by omega), hb]
        · rw [ih (by omega)]; simp [hb]
      · have hlt : (i < n + 1) ↔ i < n := by omega
        split_ifs with hb
        · rw [getLsbD_capRaise _ (by omega), ih (by omega)]; simp [hne, hlt]
        · rw [ih (by omega)]; simp [hlt]
  have h := key (capLastCap + 1) (by decide)
  simpa [raiseRequested, Nat.lt_succ_iff] using h

/-- The effective set committed after a passed check lies inside the entry's mask. -/
theorem raiseRequested_subset {mask allowed : BitVec 64} (h : CapsSubset mask allowed) :
    CapsSubset (raiseRequested mask) allowed := by
  intro i hi
  rw [getLsbD_raiseRequested, Bool.and_eq_true] at hi
  exact h i hi.1

theorem raiseRequested_subset_iff {mask allowed : BitVec 64} :
    CapsSubset (raiseRequested mask) allowed ↔
      ∀ i ≤ capLastCap, mask.getLsbD i = true → allowed.getLsbD i = true := by
  simp only [CapsSubset, getLsbD_raiseRequested, Bool.and_eq_true, decide_eq_true_eq]
  exact ⟨fun h i hi hm => h i ⟨hm, hi⟩, fun h i hm => h i hm.2 hm.1⟩

section Enforced

variable {k : State} (henf : k.enforce = true)
include henf

/-- Full root is obtained exactly when the caller's entry allows it and memory suffices. -/
theorem getRoot_ok_iff (f : Faults) :
    (getRoot k f).2.1 = .ok () ↔ k.table.GrantsFullRoot k.caller ∧ f.prepareCred = true := by
  have hc := checkPolicy_full_iff k.table k.caller 0#64
  unfold getRoot
  rw [henf]
  cases h : checkPolicy true k.table k.caller 0#64 true with
  | error e => rw [h] at hc; simpa using fun hg => absurd (hc.2 hg) (by simp)
  | ok u =>
    rw [h] at hc
    have hg := hc.1 rfl
    cases hp : f.prepareCred <;> simp [hg]

/-- A refused `ASTRA_GET_ROOT` changes nothing. -/
theorem getRoot_refused {f : Faults} (h : ¬ k.table.GrantsFullRoot k.caller) :
    (getRoot k f).1 = k := by
  have hc := (checkPolicy_full_iff k.table k.caller 0#64).not.2 h
  unfold getRoot
  rw [henf]
  cases hcp : checkPolicy true k.table k.caller 0#64 true with
  | error e => rfl
  | ok u => exact absurd hcp hc

/-- The request passes `check_policy` for the caller. -/
def CapsAllowed (k : State) (r : AstraCaps) : Prop :=
  ∃ e, k.table.entryFor k.caller = some e ∧ CapsSubset r.capEffective e.allowedCaps

/-- A call of `ASTRA_GET_CAPS` either stops before `commit_creds`, with an error and no effect,
or commits `capsCred` and returns `0` exactly when the result could be copied back. -/
theorem getCaps_cases (r : AstraCaps) (f : Faults) :
    (¬ (f.copyFromUser = true ∧ CapsAllowed k r ∧ f.prepareCred = true) ∧
      (getCaps k r f).1 = k ∧ (getCaps k r f).2.1 ≠ .ok ()) ∨
    (f.copyFromUser = true ∧ CapsAllowed k r ∧ f.prepareCred = true ∧
      (getCaps k r f).1 = { k with cred := capsCred k.cred r } ∧
      ((getCaps k r f).2.1 = .ok () ↔ f.copyToUser = true)) := by
  have hc := checkPolicy_caps_iff k.table k.caller r.capEffective
  change _ ↔ CapsAllowed k r at hc
  unfold getCaps
  rw [henf]
  cases hf : f.copyFromUser with
  | false => left; simp
  | true =>
    cases hcp : checkPolicy true k.table k.caller r.capEffective false with
    | error e =>
      have hna : ¬ CapsAllowed k r := by rw [← hc, hcp]; simp
      left
      cases f.copyToUser <;> simp [hna]
    | ok u =>
      have ha : CapsAllowed k r := hc.1 hcp
      cases hp : f.prepareCred with
      | false => left; simp
      | true => right; cases ht : f.copyToUser <;> simp [ha]

end Enforced

end AstraVeil.Kernel
