import AstraVeil.Kernel.PolicyHistory

/-!
# The daemon's bridge to the kernel module

`KernelBridge` keeps the descriptor of `/dev/astra_root` and whether root was obtained, and turns
its calls into ioctls of the daemon's own task.  Which services of the kernel fail, and whether
the device can be opened, is the environment's choice in every call.

* `cached_root_iff`: over every run of calls, when the remembered root is the truth about the uid
  and when about the credentials;
* `fresh_module_refuses`: a freshly loaded module gives nothing to a daemon that is not root, and
  nothing to any daemon before it has loaded a policy.
-/

namespace AstraVeil.Kernel

open Runs

/-- The static members of `KernelBridge`, and the kernel as its task sees it. -/
structure KernelBridge where
  fd : Option ℕ
  rooted : Bool
  kernel : State

namespace KernelBridge

/-- What `open` of the device returns if it is called, and which services fail in the ioctl. -/
structure Env where
  device : Option ℕ
  faults : Faults

def bridgeOpen (b : KernelBridge) (v : Env) : KernelBridge × Bool :=
  if b.fd.isSome then (b, true) else ({ b with fd := v.device }, v.device.isSome)

def bridgeClose (b : KernelBridge) : KernelBridge :=
  if b.fd.isSome then { b with fd := none, rooted := false } else b

def getRoot (b : KernelBridge) (v : Env) : KernelBridge × Bool :=
  if b.rooted then (b, true)
  else
    let (b, ok) := b.bridgeOpen v
    if !ok then (b, false)
    else
      match astraIoctl b.kernel v.faults .getRoot with
      | (k, .error _, _) => ({ b with kernel := k }, false)
      | (k, .ok (), _) =>
          if k.caller ≠ 0 then ({ b with kernel := k }, false)
          else ({ b with kernel := k, rooted := true }, true)

/-- The request of `get_capabilities`. -/
def capsRequest (caps : BitVec 64) (uid : UInt32) : AstraCaps := ⟨caps, caps, uid, uid, -1⟩

def getCapabilities (b : KernelBridge) (caps : BitVec 64) (uid : UInt32) (v : Env) :
    KernelBridge × Bool :=
  let (b, ok) := b.bridgeOpen v
  if !ok then (b, false)
  else
    match astraIoctl b.kernel v.faults (.getCaps (capsRequest caps uid)) with
    | (k, .ok (), .caps c) => ({ b with kernel := k }, c.result == 0)
    | (k, _, _) => ({ b with kernel := k }, false)

def loadPolicy (b : KernelBridge) (uid : UInt32) (caps : BitVec 64) (fullRoot : Bool) (v : Env) :
    KernelBridge × Bool :=
  let (b, ok) := b.bridgeOpen v
  if !ok then (b, false)
  else
    match astraIoctl b.kernel v.faults (.setPolicy ⟨uid, caps, if fullRoot then 1 else 0⟩) with
    | (k, .error _, _) => ({ b with kernel := k }, false)
    | (k, .ok (), _) => ({ b with kernel := k }, true)

/-- `_IOW('A', 5, struct AstraMountReq)`: a command the module does not have. -/
def mountHelper : UInt32 := 0x43504105

def mount (b : KernelBridge) (v : Env) : KernelBridge × Bool :=
  let (b, ok) := b.bridgeOpen v
  if !ok then (b, false)
  else
    match astraIoctl b.kernel v.faults (.other mountHelper) with
    | (k, .error _, _) => ({ b with kernel := k }, false)
    | (k, .ok (), _) => ({ b with kernel := k }, true)

def getVersion (b : KernelBridge) (v : Env) : KernelBridge × ℤ :=
  let (b, ok) := b.bridgeOpen v
  if !ok then (b, -1)
  else
    match astraIoctl b.kernel v.faults .getVersion with
    | (k, .ok (), .version ver) => ({ b with kernel := k }, ver)
    | (k, _, _) => ({ b with kernel := k }, -1)

/-- `sync_policies_to_kernel`; the device may be missing, and every load has its own faults. -/
def syncPolicies (b : KernelBridge) (available : Bool) (v w : Env) : KernelBridge :=
  if !available then b
  else ((b.loadPolicy 0 allCapsMask true v).1.loadPolicy 2000 allCapsMask true w).1

/-- The calls of the bridge. -/
inductive Op
  | bridgeOpen (v : Env)
  | bridgeClose
  | getRoot (v : Env)
  | getCapabilities (caps : BitVec 64) (uid : UInt32) (v : Env)
  | loadPolicy (uid : UInt32) (caps : BitVec 64) (fullRoot : Bool) (v : Env)
  | mount (v : Env)
  | getVersion (v : Env)
  | syncPolicies (available : Bool) (v w : Env)

def step (b : KernelBridge) : Op → KernelBridge
  | .bridgeOpen v => (b.bridgeOpen v).1
  | .bridgeClose => b.bridgeClose
  | .getRoot v => (b.getRoot v).1
  | .getCapabilities caps uid v => (b.getCapabilities caps uid v).1
  | .loadPolicy uid caps full v => (b.loadPolicy uid caps full v).1
  | .mount v => (b.mount v).1
  | .getVersion v => (b.getVersion v).1
  | .syncPolicies available v w => b.syncPolicies available v w

/-! ### What a call does -/

/-- The kernel commits the credentials of a request. -/
def Commits (k : State) (r : AstraCaps) (f : Faults) : Prop :=
  f.copyFromUser = true ∧ checkPolicy k.enforce k.table k.caller r.capEffective false = .ok () ∧
    f.prepareCred = true

theorem getCaps_of_commits {k : State} {r : AstraCaps} {f : Faults} (h : Commits k r f) :
    (Kernel.getCaps k r f).1 = { k with cred := capsCred k.cred r } := by
  obtain ⟨hcopy, hpolicy, hprepare⟩ := h
  unfold Kernel.getCaps
  cases f.copyToUser <;> simp [hcopy, hpolicy, hprepare]

theorem getCaps_of_refused {k : State} {r : AstraCaps} {f : Faults} (h : ¬ Commits k r f) :
    (Kernel.getCaps k r f).1 = k := by
  unfold Commits at h
  unfold Kernel.getCaps
  by_cases hcopy : f.copyFromUser = true
  · cases hp : checkPolicy k.enforce k.table k.caller r.capEffective false with
    | error e => cases f.copyToUser <;> simp [hcopy]
    | ok u =>
      have hprepare : f.prepareCred = false := by
        simpa [hcopy, hp] using h
      simp [hcopy, hprepare]
  · simp [hcopy]

theorem setPolicy_cred (k : State) (e : PolicyEntry) (f : Faults) :
    (setPolicy k e f).1.cred = k.cred ∧ (setPolicy k e f).1.enforce = k.enforce := by
  unfold setPolicy
  split_ifs with h1 h2
  · exact ⟨rfl, rfl⟩
  · exact ⟨rfl, rfl⟩
  · cases k.table.push e <;> exact ⟨rfl, rfl⟩

@[simp] theorem bridgeOpen_kernel (b : KernelBridge) (v : Env) :
    (b.bridgeOpen v).1.kernel = b.kernel := by
  unfold bridgeOpen
  split_ifs <;> rfl

@[simp] theorem bridgeOpen_rooted (b : KernelBridge) (v : Env) :
    (b.bridgeOpen v).1.rooted = b.rooted := by
  unfold bridgeOpen
  split_ifs <;> rfl

theorem bridgeOpen_snd (b : KernelBridge) (v : Env) :
    (b.bridgeOpen v).2 = (b.bridgeOpen v).1.fd.isSome := by
  unfold bridgeOpen
  split_ifs with h
  · exact h.symm
  · rfl

theorem bridgeOpen_of_open {b : KernelBridge} (h : b.fd.isSome = true) (v : Env) :
    b.bridgeOpen v = (b, true) := by
  rw [bridgeOpen, if_pos h]

/-- The kernel after `get_capabilities`, and what the bridge remembers. -/
theorem getCapabilities_fst (b : KernelBridge) (caps : BitVec 64) (uid : UInt32) (v : Env) :
    (b.getCapabilities caps uid v).1 =
      if (b.bridgeOpen v).2 = true then
        { (b.bridgeOpen v).1 with
          kernel := (Kernel.getCaps b.kernel (capsRequest caps uid) v.faults).1 }
      else (b.bridgeOpen v).1 := by
  unfold getCapabilities
  rcases hb : b.bridgeOpen v with ⟨b', ok⟩
  have hk : b'.kernel = b.kernel := by rw [← bridgeOpen_kernel b v, hb]
  cases ok with
  | false => simp
  | true =>
    simp only [Bool.not_true, Bool.false_eq_true, if_false, if_true, hk, astraIoctl]
    rcases Kernel.getCaps b.kernel (capsRequest caps uid) v.faults with ⟨k, r, o⟩
    cases r <;> cases o <;> rfl

theorem loadPolicy_fst (b : KernelBridge) (uid : UInt32) (caps : BitVec 64) (full : Bool)
    (v : Env) : (b.loadPolicy uid caps full v).1 =
      if (b.bridgeOpen v).2 = true then
        { (b.bridgeOpen v).1 with
          kernel := (setPolicy b.kernel ⟨uid, caps, if full then 1 else 0⟩ v.faults).1 }
      else (b.bridgeOpen v).1 := by
  unfold loadPolicy
  rcases hb : b.bridgeOpen v with ⟨b', ok⟩
  have hk : b'.kernel = b.kernel := by rw [← bridgeOpen_kernel b v, hb]
  cases ok with
  | false => simp
  | true =>
    simp only [Bool.not_true, Bool.false_eq_true, if_false, if_true, hk, astraIoctl]
    rcases setPolicy b.kernel ⟨uid, caps, if full then 1 else 0⟩ v.faults with ⟨k, r, o⟩
    cases r <;> rfl

/-- The module has no mount helper: `mount` fails, whatever is asked. -/
theorem mount_eq (b : KernelBridge) (v : Env) : b.mount v = ((b.bridgeOpen v).1, false) := by
  unfold mount
  rcases hb : b.bridgeOpen v with ⟨b', ok⟩
  cases ok <;> rfl

theorem getVersion_fst (b : KernelBridge) (v : Env) : (b.getVersion v).1 = (b.bridgeOpen v).1 := by
  unfold getVersion
  rcases hb : b.bridgeOpen v with ⟨b', ok⟩
  cases ok with
  | false => rfl
  | true => cases h : v.faults.copyToUser <;> simp [astraIoctl, h]

theorem loadPolicy_frame (b : KernelBridge) (uid : UInt32) (caps : BitVec 64) (full : Bool)
    (v : Env) : (b.loadPolicy uid caps full v).1.rooted = b.rooted ∧
      (b.loadPolicy uid caps full v).1.kernel.cred = b.kernel.cred ∧
      (b.loadPolicy uid caps full v).1.kernel.enforce = b.kernel.enforce ∧
      (b.fd.isSome = true → (b.loadPolicy uid caps full v).1.fd.isSome = true) := by
  have hset := setPolicy_cred b.kernel ⟨uid, caps, if full then 1 else 0⟩ v.faults
  have hfd : b.fd.isSome = true → (b.bridgeOpen v).1.fd.isSome = true := fun h => by
    rw [bridgeOpen_of_open h]
    exact h
  rw [loadPolicy_fst]
  by_cases hopen : (b.bridgeOpen v).2 = true
  · rw [if_pos hopen]
    exact ⟨bridgeOpen_rooted b v, hset.1, hset.2, hfd⟩
  · rw [if_neg hopen, bridgeOpen_rooted, bridgeOpen_kernel]
    exact ⟨rfl, rfl, rfl, hfd⟩

theorem getRoot_of_rooted {b : KernelBridge} (h : b.rooted = true) (v : Env) :
    b.getRoot v = (b, true) := by
  rw [getRoot, if_pos h]

/-- Root that was not remembered before is that of the initial task. -/
theorem getRoot_rooted {b : KernelBridge} (hnot : b.rooted = false) {v : Env}
    (h : (b.getRoot v).1.rooted = true) :
    (b.getRoot v).1.kernel.cred = initCred ∧ (b.getRoot v).1.fd.isSome = true := by
  unfold getRoot at h ⊢
  rcases hb : b.bridgeOpen v with ⟨b', ok⟩
  have hsome : ok = b'.fd.isSome := by simpa [hb] using bridgeOpen_snd b v
  have hroot : b'.rooted = false := by simpa [hb, hnot] using bridgeOpen_rooted b v
  cases ok with
  | false => simp [hb, hnot, hroot] at h
  | true =>
    simp only [hnot, hb, astraIoctl, Kernel.getRoot] at h ⊢
    cases hp : checkPolicy b'.kernel.enforce b'.kernel.table b'.kernel.caller 0#64 true with
    | error e => simp [hp, hroot] at h
    | ok u =>
      cases hf : v.faults.prepareCred with
      | false => simp [hp, hf, hroot] at h
      | true => simp [State.caller, initCred, initUserNs, ← hsome]

/-- What a call that asks for no capabilities leaves as it is, if root is remembered after it. -/
theorem step_rooted (b : KernelBridge) {op : Op}
    (hop : ∀ caps uid v, op ≠ .getCapabilities caps uid v) (h : (step b op).rooted = true) :
    (b.rooted = true ∧ (step b op).kernel.cred = b.kernel.cred ∧
        (b.fd.isSome = true → (step b op).fd.isSome = true)) ∨
      ((step b op).kernel.cred = initCred ∧ (step b op).fd.isSome = true) := by
  cases op with
  | bridgeOpen v =>
    refine Or.inl ⟨by simpa [step] using h, by simp [step], fun hfd => ?_⟩
    simpa [step, bridgeOpen_of_open hfd] using hfd
  | bridgeClose =>
    unfold step bridgeClose at h ⊢
    split_ifs at h ⊢ with hfd
    exact Or.inl ⟨h, rfl, id⟩
  | getRoot v =>
    cases hroot : b.rooted with
    | true =>
      have heq : step b (.getRoot v) = b := by rw [step, getRoot_of_rooted hroot]
      rw [heq]
      exact Or.inl ⟨rfl, rfl, id⟩
    | false => exact Or.inr (getRoot_rooted hroot h)
  | getCapabilities caps uid v => exact absurd rfl (hop caps uid v)
  | loadPolicy uid caps full v =>
    obtain ⟨hroot, hcred, -, hfd⟩ := loadPolicy_frame b uid caps full v
    exact Or.inl ⟨hroot ▸ h, hcred, hfd⟩
  | mount v =>
    refine Or.inl ⟨by simpa [step, mount_eq] using h, by simp [step, mount_eq], fun hfd => ?_⟩
    simpa [step, mount_eq, bridgeOpen_of_open hfd] using hfd
  | getVersion v =>
    refine Or.inl ⟨by simpa [step, getVersion_fst] using h, by simp [step, getVersion_fst],
      fun hfd => ?_⟩
    simpa [step, getVersion_fst, bridgeOpen_of_open hfd] using hfd
  | syncPolicies available v w =>
    cases available with
    | false => exact Or.inl ⟨h, rfl, id⟩
    | true =>
      obtain ⟨hroot, hcred, -, hfd⟩ := loadPolicy_frame b 0 allCapsMask true v
      obtain ⟨hroot', hcred', -, hfd'⟩ :=
        loadPolicy_frame (b.loadPolicy 0 allCapsMask true v).1 2000 allCapsMask true w
      exact Or.inl ⟨hroot ▸ hroot' ▸ h, hcred'.trans hcred, fun h => hfd' (hfd h)⟩

/-! ### The remembered root -/

/-- What goes with remembered root: an open device and ids that are kernel ids. -/
def Settled (b : KernelBridge) : Prop :=
  b.rooted = true → b.fd.isSome = true ∧ b.kernel.cred.userNs = initUserNs

theorem step_getCapabilities {b : KernelBridge} (h : b.fd.isSome = true) (caps : BitVec 64)
    (uid : UInt32) (v : Env) : step b (.getCapabilities caps uid v) =
      { b with kernel := (Kernel.getCaps b.kernel (capsRequest caps uid) v.faults).1 } := by
  rw [step, getCapabilities_fst, bridgeOpen_of_open h]
  rfl

theorem rooted_getCapabilities (b : KernelBridge) (caps : BitVec 64) (uid : UInt32) (v : Env) :
    (step b (.getCapabilities caps uid v)).rooted = b.rooted := by
  rw [step, getCapabilities_fst]
  split_ifs <;> simp

/-- The kernel grants the request, and its task gives up a uid or the rest of its capabilities. -/
def Committed (b : KernelBridge) (caps : BitVec 64) (uid : UInt32) (v : Env) : Prop :=
  Commits b.kernel (capsRequest caps uid) v.faults

theorem settled_step (b : KernelBridge) (op : Op) (h : Settled b) : Settled (step b op) := by
  intro hroot
  by_cases hop : ∃ caps uid v, op = .getCapabilities caps uid v
  · obtain ⟨caps, uid, v, rfl⟩ := hop
    rw [rooted_getCapabilities] at hroot
    obtain ⟨hfd, hns⟩ := h hroot
    rw [step_getCapabilities hfd]
    refine ⟨hfd, ?_⟩
    by_cases hc : Commits b.kernel (capsRequest caps uid) v.faults
    · rw [getCaps_of_commits hc]
      exact hns
    · rw [getCaps_of_refused hc]
      exact hns
  · replace hop : ∀ caps uid v, op ≠ .getCapabilities caps uid v :=
      fun caps uid v h => hop ⟨caps, uid, v, h⟩
    rcases step_rooted b hop hroot with ⟨hbefore, hcred, hfd⟩ | ⟨hcred, hfd⟩
    · exact ⟨hfd (h hbefore).1, hcred ▸ (h hbefore).2⟩
    · exact ⟨hfd, hcred ▸ rfl⟩

/-- The remembered root is the truth about the uid. -/
def RootedIsRoot (b : KernelBridge) : Prop := b.rooted = true → b.kernel.caller = 0

/-- The remembered root is the truth about all the credentials. -/
def RootedIsFull (b : KernelBridge) : Prop := b.rooted = true → b.kernel.cred = initCred

/-- The call does not give up the uid of a task whose root is remembered. -/
def KeepsUid (b : KernelBridge) : Op → Prop
  | .getCapabilities caps uid v => b.rooted = true → uid ≠ 0 → ¬ Committed b caps uid v
  | _ => True

/-- The call narrows no capabilities of a task whose root is remembered. -/
def KeepsCaps (b : KernelBridge) : Op → Prop
  | .getCapabilities caps uid v => b.rooted = true → ¬ Committed b caps uid v
  | _ => True

theorem rootedIsRoot_step {b : KernelBridge} {op : Op} (hI : Settled b) (hP : RootedIsRoot b) :
    RootedIsRoot (step b op) ↔ KeepsUid b op := by
  by_cases hop : ∃ caps uid v, op = .getCapabilities caps uid v
  · obtain ⟨caps, uid, v, rfl⟩ := hop
    unfold RootedIsRoot KeepsUid Committed
    rw [rooted_getCapabilities]
    refine forall_congr' fun hroot => ?_
    obtain ⟨hfd, hns⟩ := hI hroot
    have h0 : b.kernel.cred.uid = 0 := by
      simpa [State.caller, hns, initUserNs] using hP hroot
    rw [step_getCapabilities hfd]
    by_cases hc : Commits b.kernel (capsRequest caps uid) v.faults
    · rw [getCaps_of_commits hc]
      by_cases huid : uid = 0
      · simp [State.caller, capsCred, capsRequest, hns, initUserNs, huid, h0]
      · refine iff_of_false (fun hcaller => huid ?_) fun hno => hno huid hc
        simp [State.caller, capsCred, capsRequest, hns, initUserNs, huid] at hcaller
    · rw [getCaps_of_refused hc]
      exact iff_of_true (hP hroot) fun _ => hc
  · replace hop : ∀ caps uid v, op ≠ .getCapabilities caps uid v :=
      fun caps uid v h => hop ⟨caps, uid, v, h⟩
    have hkeeps : KeepsUid b op := by
      cases op <;> first | trivial | exact absurd rfl (hop _ _ _)
    refine iff_of_true (fun hroot => ?_) hkeeps
    rcases step_rooted b hop hroot with ⟨hbefore, hcred, -⟩ | ⟨hcred, -⟩
    · rw [State.caller, hcred]
      exact hP hbefore
    · rw [State.caller, hcred]
      rfl

theorem rootedIsFull_step {b : KernelBridge} {op : Op} (hI : Settled b) (hP : RootedIsFull b) :
    RootedIsFull (step b op) ↔ KeepsCaps b op := by
  by_cases hop : ∃ caps uid v, op = .getCapabilities caps uid v
  · obtain ⟨caps, uid, v, rfl⟩ := hop
    unfold RootedIsFull KeepsCaps Committed
    rw [rooted_getCapabilities]
    refine forall_congr' fun hroot => ?_
    rw [step_getCapabilities (hI hroot).1]
    by_cases hc : Commits b.kernel (capsRequest caps uid) v.faults
    · rw [getCaps_of_commits hc]
      refine iff_of_false (fun hcred => ?_) (not_not.2 hc)
      -- the bounding set is cleared, and that of the initial task is not
      have hbset : (0#64) = allCapsMask := congrArg Cred.capBset hcred
      exact absurd hbset (by decide)
    · rw [getCaps_of_refused hc]
      exact iff_of_true (hP hroot) hc
  · replace hop : ∀ caps uid v, op ≠ .getCapabilities caps uid v :=
      fun caps uid v h => hop ⟨caps, uid, v, h⟩
    have hkeeps : KeepsCaps b op := by
      cases op <;> first | trivial | exact absurd rfl (hop _ _ _)
    refine iff_of_true (fun hroot => ?_) hkeeps
    rcases step_rooted b hop hroot with ⟨hbefore, hcred, -⟩ | ⟨hcred, -⟩
    · rw [hcred]
      exact hP hbefore
    · exact hcred

/-- **The remembered root.** Over every run of calls it is the truth about the uid exactly when
no granted request names another uid while root is remembered, and about the credentials exactly
when no request is granted at all. -/
theorem cached_root_iff {b : KernelBridge} (h : b.rooted = false) (ops : List Op) :
    ((∀ pre post, ops = pre ++ post → RootedIsRoot (run step b pre)) ↔
        Along step KeepsUid b ops) ∧
      ((∀ pre post, ops = pre ++ post → RootedIsFull (run step b pre)) ↔
        Along step KeepsCaps b ops) := by
  have hI : Settled b := fun hr => absurd hr (by simp [h])
  have hall : Along step (fun _ _ => True) b ops := along_forall.2 fun _ _ => trivial
  constructor
  · exact prefixes_iff_along_on (I := Settled) (P := RootedIsRoot)
      (fun s a hI hP _ => rootedIsRoot_step hI hP) (fun s a hI _ => settled_step s a hI) hI
      (fun hr => absurd hr (by simp [h])) hall
  · exact prefixes_iff_along_on (I := Settled) (P := RootedIsFull)
      (fun s a hI hP _ => rootedIsFull_step hI hP) (fun s a hI _ => settled_step s a hI) hI
      (fun hr => absurd hr (by simp [h])) hall

/-- The daemon's task as root, and the module with its policies loaded. -/
def rootDaemon : KernelBridge where
  fd := none
  rooted := false
  kernel := ⟨true, ⟨[⟨0, allCapsMask, 1⟩], by decide⟩, initCred⟩

/-- Obtaining root and then the capabilities of the shell's uid. -/
theorem cached_root_iff_shell :
    ¬ Along step KeepsUid rootDaemon
      [.getRoot ⟨some 3, .none⟩, .getCapabilities 0#64 2000 ⟨none, .none⟩] := by
  intro h
  have hlie := (cached_root_iff (b := rootDaemon) rfl _).1.2 h
    [.getRoot ⟨some 3, .none⟩, .getCapabilities 0#64 2000 ⟨none, .none⟩] [] rfl
  exact absurd (hlie (by decide +kernel)) (by decide +kernel)

/-! ### A freshly loaded module -/

/-- The call loads a policy. -/
def LoadsPolicy : Op → Prop
  | .loadPolicy _ _ _ _ => True
  | .syncPolicies available _ _ => available = true
  | _ => False

section Fresh

variable {b : KernelBridge}

theorem checkPolicy_empty {k : State} (henf : k.enforce = true) (hempty : k.table.entries = [])
    (uid : UInt32) (caps : BitVec 64) (full : Bool) :
    checkPolicy k.enforce k.table uid caps full = .error .EPERM := by
  simp [checkPolicy, henf, hempty]

theorem getRoot_fresh (henf : b.kernel.enforce = true) (hempty : b.kernel.table.entries = [])
    (hroot : b.rooted = false) (v : Env) : b.getRoot v = ((b.bridgeOpen v).1, false) := by
  unfold getRoot
  rcases hb : b.bridgeOpen v with ⟨b', ok⟩
  have hk : b'.kernel = b.kernel := by rw [← bridgeOpen_kernel b v, hb]
  cases ok with
  | false => simp [hroot]
  | true =>
    have hrefuse : Kernel.getRoot b'.kernel v.faults = (b'.kernel, .error .EPERM, .none) := by
      rw [Kernel.getRoot, hk, checkPolicy_empty henf hempty]
    simp [hroot, astraIoctl, hrefuse]

theorem setPolicy_unprivileged {k : State} (h : k.cred.uid ≠ 0) (e : PolicyEntry) (f : Faults) :
    (setPolicy k e f).1 = k := by
  rw [setPolicy, if_pos h]

theorem loadPolicy_unprivileged (h : b.kernel.cred.uid ≠ 0) (uid : UInt32) (caps : BitVec 64)
    (full : Bool) (v : Env) : (b.loadPolicy uid caps full v).1.kernel = b.kernel := by
  rw [loadPolicy_fst]
  by_cases hopen : (b.bridgeOpen v).2 = true
  · rw [if_pos hopen]
    exact setPolicy_unprivileged h _ _
  · rw [if_neg hopen, bridgeOpen_kernel]

theorem fresh_step (henf : b.kernel.enforce = true) (hempty : b.kernel.table.entries = [])
    (hroot : b.rooted = false) {op : Op} (hop : b.kernel.cred.uid ≠ 0 ∨ ¬ LoadsPolicy op) :
    (step b op).kernel = b.kernel ∧ (step b op).rooted = false := by
  cases op with
  | bridgeOpen v => exact ⟨bridgeOpen_kernel b v, (bridgeOpen_rooted b v).trans hroot⟩
  | bridgeClose =>
    unfold step bridgeClose
    split_ifs
    · exact ⟨rfl, rfl⟩
    · exact ⟨rfl, hroot⟩
  | getRoot v =>
    rw [step, getRoot_fresh henf hempty hroot]
    exact ⟨bridgeOpen_kernel b v, (bridgeOpen_rooted b v).trans hroot⟩
  | getCapabilities caps uid v =>
    refine ⟨?_, by rw [rooted_getCapabilities, hroot]⟩
    have hno : ¬ Commits b.kernel (capsRequest caps uid) v.faults := by
      rintro ⟨-, hpolicy, -⟩
      rw [checkPolicy_empty henf hempty] at hpolicy
      cases hpolicy
    rw [step, getCapabilities_fst]
    by_cases hopen : (b.bridgeOpen v).2 = true
    · rw [if_pos hopen]
      exact getCaps_of_refused hno
    · rw [if_neg hopen, bridgeOpen_kernel]
  | loadPolicy uid caps full v =>
    have huid := hop.resolve_right fun h => h trivial
    exact ⟨loadPolicy_unprivileged huid uid caps full v,
      (loadPolicy_frame b uid caps full v).1.trans hroot⟩
  | mount v =>
    rw [step, mount_eq]
    exact ⟨bridgeOpen_kernel b v, (bridgeOpen_rooted b v).trans hroot⟩
  | getVersion v =>
    rw [step, getVersion_fst]
    exact ⟨bridgeOpen_kernel b v, (bridgeOpen_rooted b v).trans hroot⟩
  | syncPolicies available v w =>
    cases available with
    | false => exact ⟨rfl, hroot⟩
    | true =>
      have huid := hop.resolve_right fun h => h rfl
      have hfirst := loadPolicy_unprivileged huid 0 allCapsMask true v
      obtain ⟨hroot1, -⟩ := loadPolicy_frame b 0 allCapsMask true v
      obtain ⟨hroot2, -⟩ :=
        loadPolicy_frame (b.loadPolicy 0 allCapsMask true v).1 2000 allCapsMask true w
      refine ⟨?_, hroot2.trans (hroot1.trans hroot)⟩
      exact (loadPolicy_unprivileged (hfirst ▸ huid) 2000 allCapsMask true w).trans hfirst

/-- **A freshly loaded module.** While its table is empty it gives nothing, and only root can
fill it: a daemon that is not root already, and any daemon that loads no policy, never changes the
kernel's state and never has root. -/
theorem fresh_module_refuses (henf : b.kernel.enforce = true)
    (hempty : b.kernel.table.entries = []) (hroot : b.rooted = false) {ops : List Op}
    (hops : b.kernel.cred.uid ≠ 0 ∨ ∀ op ∈ ops, ¬ LoadsPolicy op) :
    (run step b ops).kernel = b.kernel ∧ (run step b ops).rooted = false := by
  have hstep : ∀ s op, (s.kernel = b.kernel ∧ s.rooted = false) →
      (b.kernel.cred.uid ≠ 0 ∨ ¬ LoadsPolicy op) →
      (step s op).kernel = b.kernel ∧ (step s op).rooted = false := by
    rintro s op ⟨hk, hr⟩ hop
    rw [← hk]
    exact fresh_step (by rw [hk, henf]) (by rw [hk, hempty]) hr (by rwa [hk])
  have hok : Along step (fun _ op => b.kernel.cred.uid ≠ 0 ∨ ¬ LoadsPolicy op) b ops :=
    along_forall.2 fun op hmem => hops.imp_right fun h => h op hmem
  exact run_invariant_of (fun s op hI hop => hstep s op hI hop) ⟨rfl, hroot⟩ hok

/-- The shell's uid with the module just loaded. -/
def shellDaemon : KernelBridge where
  fd := none
  rooted := false
  kernel := ⟨true, .empty, { initCred with uid := 2000 }⟩

theorem fresh_module_refuses_shell (v w : Env) :
    (run step shellDaemon [.syncPolicies true v w, .getRoot v]).rooted = false :=
  (fresh_module_refuses (b := shellDaemon) rfl rfl rfl (Or.inl (by decide))).2

end Fresh

end KernelBridge

end AstraVeil.Kernel
