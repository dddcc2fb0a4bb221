import AstraVeil.Kernel.KernelBridge

/-!
# Policies written with capability names

`policy_to_kernel.cpp` translates the semantic names of the capabilities ("mount.bind",
"network.raw") to masks of kernel capabilities, and `KernelBridge::load_policy` loads the union of
the masks for a uid.

* `getLsbD_astraCapsToLinux`: the mask of several names has the capabilities of each, and a name
  that is not in the map adds none;
* `named_policy`: what a policy of names lets its uid obtain from the module, whatever else is
  loaded after it: the named capabilities, and root never.
-/

namespace AstraVeil.Kernel

open Runs

/-- `1ULL << n`. -/
def capBit (n : ℕ) : BitVec 64 := 1#64 <<< n

/-- `CAP_MAP`. -/
def CAP_MAP : List (String × BitVec 64) := [
  ("su.shell", allCapsMask),
  ("su.full", allCapsMask),
  ("mount.bind", capBit 21),
  ("mount.tmpfs", capBit 21),
  ("mount.overlay", capBit 21),
  ("filesystem.chown", capBit 0 ||| capBit 3 ||| capBit 4),
  ("filesystem.dac", capBit 1 ||| capBit 2),
  ("network.raw", capBit 13),
  ("network.admin", capBit 12),
  ("network.bind", capBit 10),
  ("module.load", capBit 16),
  ("system.reboot", capBit 22),
  ("system.time", capBit 25),
  ("system.nice", capBit 23),
  ("system.chroot", capBit 18),
  ("system.ptrace", capBit 19),
  ("system.resource", capBit 24),
  ("property.set", 0#64),
  ("property.read", 0#64),
  ("audit.write", capBit 29),
  ("audit.control", capBit 30 ||| capBit 37),
  ("security.mac", capBit 33 ||| capBit 32),
  ("security.selinux", capBit 33)]

def astraCapToLinux (capName : String) : BitVec 64 := (CAP_MAP.lookup capName).getD 0#64

def astraCapsToLinux (capNames : List String) : BitVec 64 :=
  capNames.foldl (fun result name => result ||| astraCapToLinux name) 0#64

theorem getLsbD_astraCapsToLinux (capNames : List String) (i : ℕ) :
    (astraCapsToLinux capNames).getLsbD i = true ↔
      ∃ name ∈ capNames, (astraCapToLinux name).getLsbD i = true := by
  -- the accumulator has the capabilities it started with and those of the names so far
  have hacc : ∀ acc : BitVec 64,
      (capNames.foldl (fun result name => result ||| astraCapToLinux name) acc).getLsbD i = true ↔
        acc.getLsbD i = true ∨ ∃ name ∈ capNames, (astraCapToLinux name).getLsbD i = true := by
    induction capNames with
    | nil => simp
    | cons name capNames ih =>
      intro acc
      rw [List.foldl_cons, ih, BitVec.getLsbD_or, Bool.or_eq_true, or_assoc]
      simp only [List.mem_cons, exists_eq_or_imp]
  rw [astraCapsToLinux, hacc]
  simp

/-- The policy that `load_policy` writes for names, without full root. -/
def namedEntry (uid : UInt32) (capNames : List String) : PolicyEntry :=
  ⟨uid, astraCapsToLinux capNames, 0⟩

/-- Root loads policies; the first one for a uid that gets into the table is the one it has. -/
theorem entryFor_run_load {k : State} (hroot : k.cred.uid = 0) {before after : List PolicyLoad}
    {e : PolicyEntry} {f : Faults}
    (hnew : ∀ e' ∈ (run load k before).table.entries, e'.uid ≠ e.uid)
    (hload : (setPolicy (run load k before) e f).2.1 = .ok ()) :
    (run load k (before ++ (e, f) :: after)).table.entryFor e.uid = some e := by
  have hroot' : (run load k before).cred.uid = 0 := by rw [(run_load_frame hroot before).1, hroot]
  rw [run_append, PolicyTable.entryFor, entries_run_load hroot', loaded, hload,
    List.find?_append, List.find?_eq_none.2 fun e' he' => by simpa using hnew e' he']
  simp

/-- **Policies by name.** Root has loaded a policy of capability names for a uid that had none,
and goes on loading.  A task of that uid is refused root; a request is granted exactly when every
capability in its effective set is one of a name's, and what is then in force was named. -/
theorem named_policy {k : State} (hroot : k.cred.uid = 0) (henf : k.enforce = true)
    (before after : List PolicyLoad) (uid : UInt32) (capNames : List String) (f0 : Faults)
    (hnew : ∀ e ∈ (run load k before).table.entries, e.uid ≠ uid)
    (hload : (setPolicy (run load k before) (namedEntry uid capNames) f0).2.1 = .ok ())
    {task : State} (htask : task = { run load k (before ++ (namedEntry uid capNames, f0) :: after)
      with cred := task.cred }) (hcaller : task.caller = uid) (r : AstraCaps) (f : Faults) :
    getRoot task f = (task, .error .EPERM, .none) ∧
      (KernelBridge.Commits task r f ↔ f.copyFromUser = true ∧ f.prepareCred = true ∧
        ∀ i, r.capEffective.getLsbD i = true →
          ∃ name ∈ capNames, (astraCapToLinux name).getLsbD i = true) ∧
      ((getCaps task r f).1 ≠ task → ∀ i, (getCaps task r f).1.cred.capEffective.getLsbD i = true →
        ∃ name ∈ capNames, (astraCapToLinux name).getLsbD i = true) := by
  have hentry : task.table.entryFor task.caller = some (namedEntry uid capNames) := by
    rw [hcaller, htask]
    exact entryFor_run_load hroot hnew hload
  have henf' : task.enforce = true := by
    rw [htask]
    exact (run_load_frame hroot _).2.trans henf
  have hallowed : checkPolicy task.enforce task.table task.caller r.capEffective false = .ok () ↔
      ∀ i, r.capEffective.getLsbD i = true →
        ∃ name ∈ capNames, (astraCapToLinux name).getLsbD i = true := by
    rw [henf', checkPolicy_caps_iff, hentry]
    simp only [Option.some.injEq, exists_eq_left', CapsSubset, namedEntry, getLsbD_astraCapsToLinux]
  have hcommits : KernelBridge.Commits task r f ↔ f.copyFromUser = true ∧ f.prepareCred = true ∧
      ∀ i, r.capEffective.getLsbD i = true →
        ∃ name ∈ capNames, (astraCapToLinux name).getLsbD i = true := by
    rw [KernelBridge.Commits, hallowed]
    tauto
  refine ⟨?_, hcommits, fun hne i hi => ?_⟩
  · rw [getRoot, henf', checkPolicy_eq, hentry]
    rfl
  · -- the credentials changed, so the request was granted
    have hc : KernelBridge.Commits task r f := by
      by_contra hno
      exact hne (KernelBridge.getCaps_of_refused hno)
    rw [KernelBridge.getCaps_of_commits hc, capsCred, getLsbD_raiseRequested,
      Bool.and_eq_true] at hi
    exact (hcommits.1 hc).2.2 i hi.1

/-- An app that may bind mounts asks for that, and is granted it. -/
def mountTask : State where
  enforce := true
  table := ⟨[namedEntry 10123 ["mount.bind", "root"]], by decide⟩
  cred := { initCred with uid := 10123 }

theorem named_policy_mount :
    getRoot mountTask .none = (mountTask, .error .EPERM, .none) ∧
      KernelBridge.Commits mountTask ⟨capBit 21, capBit 21, 0, 0, 0⟩ .none := by
  have htask : mountTask = { run load astrad ([] ++ (namedEntry 10123 ["mount.bind", "root"],
      Faults.none) :: []) with cred := mountTask.cred } := rfl
  have h := named_policy rfl rfl [] [] 10123 ["mount.bind", "root"] .none (by decide) (by decide)
    htask rfl ⟨capBit 21, capBit 21, 0, 0, 0⟩ .none
  refine ⟨h.1, h.2.1.2 ⟨rfl, rfl, fun i hi => ⟨"mount.bind", by simp, ?_⟩⟩⟩
  exact hi

end AstraVeil.Kernel
