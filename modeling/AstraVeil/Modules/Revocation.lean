import AstraVeil.Modules.App
import AstraVeil.Core.FailClosed

/-!
# Revoked permissions and the sandbox

What a module may do is kept by the permission engine, whose grants are saved with the
configuration, and again in `AstraModule.grantedPermissions`, from which `ModuleSandbox` derives a
profile, and which is saved with the registry.

* `profile_mono`: fewer permissions give a narrower profile;
* `Leads`: what an operation of the manager may leave in the process and in the registry;
* `RevokeOk`, `reaches_step_iff`: after a step the modules hold no more than the engine exactly
  under this condition;
* `revocation_reaches_iff`: the resulting law over all runs.
-/

namespace AstraVeil.Modules

open Utf16 KotlinString Finmaps AstraVeil.Core

variable {Key : Type} {D : Device Key}

/-! ### Profiles -/

/-- The first profile allows no more than the second. -/
structure SandboxProfile.Within (p q : SandboxProfile) : Prop where
  allowedPaths : ∀ path ∈ p.allowedPaths, path ∈ q.allowedPaths
  network : p.network = true → q.network = true
  maxPermission : p.maxPermission.level ≤ q.maxPermission.level

theorem level_maxPermission (id path : JString) (granted : Finset JString) {p : Permission}
    (h : HasTier granted p) : p.level ≤ (profile id path granted).maxPermission.level := by
  show p.level ≤ Permission.level
    (([.kernel, .root, .shell].find? fun p => decide (HasTier granted p)).getD .none)
  by_cases hk : HasTier granted .kernel
  · rw [List.find?_cons_of_pos (by simpa using hk)]
    cases p <;> decide
  rw [List.find?_cons_of_neg (by simpa using hk)]
  by_cases hr : HasTier granted .root
  · rw [List.find?_cons_of_pos (by simpa using hr)]
    cases p with
    | kernel => exact absurd h hk
    | _ => decide
  rw [List.find?_cons_of_neg (by simpa using hr)]
  by_cases hs : HasTier granted .shell
  · rw [List.find?_cons_of_pos (by simpa using hs)]
    cases p with
    | kernel => exact absurd h hk
    | root => exact absurd h hr
    | _ => decide
  cases p with
  | kernel => exact absurd h hk
  | root => exact absurd h hr
  | shell => exact absurd h hs
  | none => exact Nat.zero_le _

theorem hasTier_maxPermission (id path : JString) (granted : Finset JString) :
    (profile id path granted).maxPermission = .none ∨
      HasTier granted (profile id path granted).maxPermission := by
  show ([.kernel, .root, .shell].find? fun p => decide (HasTier granted p)).getD .none = .none ∨
    HasTier granted
      (([.kernel, .root, .shell].find? fun p => decide (HasTier granted p)).getD .none)
  cases hf : [.kernel, .root, .shell].find? fun p => decide (HasTier granted p) with
  | none => exact .inl rfl
  | some p =>
    have htier : decide (HasTier granted p) = true :=
      List.find?_some (p := fun p => decide (HasTier granted p)) hf
    exact .inr (of_decide_eq_true htier)

/-- Fewer permissions give a narrower profile. -/
theorem profile_mono (id path : JString) {granted granted' : Finset JString}
    (h : granted ⊆ granted') : (profile id path granted).Within (profile id path granted') where
  allowedPaths q hq := by
    unfold profile at hq ⊢
    simp only [List.mem_eraseDups, List.mem_cons] at hq ⊢
    refine hq.imp_right fun hq => ?_
    split_ifs at hq with hf
    · rw [if_pos (h hf)]
      exact hq
    · cases hq
  network hn := decide_eq_true (h (of_decide_eq_true hn))
  maxPermission := by
    rcases hasTier_maxPermission id path granted with hnone | ⟨name, hname, htier⟩
    · rw [hnone]
      exact Nat.zero_le _
    · exact level_maxPermission id path granted' ⟨name, h hname, htier⟩

/-! ### What a module holds -/

/-- The manager holds the permission for the module. -/
def Manager.Holds (m : Manager) (id p : JString) : Prop :=
  ∃ module, m.modules.lookup id = some module ∧ p ∈ module.grantedPermissions

theorem holds_insert {m : Manager} {id : JString} {module : AstraModule}
    {records : Map JString ModuleRecord} {id' p : JString}
    (h : Manager.Holds ⟨m.modules.insert id module, records⟩ id' p) :
    (id' = id ∧ p ∈ module.grantedPermissions) ∨ m.Holds id' p := by
  obtain ⟨module', hmod, hp⟩ := h
  by_cases hid : id' = id
  · subst hid
    rw [AList.lookup_insert] at hmod
    obtain rfl := Option.some.inj hmod
    exact .inl ⟨rfl, hp⟩
  · rw [AList.lookup_insert_ne hid] at hmod
    exact .inr ⟨module', hmod, hp⟩

theorem holds_erase {m : Manager} {id : JString} {records : Map JString ModuleRecord}
    {id' p : JString} (h : Manager.Holds ⟨m.modules.erase id, records⟩ id' p) :
    m.Holds id' p ∧ id' ≠ id := by
  obtain ⟨module', hmod, hp⟩ := h
  by_cases hid : id' = id
  · rw [hid, AList.lookup_erase] at hmod
    cases hmod
  · rw [AList.lookup_erase_ne hid] at hmod
    exact ⟨⟨module', hmod, hp⟩, hid⟩

namespace App

/-- The running manager holds the permission for the module. -/
def Holds (a : App) (id p : JString) : Prop := ∃ m, a.world.process = some m ∧ m.Holds id p

/-- What an installed module holds is within what the engine holds for it, and its profile within
the one of these permissions. -/
def Reaches (a : App) : Prop :=
  ∀ m, a.world.process = some m → ∀ id module, m.modules.lookup id = some module →
    module.grantedPermissions ⊆ a.core.engine.list id ∧
      (profileFor module).Within
        (profile module.id module.installPath (a.core.engine.list id))

theorem reaches_iff {a : App} :
    a.Reaches ↔ ∀ id p, a.Holds id p → p ∈ a.core.engine.list id := by
  constructor
  · rintro h id p ⟨m, hm, module, hl, hp⟩
    exact (h m hm id module hl).1 hp
  · intro h m hm id module hl
    have hsub : module.grantedPermissions ⊆ a.core.engine.list id := fun p hp =>
      h id p ⟨m, hm, module, hl, hp⟩
    exact ⟨hsub, profile_mono module.id module.installPath hsub⟩

/-- The steps after which revocation reaches the sandbox: nothing is revoked that a module of the
running manager holds, and a restart finds a configuration that grants what the registry records
for each module it gives back. -/
def RevokeOk (D : Device Key) (a : App) : AppOp → Prop
  | .revoke id p => ¬ a.Holds id p
  | .revokeAll id => ∀ p, ¬ a.Holds id p
  | .updatePermission id p false _ => ¬ a.Holds id p
  | .restart found _ _ => ∀ id r, (persisted a.world.disk).lookup id = some r →
      restore D a.world.disk id r ≠ none →
      r.grantedPermissions ⊆ (AstraCore.grantsOf (found.apply a.core.file).read).list id
  | _ => True

/-! ### What an operation of the manager leaves -/

variable {a : App} {m : Manager}

/-- A manager is left, in a process or not, whose save ends as given; what it holds meets `Q`. -/
def Leads (a : App) (w : World) (save : SaveResult) (Q : JString → JString → Prop) : Prop :=
  ∃ m now, (w.process = some m ∨ w.process = none) ∧
    w.disk.registry = saved m now a.world.disk.registry save ∧ ∀ id p, m.Holds id p → Q id p

theorem leads_transition (hm : a.world.process = some m) (id : JString) (target : ModuleState)
    (save : SaveResult) (crash : Bool) (now : ℤ) :
    ∃ save', Leads a (transition a.world m id target save crash now) save' m.Holds := by
  unfold transition
  cases hl : m.modules.lookup id with
  | none => exact ⟨.failed, m, now, .inl hm, rfl, fun _ _ h => h⟩
  | some current =>
    simp only
    split_ifs
    · exact ⟨.failed, m, now, .inl hm, rfl, fun _ _ h => h⟩
    · refine ⟨save, _, now, alive_cases crash _, rfl, fun id' p hp => ?_⟩
      -- the changed module holds the same permissions
      rcases holds_insert hp with ⟨rfl, hsame⟩ | hold
      · exact ⟨current, hl, hsame⟩
      · exact hold

theorem leads_uninstall (hm : a.world.process = some m) (id : JString) (u : UninstallEnv) :
    ∃ save', Leads a (uninstall D a.world m id u) save' (fun id' p => m.Holds id' p ∧
        (id ∈ m.modules → u.crash = none → id' ≠ id)) ∧
      (id ∈ m.modules → u.crash = none → save' = u.save) := by
  have hcases := uninstall_cases (D := D) a.world m id u
  generalize uninstall D a.world m id u = w at hcases
  cases hcases with
  | absent hl =>
    have hno : id ∉ m.modules := AList.lookup_eq_none.1 hl
    exact ⟨.failed, ⟨m, 0, .inl hm, rfl, fun _ _ h => ⟨h, fun hmem => absurd hmem hno⟩⟩,
      fun hmem => absurd hmem hno⟩
  | died dirs hc =>
    exact ⟨.failed, ⟨m, 0, .inr rfl, rfl, fun _ _ h => ⟨h, fun _ hnone => absurd hnone hc⟩⟩,
      fun _ hnone => absurd hnone hc⟩
  | gone dirs =>
    exact ⟨u.save, ⟨_, u.now, alive_cases _ _, rfl, fun _ _ h =>
      ⟨(holds_erase h).1, fun _ _ => (holds_erase h).2⟩⟩, fun _ _ => rfl⟩

/-- What an `install` adds is the permissions of the module it registers. -/
theorem leads_install (hm : a.world.process = some m) (r : InstallRequest) (now : ℤ) :
    ∃ save', Leads a (install a.world m now (a.outcome D m r)) save' fun id p => m.Holds id p ∨
      ∃ tree module record report save crash,
        a.outcome D m r = .registered tree module record report save crash ∧ id = module.id ∧
          p ∈ module.grantedPermissions := by
  cases ho : a.outcome D m r with
  | refused e => exact ⟨.failed, m, now, .inl hm, rfl, fun _ _ => .inl⟩
  | cleared id' rest crash e =>
    exact ⟨.failed, m, now, alive_cases crash m, rfl, fun _ _ => .inl⟩
  | left id' tree crash e =>
    exact ⟨.failed, m, now, alive_cases crash m, rfl, fun _ _ => .inl⟩
  | registered tree module record report save crash =>
    refine ⟨save, _, now, alive_cases crash _, rfl, fun id p hp => ?_⟩
    rcases holds_insert hp with ⟨rfl, hnew⟩ | hold
    · exact .inr ⟨tree, module, record, report, save, crash, rfl, rfl, hnew⟩
    · exact .inl hold

theorem Leads.of_holds {w : World} {save : SaveResult} {Q : JString → JString → Prop}
    (h : Leads a w save Q) {a' : App} (hw : a'.world = w) {id p : JString}
    (hp : a'.Holds id p) : Q id p := by
  obtain ⟨m', now, hproc, -, hQ⟩ := h
  obtain ⟨m'', hm'', hp⟩ := hp
  rw [hw] at hm''
  rcases hproc with hproc | hproc
  · obtain rfl := Option.some.inj (hproc.symm.trans hm'')
    exact hQ id p hp
  · rw [hproc] at hm''
    cases hm''

/-! ### One step -/

theorem reaches_settle (h : ∀ m, a.world.process = some m → a.Reaches) : a.settle.Reaches := by
  cases hp : a.world.process with
  | some m =>
    rw [settle_of_some hp]
    exact h m hp
  | none =>
    intro m hm
    rw [world_settle, hp] at hm
    cases hm

/-- Nothing more is held, and the engine keeps what it holds. -/
theorem reaches_of_leads (h : a.Reaches) (hm : a.world.process = some m) {a' : App}
    {save : SaveResult} (hl : Leads a a'.world save m.Holds)
    (hkeep : ∀ id p, p ∈ a.core.engine.list id → p ∈ a'.core.engine.list id) : a'.Reaches := by
  refine reaches_iff.2 fun id p hp => hkeep id p ?_
  exact reaches_iff.1 h id p ⟨m, hm, hl.of_holds rfl hp⟩

theorem reaches_transition (h : a.Reaches) (hm : a.world.process = some m) (id : JString)
    (target : ModuleState) (save : SaveResult) (crash : Bool) (now : ℤ)
    (loaded : Map JString LoadedHandle) :
    (settle { a with
      world := transition a.world m id target save crash now
      loaded := loaded }).Reaches := by
  obtain ⟨save', hl⟩ := leads_transition hm id target save crash now
  exact reaches_settle fun _ _ => reaches_of_leads h hm hl fun _ _ hp => hp

theorem reaches_uninstall (h : a.Reaches) (hm : a.world.process = some m) (id : JString)
    (u : UninstallEnv) (configSave : SaveResult) :
    (a.afterUninstall D m id u configSave).Reaches := by
  obtain ⟨save', hl, -⟩ := leads_uninstall (D := D) hm id u
  refine reaches_settle fun _ _ => reaches_iff.2 fun id' p hp => ?_
  obtain ⟨hold, hne⟩ := hl.of_holds rfl hp
  have hmem : p ∈ a.core.engine.list id' := reaches_iff.1 h id' p ⟨m, hm, hold⟩
  dsimp only
  split_ifs with hdone
  · show p ∈ (a.core.engine.revokeAll id).list id'
    rw [PermissionEngine.list_revokeAll, if_neg (hne hdone.1 hdone.2.1)]
    exact hmem
  · exact hmem

/-- `install` takes nothing from the engine. -/
theorem mem_list_coreAfterInstall (r : InstallRequest) (asked : ℕ) (halfway : Bool)
    {id p : JString} (hp : p ∈ a.core.engine.list id) :
    p ∈ (a.coreAfterInstall D m r asked halfway).engine.list id := by
  unfold coreAfterInstall
  split
  · exact mem_list_askAll.2 (.inl hp)
  · split
    · split
      · exact mem_list_askSome.2 (.inl hp)
      · exact hp
    · exact hp

theorem reaches_install (h : a.Reaches) (hm : a.world.process = some m) (r : InstallRequest)
    (asked : ℕ) (halfway : Bool) : (a.afterInstall D m r asked halfway).Reaches := by
  obtain ⟨save', hl⟩ := leads_install (D := D) hm r r.now
  refine reaches_settle fun _ _ => reaches_iff.2 fun id p hp => ?_
  rcases hl.of_holds rfl hp with
    hold | ⟨tree, module, record, report, save, crash, ho, rfl, hnew⟩
  · exact mem_list_coreAfterInstall r asked halfway (reaches_iff.1 h id p ⟨m, hm, hold⟩)
  · show p ∈ (a.coreAfterInstall D m r asked halfway).engine.list module.id
    rw [(registered_spec ho).granted, List.mem_toFinset, List.mem_filter] at hnew
    unfold coreAfterInstall
    rw [ho]
    exact mem_list_askAll.2 (.inr ⟨rfl, hnew⟩)

/-- A new process takes its grants from the file, and its modules from the registry. -/
theorem reaches_restart_iff (found : Found) (lastModified : JString → ℤ) (configSave : SaveResult) :
    (a.afterRestart D found lastModified configSave).Reaches ↔
      RevokeOk D a (.restart found lastModified configSave) := by
  rw [reaches_iff]
  constructor
  · intro h id r hr hres p hp
    obtain ⟨module, hmod⟩ := Option.ne_none_iff_exists'.1 hres
    refine h id p ⟨_, rfl, module, restored_of_record hr hmod, ?_⟩
    rw [(restore_spec hmod).2.2.2]
    exact hp
  · rintro hok id p ⟨m', hm', module, hl, hp⟩
    obtain rfl := Option.some.inj hm'
    obtain ⟨-, ⟨r, hr, hres⟩ | ⟨-, hnone⟩⟩ := restored_cases hl
    · rw [(restore_spec hres).2.2.2] at hp
      exact hok id r hr (Option.ne_none_iff_exists'.2 ⟨module, hres⟩) hp
    · rw [hnone] at hp
      simp at hp

/-- Only the engine changes. -/
theorem reaches_engine_iff (h : a.Reaches) {core : AstraCore} :
    App.Reaches { a with core := core } ↔ ∀ id p, a.Holds id p → p ∈ a.core.engine.list id →
      p ∈ core.engine.list id := by
  rw [reaches_iff]
  exact ⟨fun hr id p hp _ => hr id p hp, fun hr id p hp => hr id p hp (reaches_iff.1 h id p hp)⟩

/-- A revoked pair that no module holds. -/
theorem reaches_revoke_iff (h : a.Reaches) (id p : JString) {core : AstraCore}
    (hc : core.engine = a.core.engine.revoke id p) :
    App.Reaches { a with core := core } ↔ ¬ a.Holds id p := by
  rw [reaches_engine_iff h, hc]
  constructor
  · intro hr hp
    have hmem := hr id p hp (reaches_iff.1 h id p hp)
    exact (PermissionEngine.mem_list_revoke.1 hmem).1 ⟨rfl, rfl⟩
  · intro hno id' p' hp hmem
    refine PermissionEngine.mem_list_revoke.2 ⟨?_, hmem⟩
    rintro ⟨rfl, rfl⟩
    exact hno hp

theorem reaches_revokeAll_iff (h : a.Reaches) (id : JString) {core : AstraCore}
    (hc : core.engine = a.core.engine.revokeAll id) :
    App.Reaches { a with core := core } ↔ ∀ p, ¬ a.Holds id p := by
  rw [reaches_engine_iff h, hc]
  constructor
  · intro hr p hp
    have hmem := hr id p hp (reaches_iff.1 h id p hp)
    rw [PermissionEngine.list_revokeAll, if_pos rfl] at hmem
    simp at hmem
  · intro hno id' p hp hmem
    rw [PermissionEngine.list_revokeAll, if_neg]
    · exact hmem
    · rintro rfl
      exact hno p hp

theorem reaches_grant (h : a.Reaches) (id p : JString) {core : AstraCore}
    (hc : core.engine = a.core.engine.grant id p) : App.Reaches { a with core := core } := by
  refine (reaches_engine_iff h).2 fun id' p' _ hmem => ?_
  rw [hc]
  exact PermissionEngine.mem_list_grant.2 (.inr hmem)

/-- **After a step revocation reaches the sandbox exactly under the condition.** -/
theorem reaches_step_iff (D : Device Key) (a : App) (op : AppOp) (h : a.Reaches) :
    (a.step D op).Reaches ↔ RevokeOk D a op := by
  unfold step
  cases hm : a.world.process with
  | none =>
    have hno : ∀ id p, ¬ a.Holds id p := by
      rintro id p ⟨m, hm', -⟩
      rw [hm] at hm'
      cases hm'
    cases op with
    | restart found lastModified configSave =>
      exact reaches_restart_iff found lastModified configSave
    | revoke id p => exact iff_of_true h (hno id p)
    | revokeAll id => exact iff_of_true h (hno id)
    | updatePermission id p granted configSave =>
      cases granted with
      | true => exact iff_of_true h trivial
      | false => exact iff_of_true h (hno id p)
    | _ => exact iff_of_true h trivial
  | some m =>
    cases op with
    | install r asked halfway => exact iff_of_true (reaches_install h hm r asked halfway) trivial
    | uninstall id u configSave =>
      exact iff_of_true (reaches_uninstall h hm id u configSave) trivial
    | enable id save crash now =>
      exact iff_of_true (reaches_transition h hm id .enabled save crash now a.loaded) trivial
    | disable id save crash now =>
      exact iff_of_true (reaches_transition h hm id .disabled save crash now a.loaded) trivial
    | start id outside maps save crash now =>
      refine iff_of_true ?_ trivial
      show (a.afterStart D m id outside maps save crash now).Reaches
      unfold afterStart
      split
      · exact h
      · split
        · exact h
        · exact reaches_transition h hm id .running save crash now _
    | stop id save crash now =>
      exact iff_of_true (reaches_transition h hm id .enabled save crash now _) trivial
    | restart found lastModified configSave =>
      exact reaches_restart_iff found lastModified configSave
    | updatePermission id p granted configSave =>
      cases granted with
      | true => exact iff_of_true (reaches_grant h id p rfl) trivial
      | false => exact reaches_revoke_iff h id p rfl
    | requestAndPersistPermission id p configSave =>
      refine iff_of_true ((reaches_engine_iff h).2 fun id' p' _ hmem => ?_) trivial
      exact mem_list_request.2 (.inl hmem)
    | grant id p => exact iff_of_true (reaches_grant h id p rfl) trivial
    | revoke id p => exact reaches_revoke_iff h id p rfl
    | revokeAll id => exact reaches_revokeAll_iff h id rfl

theorem reaches_initial (configSave : SaveResult) : (initial configSave).Reaches := by
  intro m hm id module hl
  obtain rfl := Option.some.inj hm
  cases hl

/-- **Revocation reaches the sandbox exactly under the condition.**  In every state of a run from
the first start what a module holds is within what the engine holds for it, and so is its profile,
if and only if every step of the run meets its condition. -/
theorem revocation_reaches_iff (D : Device Key) (configSave : SaveResult) (ops : List AppOp) :
    (∀ pre post, ops = pre ++ post →
      (Runs.run (step D) (initial configSave) pre).Reaches) ↔
      Runs.Along (step D) (RevokeOk D) (initial configSave) ops :=
  Runs.prefixes_iff_along (reaches_step_iff D) (reaches_initial configSave)

/-! ### The sample package, which asks for the network -/

/-- `com.test.mod`. -/
def testId : JString := ofString "com.test.mod"

/-- `network`. -/
def network : JString := ofString "network"

/-- After the operations: whether the sample module holds the network permission, whether its
profile opens the network, and whether the engine grants it. -/
def networkOf (ops : List AppOp) : Option (Bool × Bool × Bool) :=
  let a := Runs.run (step sampleDevice) (initial .ok) ops
  (a.world.process.bind fun m => m.modules.lookup testId).map fun module =>
    (decide (network ∈ module.grantedPermissions), (profileFor module).network,
      a.core.engine.canExecute testId network)

/-- The shell loses `su`, and the package is installed. -/
def installedOps : List AppOp :=
  [.updatePermission History.shell History.su false .ok, .install (sampleRequest none) 0 false]

theorem not_holds_initial (configSave : SaveResult) (id p : JString) :
    ¬ (initial configSave).Holds id p := by
  rintro ⟨m, hm, module, hl, -⟩
  obtain rfl := Option.some.inj hm
  cases hl

theorem revocation_reaches_installed :
    networkOf installedOps = some (true, true, true) ∧
      (Runs.run (step sampleDevice) (initial .ok) installedOps).Reaches := by
  have hok : Runs.Along (step sampleDevice) (RevokeOk sampleDevice) (initial .ok) installedOps :=
    ⟨not_holds_initial .ok _ _, trivial, trivial⟩
  refine ⟨by decide +kernel, ?_⟩
  exact (revocation_reaches_iff sampleDevice .ok installedOps).2 hok installedOps []
    (List.append_nil _).symm

/-- The package is installed, and the user takes the network from it. -/
def revokedOps : List AppOp :=
  [.install (sampleRequest none) 0 false, .updatePermission testId network false .ok]

/-- Its next profile still opens the network. -/
theorem network_not_revoked :
    networkOf revokedOps = some (true, true, false) ∧
      ¬ (Runs.run (step sampleDevice) (initial .ok) revokedOps).Reaches := by
  have hnet : networkOf revokedOps = some (true, true, false) := by decide +kernel
  refine ⟨hnet, fun hreach => ?_⟩
  unfold networkOf at hnet
  obtain ⟨module, hmod, heq⟩ := Option.map_eq_some_iff.1 hnet
  obtain ⟨m, hm, hl⟩ := Option.bind_eq_some_iff.1 hmod
  obtain ⟨hmem, -, hengine⟩ := Prod.mk.inj heq |>.imp_right Prod.mk.inj
  exact of_decide_eq_false hengine ((hreach m hm testId module hl).1 (of_decide_eq_true hmem))

end App

end AstraVeil.Modules
