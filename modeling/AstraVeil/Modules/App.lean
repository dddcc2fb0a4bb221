import AstraVeil.Modules.TrustAcrossRestarts

/-!
# Modules, permissions and native runtimes together

The manager of `Modules.Manager` beside the parts of the app it works with: `AstraCore` with the
grants and their file, `modules/ModuleSandbox.kt`, which derives a profile from a module's
permissions, and `modules/ModuleRuntime.kt`, which maps native libraries into the process.

* `profile`: the profile of a set of permissions;
* `load`: the checks of `ModuleRuntime.load`, the library itself being the environment's;
* `App.step`: one operation.  A process that dies takes the grants in memory and the libraries
  with it; `restart` runs `AstraCore.initialize` and reads the registry;
* `registered_spec`: the module that `install` registers;
* `restored_cases`, `restored_of_record`: the modules a restart gives back.
-/

namespace AstraVeil.Modules

open Utf16 KotlinString Finmaps AstraVeil.Core

/-! ### The sandbox profile -/

/-- `Permission`. -/
inductive Permission
  | none
  | shell
  | root
  | kernel
  deriving DecidableEq

/-- `level`. -/
def Permission.level : Permission → ℕ
  | .none => 0
  | .shell => 10
  | .root => 100
  | .kernel => 1000

/-- `name`. -/
def Permission.name : Permission → JString
  | .none => ofString "NONE"
  | .shell => ofString "SHELL"
  | .root => ofString "ROOT"
  | .kernel => ofString "KERNEL"

/-- A code unit up to case, for the letters of the names: the long s and the Kelvin sign count. -/
def foldCase (u : UInt16) : UInt16 :=
  if u = 0x17F then 0x73 else if u = 0x212A then 0x6B else lower u

/-- `fromName`. -/
def Permission.fromName (name : JString) : Option Permission :=
  [.none, .shell, .root, .kernel].find? fun p => p.name.map foldCase == name.map foldCase

/-- `SandboxProfile`. -/
structure SandboxProfile where
  moduleId : JString
  allowedPaths : List JString
  network : Bool
  maxPermission : Permission

/-- Some permission of the set has this tier. -/
def HasTier (granted : Finset JString) (p : Permission) : Prop :=
  ∃ name ∈ granted, Permission.fromName name = some p

instance (granted : Finset JString) (p : Permission) : Decidable (HasTier granted p) :=
  inferInstanceAs (Decidable (∃ name ∈ granted, _))

/-- The profile of a set of permissions. -/
def profile (moduleId installPath : JString) (granted : Finset JString) : SandboxProfile where
  moduleId := moduleId
  allowedPaths := (installPath ::
    if ofString "filesystem" ∈ granted then [ofString "/data/data", ofString "/sdcard"]
    else []).eraseDups
  network := decide (ofString "network" ∈ granted)
  maxPermission := ([.kernel, .root, .shell].find? fun p => decide (HasTier granted p)).getD .none

/-- `profileFor`. -/
def profileFor (module : AstraModule) : SandboxProfile :=
  profile module.id module.installPath module.grantedPermissions

/-! ### The native runtime -/

/-- `Decision`. -/
inductive Decision
  | allow
  | requireIsolation
  deriving DecidableEq

/-- `BUILT_IN_MODULES`. -/
def builtInModules : List JString := [ofString "com.astraveil.builtin.diags"]

/-- `NativeModuleLoadPolicy.decide`. -/
def NativeModuleLoadPolicy.decide (moduleId : JString) (hasNativeLib : Bool)
    (trustLevel : TrustLevel) : Decision :=
  if hasNativeLib = false then .allow
  else if builtInModules.contains moduleId then .allow
  else if trustLevel = .official then .allow
  else .requireIsolation

/-- `LoadedHandle`. -/
structure LoadedHandle where
  path : JString
  entrySymbol : JString

variable {Key : Type} (D : Device Key)

/-- `soFile.exists()`; with a `..` the path may lead outside the directory. -/
def soExists (disk : Disk) (outside : JString → Bool) (module : AstraModule) : Bool :=
  let path := resolve module.manifest.runtime
  if path.contains [0x2E, 0x2E] then outside module.manifest.runtime
  else
    match disk.dirAt D module.installPath with
    | none => false
    | some tree =>
        path.isEmpty ||
          (if endsInDot module.manifest.runtime then decide (tree.lookup path = some .dir)
          else (tree.lookup path).isSome)

/-- The checks before `System.load`. -/
def mayLoad (disk : Disk) (outside : JString → Bool) (module : AstraModule) : Bool :=
  !(isBlank module.manifest.runtime) && soExists D disk outside module &&
    decide (NativeModuleLoadPolicy.decide module.id (soExists D disk outside module)
      module.trustLevelName = .allow)

/-- `load`; `maps` tells whether `System.load` succeeds. -/
def load (loaded : Map JString LoadedHandle) (disk : Disk) (outside : JString → Bool) (maps : Bool)
    (module : AstraModule) : Bool × Map JString LoadedHandle :=
  if module.id ∈ loaded then (true, loaded)
  else if mayLoad D disk outside module && maps then
    (true, loaded.insert module.id
      { path := module.installPath ++ 0x2F :: module.manifest.runtime
        entrySymbol := if isBlank module.manifest.entry then ofString "avm_on_load"
          else module.manifest.entry })
  else (false, loaded)

/-! ### The app -/

/-- The manager and its disk, the core with its file, and `ModuleRuntime.loaded`. -/
structure App where
  world : World
  core : AstraCore
  loaded : Map JString LoadedHandle

/-- The operations. -/
inductive AppOp
  /-- `asked` permissions were asked for when a fault struck there; `halfway` tells whether one
  more was granted and not yet saved. -/
  | install (r : InstallRequest) (asked : ℕ) (halfway : Bool)
  /-- `configSave` tells how the configuration is saved in the end. -/
  | uninstall (id : JString) (u : UninstallEnv) (configSave : SaveResult)
  | enable (id : JString) (save : SaveResult) (crash : Bool) (now : ℤ)
  | disable (id : JString) (save : SaveResult) (crash : Bool) (now : ℤ)
  | start (id : JString) (outside : JString → Bool) (maps : Bool) (save : SaveResult)
      (crash : Bool) (now : ℤ)
  | stop (id : JString) (save : SaveResult) (crash : Bool) (now : ℤ)
  | restart (found : Found) (lastModified : JString → ℤ) (configSave : SaveResult)
  | updatePermission (id permission : JString) (granted : Bool) (configSave : SaveResult)
  | requestAndPersistPermission (id permission : JString) (configSave : SaveResult)
  | grant (id permission : JString)
  | revoke (id permission : JString)
  | revokeAll (id : JString)

namespace App

/-- The first start. -/
def initial (configSave : SaveResult) : App :=
  ⟨World.initial, AstraCore.initializeCore ⟨PermissionEngine.empty, .absent⟩ configSave, ∅⟩

/-- A process that died has no memory. -/
def settle (a : App) : App :=
  match a.world.process with
  | none => { a with core := { a.core with engine := PermissionEngine.empty }, loaded := ∅ }
  | some _ => a

/-- The loop of `install` over the declared permissions. -/
def askAll (core : AstraCore) (id : JString) : List JString → (ℕ → SaveResult) → AstraCore
  | [], _ => core
  | p :: permissions, saves =>
      askAll (core.requestAndPersistPermission id p (saves 0)).2 id permissions fun n =>
        saves (n + 1)

/-- The loop, if a fault strikes in it. -/
def askSome (core : AstraCore) (id : JString) (permissions : List JString) (saves : ℕ → SaveResult)
    (asked : ℕ) (halfway : Bool) : AstraCore :=
  let core := askAll core id (permissions.take asked) saves
  match halfway, permissions.drop asked with
  | true, p :: _ => { core with engine := (core.engine.request id p).2 }
  | _, _ => core

/-- The request, with the answers of the permission engine. -/
def answered (a : App) (r : InstallRequest) : InstallRequest :=
  { r with allow := a.core.engine.allows }

/-- How `install` ends. -/
def outcome (a : App) (m : Manager) (r : InstallRequest) : Outcome :=
  installOutcome D (a.answered r) (fun id => decide (id ∈ m.modules)) fun id =>
    a.world.disk.dirs.lookup id

/-- The core after `install`. -/
def coreAfterInstall (a : App) (m : Manager) (r : InstallRequest) (asked : ℕ) (halfway : Bool) :
    AstraCore :=
  match a.outcome D m r with
  | .registered _ module _ _ _ _ =>
      askAll a.core module.id module.manifest.permissions r.configSaves
  | _ =>
      match r.fault with
      | some (.permissions _) =>
          -- what the fault interrupted is what would have happened without it
          match a.outcome D m { r with fault := none } with
          | .registered _ module _ _ _ _ =>
              askSome a.core module.id module.manifest.permissions r.configSaves asked halfway
          | _ => a.core
      | _ => a.core

/-- `install`. -/
def afterInstall (a : App) (m : Manager) (r : InstallRequest) (asked : ℕ) (halfway : Bool) : App :=
  settle { a with
    world := install a.world m r.now (a.outcome D m r)
    core := a.coreAfterInstall D m r asked halfway }

/-- `uninstall`; an exception out of `save` keeps the grants. -/
def afterUninstall (a : App) (m : Manager) (id : JString) (u : UninstallEnv)
    (configSave : SaveResult) : App :=
  settle { a with
    world := uninstall D a.world m id u
    core := if id ∈ m.modules ∧ u.crash = none ∧ u.save = .ok then
        AstraCore.persist { a.core with engine := a.core.engine.revokeAll id } configSave
      else a.core }

/-- `start`. -/
def afterStart (a : App) (m : Manager) (id : JString) (outside : JString → Bool) (maps : Bool)
    (save : SaveResult) (crash : Bool) (now : ℤ) : App :=
  match m.modules.lookup id with
  | none => a
  | some module =>
      match load D a.loaded a.world.disk outside maps module with
      | (false, _) => a
      | (true, loaded) =>
          settle { a with
            world := transition a.world m id .running save crash now
            loaded := loaded }

/-- `stop`. -/
def afterStop (a : App) (m : Manager) (id : JString) (save : SaveResult) (crash : Bool) (now : ℤ) :
    App :=
  settle { a with
    world := transition a.world m id .enabled save crash now
    loaded := a.loaded.erase id }

/-- `enable` and `disable`. -/
def afterTransition (a : App) (m : Manager) (id : JString) (target : ModuleState)
    (save : SaveResult) (crash : Bool) (now : ℤ) : App :=
  settle { a with world := transition a.world m id target save crash now }

/-- A new process. -/
def afterRestart (a : App) (found : Found) (lastModified : JString → ℤ)
    (configSave : SaveResult) : App where
  world := restart D a.world lastModified
  core := AstraCore.initializeCore ⟨PermissionEngine.empty, found.apply a.core.file⟩ configSave
  loaded := ∅

/-- An operation of a running process. -/
def act (a : App) (m : Manager) : AppOp → App
  | .install r asked halfway => a.afterInstall D m r asked halfway
  | .uninstall id u configSave => a.afterUninstall D m id u configSave
  | .enable id save crash now => a.afterTransition m id .enabled save crash now
  | .disable id save crash now => a.afterTransition m id .disabled save crash now
  | .start id outside maps save crash now => a.afterStart D m id outside maps save crash now
  | .stop id save crash now => a.afterStop m id save crash now
  | .restart found lastModified configSave => a.afterRestart D found lastModified configSave
  | .updatePermission id p granted configSave =>
      { a with core := a.core.updatePermission id p granted configSave }
  | .requestAndPersistPermission id p configSave =>
      { a with core := (a.core.requestAndPersistPermission id p configSave).2 }
  | .grant id p => { a with core := { a.core with engine := a.core.engine.grant id p } }
  | .revoke id p => { a with core := { a.core with engine := a.core.engine.revoke id p } }
  | .revokeAll id => { a with core := { a.core with engine := a.core.engine.revokeAll id } }

/-- One operation; a dead process can only be started again. -/
def step (a : App) (op : AppOp) : App :=
  match a.world.process, op with
  | some m, op => a.act D m op
  | none, .restart found lastModified configSave => a.afterRestart D found lastModified configSave
  | none, _ => a

theorem settle_of_none {a : App} (h : a.world.process = none) : a.settle.loaded = ∅ := by
  unfold settle
  rw [h]

theorem settle_of_some {a : App} {m : Manager} (h : a.world.process = some m) : a.settle = a := by
  unfold settle
  rw [h]

theorem world_settle (a : App) : a.settle.world = a.world := by
  unfold settle
  cases a.world.process <;> rfl

end App

/-! ### What an uninstall leaves -/

variable {D}

/-- Everything, if there is no such module; what there was when the process died; or the rest. -/
inductive Uninstalled (w : World) (m : Manager) (id : JString) (u : UninstallEnv) : World → Prop
  | absent : m.modules.lookup id = none → Uninstalled w m id u w
  | died (dirs : Map JString FileTree) : u.crash ≠ none →
      Uninstalled w m id u { w with disk := { w.disk with dirs := dirs }, process := none }
  | gone (dirs : Map JString FileTree) : (u.crash ≠ none → u.crash = some .inSave) →
      Uninstalled w m id u
        { disk := ⟨dirs, saved ⟨m.modules.erase id, m.persistentMeta.erase id⟩ u.now
            w.disk.registry u.save⟩
          process := alive (u.crash = some .inSave) ⟨m.modules.erase id, m.persistentMeta.erase id⟩
          ledger := w.ledger.erase id }

theorem uninstall_cases (w : World) (m : Manager) (id : JString) (u : UninstallEnv) :
    Uninstalled w m id u (uninstall D w m id u) := by
  unfold uninstall
  cases hl : m.modules.lookup id with
  | none => exact .absent hl
  | some module =>
    simp only
    split_ifs with hbefore hafter
    · exact .died w.disk.dirs (by simp [hbefore])
    · exact .died _ (by simp [hafter])
    · refine .gone _ fun hc => ?_
      obtain ⟨point, hpoint⟩ := Option.ne_none_iff_exists'.1 hc
      cases point with
      | beforeDelete => exact absurd hpoint hbefore
      | afterDelete => exact absurd hpoint hafter
      | inSave => exact hpoint

/-! ### What an install registers -/

/-- The module that `install` registers. -/
structure Registered (r : InstallRequest) (installed : JString → Bool) (module : AstraModule) :
    Prop where
  fresh : installed module.id = false
  safeId : isModuleId module.id = true
  state : module.state = .installed
  granted : module.grantedPermissions = (module.manifest.permissions.filter r.allow).toFinset
  supported : ∀ p ∈ module.manifest.permissions, supportedPermissions.contains p = true

theorem supported_of_validateManifest {raw : JString} {manifest : ModuleManifest}
    (h : validateManifest D raw = .ok manifest) {p : JString} (hp : p ∈ manifest.permissions) :
    supportedPermissions.contains p = true := by
  unfold validateManifest at h
  cases hd : D.decodeManifest raw with
  | error message =>
    rw [hd] at h
    cases h
  | ok manifest' =>
    rw [hd] at h
    simp only at h
    split_ifs at h with _ _ _ _ _ hunknown
    obtain rfl := Except.ok.inj h
    by_contra hc
    refine hunknown fun hnil => ?_
    have hmem : p ∈ manifest'.permissions.filter (!supportedPermissions.contains ·) :=
      List.mem_filter.2 ⟨hp, by simpa using hc⟩
    rw [hnil] at hmem
    cases hmem

theorem registered_of_register {r : InstallRequest} {manifest : ModuleManifest}
    {report report' : TrustReport} {level : TrustLevel} {tree tree' : FileTree}
    {module : AstraModule} {record : ModuleRecord} {save : SaveResult} {crash : Bool}
    (h : register D r manifest report level tree =
      .registered tree' module record report' save crash) :
    module.manifest = manifest ∧ module.id = manifest.name ∧ module.state = .installed ∧
      module.grantedPermissions = (manifest.permissions.filter r.allow).toFinset := by
  unfold register at h
  simp only at h
  split at h
  · cases h
  · split at h
    all_goals
      cases h
      exact ⟨rfl, rfl, rfl, rfl⟩

theorem registered_spec {r : InstallRequest} {installed : JString → Bool}
    {old : JString → Option FileTree} {tree : FileTree} {module : AstraModule}
    {record : ModuleRecord} {report : TrustReport} {save : SaveResult} {crash : Bool}
    (h : installOutcome D r installed old = .registered tree module record report save crash) :
    Registered r installed module := by
  rcases installOutcome_cases D r installed old with ⟨e, he⟩ | ⟨zip, manifest, level, hadm, he⟩
  · rw [he] at h
    cases h
  rw [he] at h
  have hfresh : installed manifest.name = false := by
    cases hi : installed manifest.name with
    | false => rfl
    | true =>
      rw [hi] at h
      cases h
  rw [hfresh] at h
  have hprep : Prepares r := by
    intro crash' hf
    unfold installLocked at h
    rw [hf] at h
    cases h
  rw [installLocked_eq _ zip manifest _ level hprep] at h
  split at h
  · cases h
  · cases h
  · cases h
  · split at h
    · cases h
    · split at h
      · cases h
      · obtain ⟨hman, hid, hstate, hgranted⟩ := registered_of_register h
        obtain ⟨entry, -, hvalid⟩ := hadm.decoded
        refine ⟨hid ▸ hfresh, hid ▸ hadm.safeId, hstate, by rw [hman]; exact hgranted, ?_⟩
        rw [hman]
        exact fun p hp => supported_of_validateManifest hvalid hp

/-! ### The permissions an install asks for -/

namespace App

theorem allows_grant (e : PermissionEngine) (id p q : JString) :
    (e.grant id p).allows q = e.allows q := by
  have happ : (e.grant id p).dangerousApproval = e.dangerousApproval := by
    unfold PermissionEngine.grant
    simp only
    split_ifs <;> rfl
  unfold PermissionEngine.allows
  rw [happ]

theorem mem_list_request {core : AstraCore} {id p id' p' : JString} {save : SaveResult} :
    p' ∈ (core.requestAndPersistPermission id p save).2.engine.list id' ↔
      p' ∈ core.engine.list id' ∨ (id' = id ∧ p' = p ∧ core.engine.allows p = true) := by
  rw [AstraCore.requestAndPersistPermission_eq]
  split_ifs with h
  · show p' ∈ (core.engine.grant id p).list id' ↔ _
    rw [PermissionEngine.mem_list_grant]
    simp [h, or_comm]
  · simp [h]

theorem allows_requestAndPersist {core : AstraCore} {id p q : JString} {save : SaveResult} :
    (core.requestAndPersistPermission id p save).2.engine.allows q = core.engine.allows q := by
  rw [AstraCore.requestAndPersistPermission_eq]
  split_ifs
  · exact allows_grant core.engine id p q
  · rfl

theorem mem_list_askAll {core : AstraCore} {id : JString} {ps : List JString}
    {saves : ℕ → SaveResult} {id' p : JString} :
    p ∈ (askAll core id ps saves).engine.list id' ↔
      p ∈ core.engine.list id' ∨ (id' = id ∧ p ∈ ps ∧ core.engine.allows p = true) := by
  induction ps generalizing core saves with
  | nil => simp [askAll]
  | cons q ps ih =>
    rw [askAll, ih, mem_list_request, allows_requestAndPersist, List.mem_cons]
    constructor
    · rintro ((h | ⟨rfl, rfl, h⟩) | ⟨rfl, h, h'⟩)
      · exact .inl h
      · exact .inr ⟨rfl, .inl rfl, h⟩
      · exact .inr ⟨rfl, .inr h, h'⟩
    · rintro (h | ⟨rfl, rfl | h, h'⟩)
      · exact .inl (.inl h)
      · exact .inl (.inr ⟨rfl, rfl, h'⟩)
      · exact .inr ⟨rfl, h, h'⟩

theorem allows_askAll {core : AstraCore} {id : JString} {ps : List JString}
    {saves : ℕ → SaveResult} {q : JString} :
    (askAll core id ps saves).engine.allows q = core.engine.allows q := by
  induction ps generalizing core saves with
  | nil => rfl
  | cons p ps ih => rw [askAll, ih, allows_requestAndPersist]

/-- The number of declared permissions that the engine has seen when a fault strikes. -/
def seen (asked : ℕ) (halfway : Bool) : ℕ := if halfway then asked + 1 else asked

/-- A fault among the permissions leaves those granted that the engine has seen. -/
theorem mem_list_askSome {core : AstraCore} {id : JString} {ps : List JString}
    {saves : ℕ → SaveResult} {asked : ℕ} {halfway : Bool} {id' p : JString} :
    p ∈ (askSome core id ps saves asked halfway).engine.list id' ↔
      p ∈ core.engine.list id' ∨
        (id' = id ∧ p ∈ ps.take (seen asked halfway) ∧ core.engine.allows p = true) := by
  unfold askSome seen
  cases halfway with
  | false => exact mem_list_askAll
  | true =>
    simp only [if_true]
    cases hdrop : ps.drop asked with
    | nil =>
      have htake : ps.take (asked + 1) = ps.take asked := by
        have hlen : ps.length ≤ asked := List.drop_eq_nil_iff.1 hdrop
        rw [List.take_of_length_le hlen, List.take_of_length_le (by omega)]
      rw [htake]
      exact mem_list_askAll
    | cons q rest =>
      have htake : ps.take (asked + 1) = ps.take asked ++ [q] := by
        rw [List.take_add, hdrop]
        rfl
      rw [htake, List.mem_append, List.mem_singleton]
      show p ∈ ((askAll core id (ps.take asked) saves).engine.request id q).2.list id' ↔ _
      unfold PermissionEngine.request
      rw [allows_askAll]
      split_ifs with hq
      · rw [PermissionEngine.mem_list_grant, mem_list_askAll]
        constructor
        · rintro (⟨rfl, rfl⟩ | h | ⟨rfl, h, h'⟩)
          · exact .inr ⟨rfl, .inr rfl, hq⟩
          · exact .inl h
          · exact .inr ⟨rfl, .inl h, h'⟩
        · rintro (h | ⟨rfl, h | rfl, h'⟩)
          · exact .inr (.inl h)
          · exact .inr (.inr ⟨rfl, h, h'⟩)
          · exact .inl ⟨rfl, rfl⟩
      · rw [mem_list_askAll]
        constructor
        · rintro (h | ⟨rfl, h, h'⟩)
          · exact .inl h
          · exact .inr ⟨rfl, .inl h, h'⟩
        · rintro (h | ⟨rfl, h | rfl, h'⟩)
          · exact .inl h
          · exact .inr ⟨rfl, h, h'⟩
          · exact absurd h' hq

end App

/-! ### What a restart gives back -/

theorem dirs_readFromDisk (disk : Disk) : disk.readFromDisk.2.dirs = disk.dirs := by
  unfold Disk.readFromDisk
  cases disk.registry <;> rfl

theorem lookup_init (disk : Disk) (lastModified : JString → ℤ) (id : JString) :
    ∃ rebuilt, (rebuilt = none ∨ rebuilt = some (rebuiltRecord D lastModified id)) ∧
      (init D disk lastModified).1.modules.lookup id =
        ((((persisted disk).lookup id).bind fun r =>
          if (disk.dirAt D r.installPath).isSome then some r else none).or rebuilt).bind
            (restore D disk id) := by
  have hdirAt : ∀ path, disk.readFromDisk.2.dirAt D path = disk.dirAt D path := fun path => by
    unfold Disk.dirAt
    rw [dirs_readFromDisk]
  have hrestore : restore D disk.readFromDisk.2 = restore D disk := by
    funext id r
    unfold restore
    rw [hdirAt]
  have hinit : (init D disk lastModified).1.modules =
      collect (restore D disk.readFromDisk.2) (disk.load D lastModified).1 := rfl
  have hload : (disk.load D lastModified).1 = fill (rebuiltRecord D lastModified)
      (disk.readFromDisk.2.dirs.keys.filter fun name => !startsWith name [0x2E])
      (collect (fun _ r => if (disk.readFromDisk.2.dirAt D r.installPath).isSome then some r
        else none) (persisted disk)) := rfl
  rw [hinit, lookup_collect, hload, lookup_fill, lookup_collect, hrestore]
  simp only [hdirAt]
  refine ⟨_, ?_, rfl⟩
  split_ifs
  · exact .inr rfl
  · exact .inl rfl

theorem restore_spec {disk : Disk} {id : JString} {r : ModuleRecord} {module : AstraModule}
    (h : restore D disk id r = some module) :
    (disk.dirAt D r.installPath).isSome = true ∧ module.id = id ∧ module.state = r.state ∧
      module.grantedPermissions = r.grantedPermissions := by
  unfold restore at h
  cases hdir : disk.dirAt D r.installPath with
  | none =>
    rw [hdir] at h
    cases h
  | some tree =>
    rw [hdir] at h
    simp only at h
    cases hman : manifestOf D tree with
    | none =>
      rw [hman] at h
      cases h
    | some manifest =>
      rw [hman] at h
      obtain rfl := Option.some.inj h
      exact ⟨rfl, rfl, rfl, rfl⟩

/-- A module that comes back has a record, or is new and has no permissions. -/
theorem restored_cases {disk : Disk} {lastModified : JString → ℤ} {id : JString}
    {module : AstraModule}
    (h : (init D disk lastModified).1.modules.lookup id = some module) :
    module.id = id ∧
      ((∃ r, (persisted disk).lookup id = some r ∧ restore D disk id r = some module) ∨
        (module.state = .installed ∧ module.grantedPermissions = ∅)) := by
  obtain ⟨rebuilt, hrebuilt, hlookup⟩ := lookup_init (D := D) disk lastModified id
  rw [hlookup] at h
  obtain ⟨r, hr, hres⟩ := Option.bind_eq_some_iff.1 h
  obtain ⟨-, hid, hstate, hperm⟩ := restore_spec hres
  refine ⟨hid, ?_⟩
  rcases Option.or_eq_some_iff.1 hr with hr | ⟨-, hr⟩
  · obtain ⟨r', hr', hif⟩ := Option.bind_eq_some_iff.1 hr
    split_ifs at hif
    obtain rfl := Option.some.inj hif
    exact .inl ⟨r', hr', hres⟩
  · rcases hrebuilt with rfl | rfl
    · cases hr
    · obtain rfl := Option.some.inj hr
      exact .inr ⟨hstate, hperm⟩

theorem restored_of_record {disk : Disk} {lastModified : JString → ℤ} {id : JString}
    {r : ModuleRecord} {module : AstraModule} (hr : (persisted disk).lookup id = some r)
    (hres : restore D disk id r = some module) :
    (init D disk lastModified).1.modules.lookup id = some module := by
  obtain ⟨rebuilt, -, hlookup⟩ := lookup_init (D := D) disk lastModified id
  rw [hlookup, hr, Option.bind_some, if_pos (restore_spec hres).1, Option.some_or,
    Option.bind_some, hres]

end AstraVeil.Modules
