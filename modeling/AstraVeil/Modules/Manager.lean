import AstraVeil.Core.Permissions
import AstraVeil.Lib.Runs
import AstraVeil.Modules.Install

/-!
# The module manager

`modules/ModuleManager.kt` and `modules/registry/ModuleRegistry.kt`: the map of installed modules,
the registry file it is saved to, and the directories below `modulesRoot`.  The manager is rebuilt
from the disk when the process starts (`init`).

`World` is the disk, the process (`none` after it died) and a ledger that the code does not have:
the trust report of the install that put a module into the map, until it is uninstalled.

* `installOutcome`: what a call of `install` does, up to the state it changes;
* `step`: one operation.  What the environment does in it (faults, answers of the permission
  engine, clock) is part of the operation.

The registry is kept as the list of its records: the JSON codec is taken to read back what it
wrote, and a file whose writing was cut short not to decode.
-/

namespace AstraVeil.Modules

open Utf16 KotlinString Finmaps AstraVeil.Core

/-- `ModuleState`. -/
inductive ModuleState
  | installed
  | enabled
  | running
  | disabled
  | error
  deriving DecidableEq

/-- `AstraModule`. -/
structure AstraModule where
  id : JString
  manifest : ModuleManifest
  state : ModuleState
  installPath : JString
  grantedPermissions : Finset JString
  trustLevelName : TrustLevel

/-- `ModuleRecord`. -/
structure ModuleRecord where
  id : JString
  version : JString
  apiVersion : ℤ
  installPath : JString
  state : ModuleState
  sourceHash : Option JString
  signatureStatus : SignatureStatus
  installSource : JString
  grantedPermissions : Finset JString
  installTime : ℤ
  lastUpdateTime : ℤ
  trustLevel : TrustLevel

/-- `.registry.json`: missing, a list of records, or a text that does not decode. -/
inductive RegistryFile
  | absent
  | records (rs : List ModuleRecord)
  | torn

/-- The directories below `modulesRoot`, and the registry file. -/
structure Disk where
  dirs : Map JString FileTree
  registry : RegistryFile

/-- The state of a `ModuleManager`. -/
structure Manager where
  modules : Map JString AstraModule
  persistentMeta : Map JString ModuleRecord

/-- The disk, the process and the ledger. -/
structure World where
  disk : Disk
  process : Option Manager
  ledger : Map JString TrustReport

variable {Key : Type} (D : Device Key)

/-- `File(modulesRoot, id).absolutePath`. -/
def pathOf (id : JString) : JString := D.modulesRoot ++ 0x2F :: id

/-- The directory at an absolute path. -/
def Disk.dirAt (disk : Disk) (path : JString) : Option FileTree :=
  (disk.dirs.entries.find? fun e => decide (pathOf D e.1 = path)).map fun e => e.2

/-! ### The registry -/

/-- `readFromDisk`; a text that does not decode is moved away. -/
def Disk.readFromDisk (disk : Disk) : Map JString ModuleRecord × Disk :=
  match disk.registry with
  | .absent => (∅, disk)
  | .records rs => (associateBy ModuleRecord.id rs, disk)
  | .torn => (∅, { disk with registry := .absent })

/-- The record of a directory that the registry does not know; `lastModified` is its time stamp. -/
def rebuiltRecord (lastModified : JString → ℤ) (name : JString) : ModuleRecord where
  id := name
  version := ofString "0.0.0"
  apiVersion := 1
  installPath := pathOf D name
  state := .installed
  sourceHash := none
  signatureStatus := .unknown
  installSource := ofString "rebuild-from-disk"
  grantedPermissions := ∅
  installTime := lastModified name
  lastUpdateTime := 0
  trustLevel := .unsigned

/-- `load`. -/
def Disk.load (disk : Disk) (lastModified : JString → ℤ) : Map JString ModuleRecord × Disk :=
  let (persisted, disk) := disk.readFromDisk
  let reconciled := collect (fun _ record =>
    if (disk.dirAt D record.installPath).isSome then some record else none) persisted
  let names := disk.dirs.keys.filter fun name => !startsWith name [0x2E]
  (fill (rebuiltRecord D lastModified) names reconciled, disk)

/-- The module `init` makes of a record, if its `module.json` is there and valid. -/
def restore (disk : Disk) (id : JString) (record : ModuleRecord) : Option AstraModule :=
  match disk.dirAt D record.installPath with
  | none => none
  | some tree =>
      match manifestOf D tree with
      | none => none
      | some manifest =>
          some { id := id, manifest := manifest, state := record.state
                 installPath := record.installPath
                 grantedPermissions := record.grantedPermissions
                 trustLevelName := record.trustLevel }

/-- `init`. -/
def init (disk : Disk) (lastModified : JString → ℤ) : Manager × Disk :=
  let (loaded, disk) := disk.load D lastModified
  (⟨collect (restore D disk) loaded,
    collect (fun id record => (restore D disk id record).map fun _ => record) loaded⟩, disk)

/-- The record of a module. -/
def snapshotRecord (persistentMeta : Map JString ModuleRecord) (now : ℤ) (id : JString)
    (module : AstraModule) : ModuleRecord :=
  let record := persistentMeta.lookup id
  { id := id, version := module.manifest.version, apiVersion := module.manifest.api
    installPath := module.installPath, state := module.state
    sourceHash := record.bind ModuleRecord.sourceHash
    signatureStatus := (record.map ModuleRecord.signatureStatus).getD .unknown
    installSource := (record.map ModuleRecord.installSource).getD []
    grantedPermissions := module.grantedPermissions
    installTime := (record.map ModuleRecord.installTime).getD now
    lastUpdateTime := now, trustLevel := module.trustLevelName }

/-- `snapshotRecords`. -/
def Manager.snapshotRecords (m : Manager) (now : ℤ) : List ModuleRecord :=
  m.modules.entries.map fun e => snapshotRecord m.persistentMeta now e.1 e.2

/-- The registry file after `save`. -/
def saved (m : Manager) (now : ℤ) (old : RegistryFile) : SaveResult → RegistryFile
  | .ok => .records (m.snapshotRecords now)
  | .failed => old
  | .torn => .torn

/-! ### Operations -/

/-- A fault during `install`, with whether the process dies of it.  `prepared` strikes before the
target directory is made. -/
inductive InstallFault
  | prepared (crash : Bool)
  | unpack (entry : ℕ) (point : EntryPoint) (crash : Bool)
  | unpacked
  | permissions (crash : Bool)
  | save (result : SaveResult) (crash : Bool)

/-- A `deleteRecursively` that a failing install calls: the paths that survive it, if it is not
complete, and whether the process dies of it. -/
structure Deletion where
  survivors : Option (List JString → Bool)
  crash : Bool

/-- A call of `install`, with what the environment answers. -/
structure InstallRequest where
  fileExists : Bool
  fileName : JString
  absolutePath : JString
  archive : Except JString ZipFile
  /-- `sha256OrNull` of the file. -/
  sourceHash : Option JString
  trustedKeys : List JString
  /-- `core.requestAndPersistPermission(moduleId, _)`. -/
  allow : JString → Bool
  /-- Files a runtime path with `..` may lead to. -/
  outside : JString → Bool
  now : ℤ
  fault : Option InstallFault
  /-- What `input.read(buf)` returns. -/
  read : ℕ → ℕ
  /-- The paths of an older directory that survive its deletion. -/
  wiped : Option (List JString → Bool)
  /-- The deletion of the target directory. -/
  cleaned : Deletion
  /-- How the configuration is saved after each permission that is granted. -/
  configSaves : ℕ → SaveResult

/-- What the first `deleteRecursively` leaves of an older directory. -/
def InstallRequest.rest (r : InstallRequest) (old : Option FileTree) : Option FileTree :=
  old.bind (remains r.wiped)

/-- What the target directory holds before the first entry. -/
def InstallRequest.target (r : InstallRequest) (old : Option FileTree) : FileTree :=
  (r.rest old).getD ∅

/-- What a call of `install` does. -/
inductive Outcome
  /-- Nothing is changed. -/
  | refused (e : InstallError)
  /-- The module's directory is gone, or what is left of it after a deletion. -/
  | cleared (id : JString) (rest : Option FileTree) (crash : Bool) (e : InstallError)
  /-- The module's directory stays, the module is not registered. -/
  | left (id : JString) (tree : FileTree) (crash : Bool) (e : InstallError)
  /-- The module is unpacked and registered; the save ends as given. -/
  | registered (tree : FileTree) (module : AstraModule) (record : ModuleRecord)
      (report : TrustReport) (save : SaveResult) (crash : Bool)

/-- The end of `install`, once the package is unpacked and valid. -/
def register (r : InstallRequest) (manifest : ModuleManifest) (report : TrustReport)
    (trustLevel : TrustLevel) (tree : FileTree) : Outcome :=
  let id := manifest.name
  match r.fault with
  | some (.permissions crash) => .left id tree crash (if crash then .died else .io)
  | fault =>
      let module : AstraModule :=
        { id := id, manifest := manifest, state := .installed, installPath := pathOf D id
          grantedPermissions := (manifest.permissions.filter r.allow).toFinset
          trustLevelName := trustLevel }
      let record : ModuleRecord :=
        { id := id, version := manifest.version, apiVersion := manifest.api
          installPath := module.installPath, state := module.state
          sourceHash := report.sourceHash, signatureStatus := report.signatureStatus
          installSource := r.absolutePath, grantedPermissions := module.grantedPermissions
          installTime := r.now, lastUpdateTime := r.now, trustLevel := trustLevel }
      match fault with
      | some (.save result crash) => .registered tree module record report result crash
      | _ => .registered tree module record report .ok false

/-- `target.deleteRecursively()`, and the exception after it. -/
def cleared (r : InstallRequest) (id : JString) (tree : FileTree) (e : InstallError) : Outcome :=
  .cleared id (remains r.cleaned.survivors tree) r.cleaned.crash
    (if r.cleaned.crash then .died else e)

/-- The part of `install` under the mutex; `old` is the directory of the id before. -/
def installLocked (r : InstallRequest) (installed : Bool) (old : Option FileTree) (zip : ZipFile)
    (manifest : ModuleManifest) (report : TrustReport) (trustLevel : TrustLevel) : Outcome :=
  let id := manifest.name
  if installed then .refused (.alreadyInstalled id)
  else
    match r.fault with
    | some (.prepared crash) => .cleared id (r.rest old) crash (if crash then .died else .io)
    | fault =>
        -- every other fault strikes behind the loop over the entries
        let unpackFault := match fault with
          | some (.unpack entry point crash) => some (entry, point, crash)
          | _ => none
        match unpack r.read unpackFault (r.target old) zip.entries with
        | .left tree e => .left id tree false e
        | .deleted tree e => cleared r id tree e
        | .crashed tree => .left id tree true .died
        | .ok tree _ =>
            match fault with
            | some .unpacked => .left id tree true .died
            | _ =>
                match validatePackage D tree r.outside with
                | none => cleared r id tree .badPackage
                | some _ => register D r manifest report trustLevel tree

/-- `install`; `installed` tells whether the map has a module of an id, `old` what its directory
holds. -/
def installOutcome (r : InstallRequest) (installed : JString → Bool)
    (old : JString → Option FileTree) : Outcome :=
  if r.fileExists = false then .refused .fileMissing
  else if (ofString ".avm").isSuffixOf r.fileName = false then .refused (.notAvm r.fileName)
  else
    match r.archive with
    | .error message => .refused (.badArchive message)
    | .ok zip =>
        match zip.getEntry (ofString "module.json") with
        | none => .refused .manifestMissing
        | some entry =>
            match validateManifest D (D.platform.decode entry.content) with
            | .error e => .refused (.badManifest e)
            | .ok manifest =>
                if isModuleId manifest.name = false then .refused (.unsafeId manifest.name)
                else
                  -- the gate looks at the older signature only; the structured one gives the level
                  let status := verifySignature D r.archive
                  let structured := (ModuleSignatureVerifier.verify D.platform r.archive
                    D.pinnedPublicKeyB64 r.trustedKeys).trustLevel
                  let report := TrustGate.evaluate r.sourceHash true manifest.api status
                  if report.isInstallable true = false then .refused (.rejected report)
                  else installLocked D r (installed manifest.name) (old manifest.name) zip manifest
                    report (resolveTrustLevel status structured)

/-- Where the process dies in `uninstall`. -/
inductive UninstallCrash
  | beforeDelete
  | afterDelete
  | inSave
  deriving DecidableEq

/-- What the environment does in `uninstall`. -/
structure UninstallEnv where
  /-- The paths that survive an incomplete `deleteRecursively`. -/
  survivors : Option (List JString → Bool)
  save : SaveResult
  crash : Option UninstallCrash
  now : ℤ

/-- The operations. -/
inductive Op
  | install (r : InstallRequest)
  | uninstall (id : JString) (u : UninstallEnv)
  | enable (id : JString) (save : SaveResult) (crash : Bool) (now : ℤ)
  | disable (id : JString) (save : SaveResult) (crash : Bool) (now : ℤ)
  | restart (lastModified : JString → ℤ)

/-- The process after an operation, if it is still there. -/
def alive (crash : Bool) (m : Manager) : Option Manager := if crash then none else some m

/-- The directories, with what there is now of one of them. -/
def setDir (dirs : Map JString FileTree) (id : JString) : Option FileTree → Map JString FileTree
  | some tree => dirs.insert id tree
  | none => dirs.erase id

/-- `install`, from its outcome. -/
def install (w : World) (m : Manager) (now : ℤ) : Outcome → World
  | .refused _ => w
  | .cleared id rest crash _ =>
      { w with
        disk := { w.disk with dirs := setDir w.disk.dirs id rest }
        process := alive crash m }
  | .left id tree crash _ =>
      { w with
        disk := { w.disk with dirs := w.disk.dirs.insert id tree }
        process := alive crash m }
  | .registered tree module record report save crash =>
      let m : Manager :=
        ⟨m.modules.insert module.id module, m.persistentMeta.insert module.id record⟩
      { disk := ⟨w.disk.dirs.insert module.id tree, saved m now w.disk.registry save⟩
        process := alive crash m
        -- the install completed if it came back from `save`
        ledger := if save = .ok ∧ crash = false then w.ledger.insert module.id report
          else w.ledger }

/-- `deleteRecursively` on a module's directory. -/
def deleteDir (dirs : Map JString FileTree) (id : JString)
    (survivors : Option (List JString → Bool)) : Map JString FileTree :=
  setDir dirs id ((dirs.lookup id).bind (remains survivors))

/-- The name of the directory at the path of a module. -/
def dirName (disk : Disk) (path : JString) : Option JString :=
  (disk.dirs.entries.find? fun e => decide (pathOf D e.1 = path)).map fun e => e.1

/-- `uninstall`. -/
def uninstall (w : World) (m : Manager) (id : JString) (u : UninstallEnv) : World :=
  match m.modules.lookup id with
  | none => w
  | some module =>
      if u.crash = some .beforeDelete then { w with process := none }
      else
        -- the files go first, then the maps, and the registry is saved last
        let dirs := match dirName D w.disk module.installPath with
          | none => w.disk.dirs
          | some name => deleteDir w.disk.dirs name u.survivors
        if u.crash = some .afterDelete then
          { w with disk := { w.disk with dirs := dirs }, process := none }
        else
          let m : Manager := ⟨m.modules.erase id, m.persistentMeta.erase id⟩
          { disk := ⟨dirs, saved m u.now w.disk.registry u.save⟩
            process := alive (u.crash = some .inSave) m
            ledger := w.ledger.erase id }

/-- `transition`. -/
def transition (w : World) (m : Manager) (id : JString) (target : ModuleState) (save : SaveResult)
    (crash : Bool) (now : ℤ) : World :=
  match m.modules.lookup id with
  | none => w
  | some current =>
      if current.state = target then w
      else
        let m : Manager :=
          { m with modules := m.modules.insert id { current with state := target } }
        { w with
          disk := { w.disk with registry := saved m now w.disk.registry save }
          process := alive crash m }

/-- A new `ModuleManager` over the same disk. -/
def restart (w : World) (lastModified : JString → ℤ) : World :=
  let (m, disk) := init D w.disk lastModified
  { w with disk := disk, process := some m }

/-- One operation; a dead process can only be started again. -/
def step (w : World) : Op → World
  | .install r =>
      match w.process with
      | none => w
      | some m =>
          install w m r.now (installOutcome D r (fun id => decide (id ∈ m.modules))
            fun id => w.disk.dirs.lookup id)
  | .uninstall id u =>
      match w.process with
      | none => w
      | some m => uninstall D w m id u
  | .enable id save crash now =>
      match w.process with
      | none => w
      | some m => transition w m id .enabled save crash now
  | .disable id save crash now =>
      match w.process with
      | none => w
      | some m => transition w m id .disabled save crash now
  | .restart lastModified => restart D w lastModified

/-- The first start, on an empty `modulesRoot`. -/
def World.initial : World := ⟨⟨∅, .absent⟩, some ⟨∅, ∅⟩, ∅⟩

end AstraVeil.Modules
