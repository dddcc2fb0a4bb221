import AstraVeil.Daemon.JsonCodec
import AstraVeil.Rust.ExecutionPolicy

/-!
# The services behind the request handler

Capabilities and their matrix, the probes of the device, the permission database and the security
engine, the audit logger, the risk engine, the module registry, the policy bridge and the command
executor.  What the daemon observes while it serves a request is a `Device`; nothing is assumed
about it.  `none` stands for an exception that leaves the function.
-/

namespace AstraVeil.Daemon

open Utf16 (ascii)

/-! ### The device -/

/-- What `stat` says about a path. -/
inductive Stat
  | found
  | absent
  | failed
  deriving DecidableEq

/-- How a child process ended, as `pclose` reports it. -/
inductive WaitStatus
  | exited (code : UInt8)
  | signaled (sig : ℕ)
  | other

/-- A time of day in UTC. -/
structure Tm where
  year : ℕ
  month : ℕ
  day : ℕ
  hour : ℕ
  minute : ℕ
  second : ℕ

/-- The namespaces that are probed. -/
inductive Namespace
  | mnt
  | pid
  | net

/-- What the daemon observes during one request. -/
structure Device where
  /-- `stat(2)`. -/
  stat : List UInt8 → Stat
  /-- The contents of the files that can be opened. -/
  read : List UInt8 → Option (List UInt8)
  /-- Whether a forked child may `unshare(2)`. -/
  unshare : Namespace → Bool
  /-- `getuid(2)`. -/
  uid : ℕ
  /-- A version command: whether it succeeded, and its output. -/
  runCmd : List UInt8 → Bool × List UInt8
  /-- A command of a request: its output and end, if `popen` succeeds. -/
  popen : List UInt8 → Option (List UInt8 × WaitStatus)
  /-- Whether the runtime of the AstraRoot provider is initialized and ready. -/
  rootRuntimeReady : Bool
  /-- Whether the Rust library overrides the weak symbols of the policy bridge. -/
  rustLinked : Bool
  /-- Milliseconds since the start of the daemon. -/
  uptimeMs : ℤ
  /-- The wall clock. -/
  now : Tm
  /-- Whether the audit log can be opened for appending. -/
  logWritable : Bool

/-- `file_exists` of the detectors. -/
def Device.fileExists (dev : Device) (path : String) : Bool := dev.stat (ascii path) = .found

/-- `std::filesystem::exists` without an error code: it throws where `stat` fails. -/
def Device.fsExists (dev : Device) (path : String) : Option Bool :=
  match dev.stat (ascii path) with
  | .found => some true
  | .absent => some false
  | .failed => none

/-! ### Capabilities -/

/-- `Capability`. -/
inductive Capability
  | rootAccess
  | selinuxControl
  | mountNamespace
  | bootPatch
  | systemWrite
  | kernelInterface
  | network
  | ipcAccess
  | moduleRuntime
  | namespaceIsolation
  | astraRoot
  | overlayfs
  deriving DecidableEq

/-- `capability_name`. -/
def capabilityName : Capability → String
  | .rootAccess => "ROOT_ACCESS"
  | .systemWrite => "SYSTEM_WRITE"
  | .mountNamespace => "MOUNT_NAMESPACE"
  | .kernelInterface => "KERNEL_INTERFACE"
  | .bootPatch => "BOOT_PATCH"
  | .selinuxControl => "SELINUX_CONTROL"
  | .network => "NETWORK"
  | .ipcAccess => "IPC_ACCESS"
  | .moduleRuntime => "MODULE_RUNTIME"
  | .namespaceIsolation => "NAMESPACE_ISOLATION"
  | .astraRoot => "ASTRA_ROOT"
  | .overlayfs => "OVERLAYFS"

/-- `all_capabilities`. -/
def allCapabilities : List Capability :=
  [.rootAccess, .systemWrite, .mountNamespace, .kernelInterface, .bootPatch, .selinuxControl,
    .network, .ipcAccess, .moduleRuntime, .namespaceIsolation, .astraRoot, .overlayfs]

/-- `CapabilityMatrix`; what is not in the map is off. -/
abbrev CapabilityMatrix := Capability → Bool

namespace CapabilityMatrix

/-- `set`. -/
def set (m : CapabilityMatrix) (c : Capability) (enabled : Bool) : CapabilityMatrix :=
  Function.update m c enabled

/-- A member of the JSON form. -/
def jsonMember (m : CapabilityMatrix) (c : Capability) : List UInt8 :=
  ascii "\"" ++ ascii (capabilityName c) ++ ascii "\":" ++
    (if m c then ascii "true" else ascii "false")

/-- `json`. -/
def json (m : CapabilityMatrix) : List UInt8 :=
  ascii "\x7b" ++ [0x2C].intercalate (allCapabilities.map m.jsonMember) ++ ascii "\x7d"

end CapabilityMatrix

/-- The root providers. -/
inductive RootProvider
  | noRoot
  | magisk
  | kernelSU
  | apatch
  | astraRoot
  deriving DecidableEq

namespace RootProvider

/-- `available`. -/
def available (dev : Device) : RootProvider → Option Bool
  | .noRoot => some false
  | .magisk => dev.fsExists "/sbin/.magisk"
  | .kernelSU => dev.fsExists "/data/adb/ksu"
  | .apatch => dev.fsExists "/data/adb/ap"
  | .astraRoot => some dev.rootRuntimeReady

/-- `capabilities`. -/
def capabilities : RootProvider → List Capability
  | .noRoot => []
  | .magisk => [.rootAccess, .systemWrite, .mountNamespace, .bootPatch, .selinuxControl]
  | .kernelSU => [.rootAccess, .mountNamespace, .kernelInterface, .bootPatch, .selinuxControl]
  | .apatch => [.rootAccess, .mountNamespace, .kernelInterface, .bootPatch, .selinuxControl]
  | .astraRoot => [.rootAccess, .astraRoot, .mountNamespace, .namespaceIsolation, .overlayfs,
      .bootPatch, .systemWrite, .selinuxControl]

end RootProvider

/-- What the provider contributes to the matrix. -/
def providerMatrix (provider : RootProvider) (available : Bool) : CapabilityMatrix :=
  if available then
    provider.capabilities.foldl (fun m c => m.set c true)
      (CapabilityMatrix.set (fun _ => false) .rootAccess true)
  else fun _ => false

/-- `CapabilityDetector::detect`. -/
def detect (dev : Device) (provider : RootProvider) : Option CapabilityMatrix := do
  let available ← provider.available dev
  let selinux ← dev.fsExists "/sys/fs/selinux/enforce"
  let mnt ← dev.fsExists "/proc/self/ns/mnt"
  some ((((providerMatrix provider available).set .selinuxControl selinux).set
    .mountNamespace mnt).set .moduleRuntime true)

/-! ### Probes -/

/-- A text contains another. -/
def contains (needle text : List UInt8) : Bool :=
  text.tails.any fun t => needle.isPrefixOf t

/-- `read_file_contains`. -/
def Device.readFileContains (dev : Device) (path needle : String) : Bool :=
  match dev.read (ascii path) with
  | none => false
  | some text => (getlines text).any (contains (ascii needle))

/-- `read_first_line`. -/
def Device.readFirstLine (dev : Device) (path : String) : List UInt8 :=
  match dev.read (ascii path) with
  | none => []
  | some text => (getlines text).headD []

/-- `probe_root`. -/
def probeRoot (dev : Device) : CapabilityInfo :=
  ⟨dev.uid = 0, ascii "getuid()==" ++ Json.natDecimal dev.uid⟩

/-- `probe_overlayfs`. -/
def probeOverlayfs (dev : Device) : CapabilityInfo :=
  ⟨dev.readFileContains "/proc/filesystems" "overlay", ascii "/proc/filesystems"⟩

/-- The probes of the three namespaces. -/
def probeNamespace (dev : Device) (path : String) (ns : Namespace) (source : String) :
    CapabilityInfo :=
  ⟨dev.fileExists path && dev.unshare ns, ascii source⟩

/-- `probe_mount_namespace`. -/
def probeMountNamespace (dev : Device) : CapabilityInfo :=
  probeNamespace dev "/proc/self/ns/mnt" .mnt "/proc/self/ns/mnt + unshare(CLONE_NEWNS)"

/-- `probe_pid_namespace`. -/
def probePidNamespace (dev : Device) : CapabilityInfo :=
  probeNamespace dev "/proc/self/ns/pid" .pid "/proc/self/ns/pid + unshare(CLONE_NEWPID)"

/-- `probe_net_namespace`. -/
def probeNetNamespace (dev : Device) : CapabilityInfo :=
  probeNamespace dev "/proc/self/ns/net" .net "/proc/self/ns/net + unshare(CLONE_NEWNET)"

/-- The SELinux mode that `probe_selinux` reports. -/
def selinuxMode (dev : Device) : String :=
  if dev.fileExists "/sys/fs/selinux/enforce" then
    if dev.readFirstLine "/sys/fs/selinux/enforce" = ascii "1" then "enforcing" else "permissive"
  else "absent"

/-- `probe_selinux`. -/
def probeSelinux (dev : Device) : CapabilityInfo :=
  ⟨dev.fileExists "/sys/fs/selinux/enforce",
    ascii "/sys/fs/selinux/enforce (" ++ ascii (selinuxMode dev) ++ ascii ")"⟩

/-- `probe_system_write`: the flags of the first mount at `/system`. -/
def probeSystemWrite (dev : Device) : CapabilityInfo :=
  ⟨match (getlines ((dev.read (ascii "/proc/mounts")).getD [])).find?
      (contains (ascii " /system ")) with
    | some line => contains (ascii " rw,") line || contains (ascii " rw ") line
    | none => false,
    ascii "/proc/mounts /system flags"⟩

/-- `probe_zygisk`. -/
def probeZygisk (dev : Device) : CapabilityInfo :=
  ⟨dev.fileExists "/data/adb/modules/zygisk" || dev.fileExists "/data/adb/magisk/zygisk",
    ascii "zygisk module path"⟩

/-- `capability::detect_all`. -/
def detectCapabilities (dev : Device) : List (String × CapabilityInfo) :=
  [("root", probeRoot dev), ("overlayfs", probeOverlayfs dev),
    ("mount_namespace", probeMountNamespace dev), ("pid_namespace", probePidNamespace dev),
    ("net_namespace", probeNetNamespace dev), ("selinux", probeSelinux dev),
    ("system_write", probeSystemWrite dev), ("zygisk", probeZygisk dev),
    ("boot_patch", ⟨false, ascii "not probed in Phase 0 (needs boot partition)"⟩)]

/-- White space that `trim` removes. -/
def isBlank (c : UInt8) : Bool := c = 0x20 || c = 0x09 || c = 0x0D || c = 0x0A

/-- `trim`. -/
def trim (s : List UInt8) : List UInt8 :=
  ((s.dropWhile isBlank).reverse.dropWhile isBlank).reverse

/-- `first_line`. -/
def firstLine (s : List UInt8) : List UInt8 := trim (s.takeWhile (· ≠ 0x0A))

/-- `check_paths`. -/
def checkPaths (dev : Device) (paths : List String) : Bool × List UInt8 :=
  match paths.filter dev.fileExists with
  | [] => (false, ascii "checked: " ++ (ascii ", ").intercalate (paths.map ascii) ++
      ascii " (none found)")
  | found => (true, ascii "found: " ++ (ascii ", ").intercalate (found.map ascii))

/-- A root backend that is looked for: its id and name, the paths it leaves, the command that
prints its version, and that command as the report names it. -/
structure Backend where
  id : String
  name : String
  paths : List String
  command : String
  shown : String

/-- The common form of the detectors: artifacts on disk, then a functional check. -/
def detectBackend (dev : Device) (b : Backend) : ProviderInfo :=
  let (detected, src) := checkPaths dev b.paths
  if detected then
    -- detected by its files; available only if its command answers, too
    let (ok, out) := dev.runCmd (ascii b.command)
    let ver := firstLine out
    if ok = true ∧ ver ≠ [] then
      ⟨ascii b.id, ascii b.name, true, true, ver,
        src ++ (ascii "; exec '" ++ ascii b.shown ++ ascii "' -> " ++ ver)⟩
    else
      ⟨ascii b.id, ascii b.name, true, false, [],
        src ++ (ascii "; '" ++ ascii b.shown ++
          ascii "' failed (binary present but not functional)")⟩
  else ⟨ascii b.id, ascii b.name, false, false, [], src⟩

/-- What `detect_magisk` looks for. -/
def magisk : Backend where
  id := "magisk"
  name := "Magisk"
  paths := ["/data/adb/magisk/magisk", "/data/adb/magisk", "/system/bin/magisk"]
  command := "magisk -v 2>/dev/null || /data/adb/magisk/magisk -v 2>/dev/null"
  shown := "magisk -v"

/-- What `detect_kernelsu` looks for. -/
def kernelsu : Backend where
  id := "kernelsu"
  name := "KernelSU"
  paths := ["/data/adb/ksu/bin/ksud", "/data/adb/ksu", "/sys/module/kernelsu",
    "/proc/sys/kernel/ksu"]
  command := "ksud --version 2>/dev/null || /data/adb/ksu/bin/ksud --version 2>/dev/null"
  shown := "ksud --version"

/-- What `detect_apatch` looks for. -/
def apatch : Backend where
  id := "apatch"
  name := "APatch"
  paths := ["/data/adb/ap/bin/apd", "/data/adb/ap", "/sys/module/apatch"]
  command := "apd --version 2>/dev/null || /data/adb/ap/bin/apd --version 2>/dev/null"
  shown := "apd --version"

/-- `detect_magisk`. -/
def detectMagisk (dev : Device) : ProviderInfo := detectBackend dev magisk

/-- `detect_kernelsu`. -/
def detectKernelsu (dev : Device) : ProviderInfo := detectBackend dev kernelsu

/-- `detect_apatch`. -/
def detectApatch (dev : Device) : ProviderInfo := detectBackend dev apatch

/-- `detect_astraroot`. -/
def detectAstraroot : ProviderInfo :=
  ⟨ascii "astraroot", ascii "AstraRoot", false, false, [],
    ascii "AstraRoot backend not implemented (Phase 1)"⟩

/-- `provider::detect_all`. -/
def detectProviders (dev : Device) : List ProviderInfo :=
  [detectMagisk dev, detectKernelsu dev, detectApatch dev, detectAstraroot]

/-! ### Permissions -/

/-- `Permission`. -/
inductive Permission
  | rootAccess
  | systemWrite
  | mount
  | bootPatch
  | selinuxControl
  | kernelInterface
  | networkAccess
  | filesystemAccess
  | ipcAccess
  deriving DecidableEq

/-- `permission_name`. -/
def permissionName : Permission → String
  | .rootAccess => "ROOT_ACCESS"
  | .systemWrite => "SYSTEM_WRITE"
  | .mount => "MOUNT"
  | .bootPatch => "BOOT_PATCH"
  | .selinuxControl => "SELINUX_CONTROL"
  | .kernelInterface => "KERNEL_INTERFACE"
  | .networkAccess => "NETWORK_ACCESS"
  | .filesystemAccess => "FILESYSTEM_ACCESS"
  | .ipcAccess => "IPC_ACCESS"

/-- The permissions in the order of the enumeration. -/
def allPermissions : List Permission :=
  [.rootAccess, .systemWrite, .mount, .bootPatch, .selinuxControl, .kernelInterface,
    .networkAccess, .filesystemAccess, .ipcAccess]

/-- `permission_from_name`. -/
def permissionFromName (name : List UInt8) : Option Permission :=
  allPermissions.find? fun p => ascii (permissionName p) = name

/-- `permission_to_capability`. -/
def permissionToCapability : Permission → Option Capability
  | .rootAccess => some .rootAccess
  | .systemWrite => some .systemWrite
  | .mount => some .mountNamespace
  | .bootPatch => some .bootPatch
  | .selinuxControl => some .selinuxControl
  | .kernelInterface => some .kernelInterface
  | .networkAccess => some .network
  | .ipcAccess => some .ipcAccess
  | .filesystemAccess => none

/-- `PermissionDatabase`: the permissions granted to each module. -/
abbrev PermissionDatabase := List UInt8 → Finset Permission

namespace PermissionDatabase

/-- `check`. -/
def check (db : PermissionDatabase) (module : List UInt8) (p : Permission) : Bool := p ∈ db module

/-- `grant`: whether the permission is new, and the database afterwards. -/
def grant (db : PermissionDatabase) (module : List UInt8) (p : Permission) :
    Bool × PermissionDatabase :=
  (!db.check module p, Function.update db module (insert p (db module)))

/-- `revoke`: whether there was such a grant, and the database afterwards. -/
def revoke (db : PermissionDatabase) (module : List UInt8) (p : Permission) :
    Bool × PermissionDatabase :=
  (db.check module p, Function.update db module ((db module).erase p))

end PermissionDatabase

/-- `SecurityEngine::authorize`. -/
def authorize (db : PermissionDatabase) (matrix : CapabilityMatrix) (module : List UInt8)
    (p : Permission) : Bool :=
  if db.check module p then
    -- a permission without a capability behind it is decided by the grant alone
    match permissionToCapability p with
    | some cap => matrix cap
    | none => true
  else false

/-! ### The audit log -/

/-- A number with at least two digits. -/
def twoDigits (n : ℕ) : List UInt8 :=
  if n < 10 then ascii "0" ++ Json.natDecimal n else Json.natDecimal n

/-- `now_iso`. -/
def nowIso (t : Tm) : List UInt8 :=
  Json.natDecimal t.year ++ ascii "-" ++ twoDigits t.month ++ ascii "-" ++ twoDigits t.day ++
    ascii "T" ++ twoDigits t.hour ++ ascii ":" ++ twoDigits t.minute ++ ascii ":" ++
    twoDigits t.second ++ ascii "Z"

/-- The line that `AuditLogger::log` writes. -/
def auditLine (t : Tm) (module action : List UInt8) (result : Bool) : List UInt8 :=
  ascii "\x7b\"time\":\"" ++ nowIso t ++ ascii "\",\"module\":\"" ++ module ++
    ascii "\",\"action\":\"" ++ action ++ ascii "\",\"result\":\"" ++
    (if result then ascii "ALLOW" else ascii "DENY") ++ ascii "\"\x7d"

/-- `AuditLogger::log`: appends a line where the file can be opened. -/
def auditLog (dev : Device) (module action : List UInt8) (result : Bool) (file : List UInt8) :
    List UInt8 :=
  if dev.logWritable then file ++ auditLine dev.now module action result ++ ascii "\n" else file

/-! ### Modules -/

/-- `ModuleManifest`; the permissions are their names. -/
structure ModuleManifest where
  id : List UInt8
  name : List UInt8
  version : List UInt8
  permissions : List (List UInt8)

/-- `Module`. -/
structure Module where
  manifest : ModuleManifest
  path : List UInt8

/-- `ModuleManager::install`: the package is registered by its path, with an empty manifest. -/
def installModule (path : List UInt8) (modules : List Module) : Bool × List Module :=
  (true, modules ++ [⟨⟨[], [], [], []⟩, path⟩])

/-- `ModuleManager::remove`: whether there is such a module, and the registry afterwards. -/
def removeModule (id : List UInt8) (modules : List Module) : Bool × List Module :=
  (modules.any fun m => m.manifest.id = id, modules.eraseP fun m => m.manifest.id = id)

/-- The first module with the given id. -/
def findModule (id : List UInt8) (modules : List Module) : Option Module :=
  modules.find? fun m => m.manifest.id = id

/-- `resolve_capability`. -/
def resolveCapability (name : List UInt8) : Option Capability :=
  allCapabilities.find? fun c => ascii (capabilityName c) = name

/-- `ModulePermissionChecker::check`, the live part of `ModuleRuntime::start`. -/
def checkPermissions (matrix : CapabilityMatrix) (manifest : ModuleManifest) : Bool :=
  manifest.permissions.all fun name =>
    match resolveCapability name with
    | some c => matrix c
    | none => false

/-- `ModuleRuntime::stop`. -/
def stopModule (_id : List UInt8) : Bool := true

/-- `permission_score`. -/
def permissionScore (name : List UInt8) : ℤ :=
  if name = ascii "ROOT_ACCESS" then 30
  else if name = ascii "BOOT_PATCH" then 40
  else if name = ascii "NETWORK_ACCESS" then 10
  else if name = ascii "SYSTEM_WRITE" then 20
  else if name = ascii "SELINUX_CONTROL" then 25
  else if name = ascii "KERNEL_INTERFACE" then 35
  else if name = ascii "MOUNT" then 10
  else if name = ascii "FILESYSTEM_ACCESS" then 10
  else if name = ascii "IPC_ACCESS" then 5
  else 0

/-- `RiskEngine::calculate`. -/
def calculate (manifest : ModuleManifest) : ℤ := (manifest.permissions.map permissionScore).sum

/-- `RiskEngine::level_for_score`. -/
def levelForScore (score : ℤ) : String :=
  if score ≥ 100 then "CRITICAL"
  else if score ≥ 60 then "HIGH"
  else if score ≥ 30 then "MEDIUM"
  else "LOW"

/-! ### Policy and execution -/

/-- `PolicyResult`. -/
inductive PolicyResult
  | allow
  | deny
  | approval
  deriving DecidableEq

/-- `decode`. -/
def decodePolicy (raw : ℤ) : PolicyResult :=
  if raw = 0 then .allow else if raw = 1 then .deny else .approval

/-- `PolicyBridge::checkWith`: closed where the Rust library is not linked. -/
def checkWith (dev : Device) (moduleId capability : List UInt8) (riskLevel : ℕ) (approved : Bool) :
    PolicyResult :=
  if dev.rustLinked then decodePolicy (Rust.policyCheckWith moduleId capability riskLevel approved)
  else .deny

/-- `ExecResult`. -/
structure ExecResult where
  exitCode : ℤ
  stdout : List UInt8
  stderr : List UInt8

/-- `CommandExecutor::execute`. -/
def execute (dev : Device) (cmd : List UInt8) : ExecResult :=
  match dev.popen (cmd ++ ascii " 2>&1") with
  | none => ⟨-1, [], []⟩
  | some (out, .exited code) => ⟨code.toNat, out, []⟩
  | some (out, .signaled sig) => ⟨128 + sig, out, []⟩
  | some (out, .other) => ⟨-1, out, []⟩

end AstraVeil.Daemon
