import AstraVeil.Lib.Finmap
import AstraVeil.Lib.Utf16

/-!
# Permissions and the file they are kept in

`core/permission/PermissionEngine.kt`, `core/config/ConfigManager.kt` and the calls of
`core/AstraCore.kt` that go through both: the grants in memory, and `astra_config.json`.

The file is kept as what reading it gives.  A text that was written whole decodes to what was
written, but for unpaired surrogates, which UTF-8 has no bytes for (`AstraConfig.readBack`); a text
that was cut short lacks the last brace and does not decode.  How a write ends is the environment's
choice (`SaveResult`), and `ConfigManager` says nothing of one that fails.

* `mem_list_grant`, `mem_list_revoke`, `list_erase`: what the engine's calls do to the grants;
* `list_readBack`: names without unpaired surrogates are read back.
-/

namespace AstraVeil.Core

open Utf16 Finmaps

/-! ### The permission engine -/

/-- `Map<String, PermissionSet>`. -/
abbrev Grants := Map JString (Finset JString)

/-- `PermissionEngine`. -/
structure PermissionEngine where
  granted : Grants
  dangerousApproval : Bool

/-- The permissions of a module. -/
def Grants.list (g : Grants) (moduleId : JString) : Finset JString := (g.lookup moduleId).getD ∅

/-- `dangerousPermissions`. -/
def dangerousPermissions : List JString :=
  ["mount", "su", "kernel_hook", "namespace"].map ofString

namespace PermissionEngine

/-- A new engine. -/
def empty : PermissionEngine := ⟨∅, false⟩

/-- `loadPermissions`. -/
def loadPermissions (e : PermissionEngine) (data : Grants) : PermissionEngine :=
  { e with granted := data }

/-- `dumpPermissions`. -/
def dumpPermissions (e : PermissionEngine) : Grants := e.granted

/-- `setDangerousApproval`. -/
def setDangerousApproval (e : PermissionEngine) (approved : Bool) : PermissionEngine :=
  { e with dangerousApproval := approved }

/-- `list`. -/
def list (e : PermissionEngine) (moduleId : JString) : Finset JString := e.granted.list moduleId

/-- `canExecute`. -/
def canExecute (e : PermissionEngine) (moduleId permission : JString) : Bool :=
  decide (permission ∈ e.list moduleId)

/-- `grant`. -/
def grant (e : PermissionEngine) (moduleId permission : JString) : PermissionEngine :=
  let current := e.list moduleId
  if permission ∈ current then e
  else { e with granted := e.granted.insert moduleId (insert permission current) }

/-- The policy of `request`. -/
def allows (e : PermissionEngine) (permission : JString) : Bool :=
  !(dangerousPermissions.contains permission && !e.dangerousApproval)

/-- `request`. -/
def request (e : PermissionEngine) (moduleId permission : JString) : Bool × PermissionEngine :=
  if e.allows permission then (true, e.grant moduleId permission) else (false, e)

/-- `revoke`; the key stays, with what is left. -/
def revoke (e : PermissionEngine) (moduleId permission : JString) : PermissionEngine :=
  match e.granted.lookup moduleId with
  | none => e
  | some current =>
      if permission ∈ current then
        { e with granted := e.granted.insert moduleId (current.erase permission) }
      else e

/-- `revokeAll`; the key goes. -/
def revokeAll (e : PermissionEngine) (moduleId : JString) : PermissionEngine :=
  { e with granted := e.granted.erase moduleId }

end PermissionEngine

/-! ### The configuration -/

/-- `AstraConfig`. -/
structure AstraConfig where
  daemonEnabled : Bool
  activeProvider : JString
  moduleAutoStart : Bool
  dangerousApproval : Bool
  logLevel : JString
  authorizedPackages : Grants

/-- `AstraConfig()`. -/
def AstraConfig.default : AstraConfig where
  daemonEnabled := false
  activeProvider := ofString "none"
  moduleAutoStart := true
  dangerousApproval := false
  logLevel := ofString "INFO"
  authorizedPackages := ∅

/-- Grants as they come back from the file. -/
def Grants.readBack (g : Grants) : Grants := rename mend (Finset.image mend) g

/-- A configuration as it comes back from the file. -/
def AstraConfig.readBack (c : AstraConfig) : AstraConfig :=
  { c with
    activeProvider := mend c.activeProvider
    logLevel := mend c.logLevel
    authorizedPackages := c.authorizedPackages.readBack }

/-- `astra_config.json`: missing, decodable, or not. -/
inductive ConfigFile
  | absent
  | holds (c : AstraConfig)
  | unparsable

/-- How the writing of a file ends: the file is replaced, is as it was, or its text was cut
short. -/
inductive SaveResult
  | ok
  | failed
  | torn
  deriving DecidableEq

namespace ConfigFile

/-- `readConfigLocked`. -/
def read : ConfigFile → AstraConfig
  | .holds c => c
  | .absent => AstraConfig.default
  | .unparsable => AstraConfig.default

/-- `writeConfigLocked`; an exception is swallowed. -/
def write (old : ConfigFile) (c : AstraConfig) : SaveResult → ConfigFile
  | .ok => .holds c.readBack
  | .failed => old
  | .torn => .unparsable

/-- `update`. -/
def update (file : ConfigFile) (block : AstraConfig → AstraConfig) (save : SaveResult) :
    ConfigFile :=
  file.write (block file.read) save

end ConfigFile

/-- What a restart finds of the file. -/
inductive Found
  | asWritten
  | truncated
  | unparsable

/-- The file that was found. -/
def Found.apply : Found → ConfigFile → ConfigFile
  | .asWritten, file => file
  | _, .absent => .absent
  | _, _ => .unparsable

/-! ### The facade -/

/-- `AstraCore`, with the file. -/
structure AstraCore where
  engine : PermissionEngine
  file : ConfigFile

/-- What `initialize` puts into a configuration without grants. -/
def defaultGrants : Grants :=
  ((∅ : Grants).insert (ofString "com.astraveil.sample")
      (["su", "namespace"].map ofString).toFinset).insert (ofString "com.android.shell")
    (["su", "namespace", "mount"].map ofString).toFinset

namespace AstraCore

/-- The grants that `initialize` puts into force: the default ones for a configuration without. -/
def grantsOf (cfg : AstraConfig) : Grants :=
  if cfg.authorizedPackages.entries.isEmpty then defaultGrants else cfg.authorizedPackages

/-- `initialize`; only the default grants are saved. -/
def initializeCore (core : AstraCore) (save : SaveResult) : AstraCore :=
  let cfg := core.file.read
  let engine := core.engine.setDangerousApproval cfg.dangerousApproval
  { engine := engine.loadPermissions (grantsOf cfg)
    file := if cfg.authorizedPackages.entries.isEmpty then
        core.file.write { cfg with authorizedPackages := defaultGrants } save
      else core.file }

/-- The grants in memory go to the file. -/
def persist (core : AstraCore) (save : SaveResult) : AstraCore :=
  { core with
    file := core.file.update (fun cfg =>
      { cfg with authorizedPackages := core.engine.dumpPermissions }) save }

/-- `updatePermission`. -/
def updatePermission (core : AstraCore) (moduleId permission : JString) (granted : Bool)
    (save : SaveResult) : AstraCore :=
  let engine := if granted then core.engine.grant moduleId permission
    else core.engine.revoke moduleId permission
  persist { core with engine := engine } save

/-- `requestAndPersistPermission`. -/
def requestAndPersistPermission (core : AstraCore) (moduleId permission : JString)
    (save : SaveResult) : Bool × AstraCore :=
  match core.engine.request moduleId permission with
  | (true, engine) => (true, persist { core with engine := engine } save)
  | (false, engine) => (false, { core with engine := engine })

end AstraCore

/-! ### What the calls do to the grants -/

theorem Grants.list_insert (g : Grants) (id id' : JString) (s : Finset JString) :
    Grants.list (g.insert id s) id' = if id' = id then s else g.list id' := by
  unfold Grants.list
  split_ifs with h
  · rw [h, AList.lookup_insert]
    rfl
  · rw [AList.lookup_insert_ne h]

theorem Grants.list_erase (g : Grants) (id id' : JString) :
    Grants.list (g.erase id) id' = if id' = id then ∅ else g.list id' := by
  unfold Grants.list
  split_ifs with h
  · rw [h, AList.lookup_erase]
    rfl
  · rw [AList.lookup_erase_ne h]

namespace PermissionEngine

variable {e : PermissionEngine} {id id' p p' : JString}

theorem mem_list_grant : p' ∈ (e.grant id p).list id' ↔ (id' = id ∧ p' = p) ∨ p' ∈ e.list id' := by
  unfold grant
  simp only
  by_cases hp : p ∈ e.list id
  · rw [if_pos hp]
    refine ⟨.inr, ?_⟩
    rintro (⟨rfl, rfl⟩ | h)
    · exact hp
    · exact h
  · rw [if_neg hp]
    show p' ∈ Grants.list (e.granted.insert id (insert p (e.list id))) id' ↔ _
    rw [Grants.list_insert]
    split_ifs with h
    · subst h
      rw [Finset.mem_insert]
      simp
    · simp [h, list]

theorem mem_list_revoke :
    p' ∈ (e.revoke id p).list id' ↔ ¬ (id' = id ∧ p' = p) ∧ p' ∈ e.list id' := by
  unfold revoke
  cases hl : e.granted.lookup id with
  | none =>
    simp only
    refine ⟨fun h => ⟨?_, h⟩, And.right⟩
    rintro ⟨rfl, rfl⟩
    rw [list, Grants.list, hl] at h
    simp at h
  | some current =>
    have hid : e.list id = current := by rw [list, Grants.list, hl]; rfl
    simp only
    split_ifs with hp
    · show p' ∈ Grants.list (e.granted.insert id (current.erase p)) id' ↔ _
      rw [Grants.list_insert]
      split_ifs with h
      · subst h
        rw [Finset.mem_erase, hid]
        simp
      · simp [h, list]
    · refine ⟨fun h => ⟨?_, h⟩, And.right⟩
      rintro ⟨rfl, rfl⟩
      exact hp (hid ▸ h)

theorem list_revokeAll : (e.revokeAll id).list id' = if id' = id then ∅ else e.list id' :=
  Grants.list_erase e.granted id id'

end PermissionEngine

theorem AstraCore.requestAndPersistPermission_eq (core : AstraCore) (id p : JString)
    (save : SaveResult) :
    core.requestAndPersistPermission id p save =
      if core.engine.allows p then
        (true, AstraCore.persist { core with engine := core.engine.grant id p } save)
      else (false, core) := by
  unfold AstraCore.requestAndPersistPermission PermissionEngine.request
  split_ifs <;> rfl

/-- A file that decodes is the one that was written. -/
theorem Found.file_eq {found : Found} {file : ConfigFile} {c : AstraConfig}
    (h : found.apply file = .holds c) : file = .holds c := by
  cases found with
  | asWritten => exact h
  | truncated => cases file <;> cases h
  | unparsable => cases file <;> cases h

/-! ### Names that survive the file -/

/-- The names in the grants have no unpaired surrogates. -/
def Grants.Plain (g : Grants) : Prop :=
  ∀ id s, g.lookup id = some s → hasUnpaired id = false ∧ ∀ p ∈ s, hasUnpaired p = false

theorem Grants.lookup_readBack {g : Grants} (h : g.Plain) (id : JString) :
    g.readBack.lookup id = g.lookup id := by
  refine lookup_rename (fun k s hk => ⟨mend_eq_self (h k s hk).1, ?_⟩) id
  have hfix : ∀ p ∈ s, mend p = p := fun p hp => mend_eq_self ((h k s hk).2 p hp)
  exact (Finset.image_congr hfix).trans Finset.image_id

theorem Grants.list_readBack {g : Grants} (h : g.Plain) (id : JString) :
    g.readBack.list id = g.list id := by
  rw [Grants.list, lookup_readBack h, Grants.list]

theorem Grants.Plain.readBack {g : Grants} (h : g.Plain) : g.readBack.Plain := fun id s hs =>
  h id s (by rw [← lookup_readBack h]; exact hs)

theorem Grants.Plain.insert {g : Grants} (h : g.Plain) {id : JString} {s : Finset JString}
    (hid : hasUnpaired id = false) (hs : ∀ p ∈ s, hasUnpaired p = false) :
    Grants.Plain (g.insert id s) := by
  intro k t hk
  by_cases he : k = id
  · subst he
    rw [AList.lookup_insert, Option.some.injEq] at hk
    exact hk ▸ ⟨hid, hs⟩
  · rw [AList.lookup_insert_ne he] at hk
    exact h k t hk

theorem Grants.plain_list {g : Grants} (h : g.Plain) {id p : JString} (hp : p ∈ g.list id) :
    hasUnpaired id = false ∧ hasUnpaired p = false := by
  unfold Grants.list at hp
  cases hl : g.lookup id with
  | none =>
    rw [hl] at hp
    simp at hp
  | some s =>
    rw [hl] at hp
    exact ⟨(h id s hl).1, (h id s hl).2 p hp⟩

end AstraVeil.Core
