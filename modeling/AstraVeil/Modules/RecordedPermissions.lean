import AstraVeil.Modules.Revocation

/-!
# The registry and the configuration file

The registry records what was granted to a module when it was installed, the configuration file what
the permission engine grants.  A restart reads both, and they are saved by different operations,
neither of which looks whether the other was.

* `Recorded`: what the running manager or the registry holds for a module;
* `SavedOk`: the steps that take nothing from the engine or the file which is recorded;
* `lasting_step`: they keep what is recorded in force and in the file;
* `along_revokeOk_of_savedOk`: so a restart finds the two in step, as `RevokeOk` needs it.
-/

namespace AstraVeil.Modules

open Utf16 KotlinString Finmaps AstraVeil.Core

namespace App

variable {Key : Type} {D : Device Key} {a : App} {m : Manager}

/-! ### What is recorded for a module -/

/-- The registry holds the permission for the module. -/
def RecordedOnDisk (registry : RegistryFile) (id p : JString) : Prop :=
  ∃ r, (persisted ⟨∅, registry⟩).lookup id = some r ∧ p ∈ r.grantedPermissions

/-- A saved registry holds what the manager does, or what it held before. -/
theorem recordedOnDisk_saved {m : Manager} {now : ℤ} {old : RegistryFile} {result : SaveResult}
    {id p : JString} (h : RecordedOnDisk (saved m now old result) id p) :
    m.Holds id p ∨ (result = .failed ∧ RecordedOnDisk old id p) := by
  cases result with
  | failed => exact .inr ⟨rfl, h⟩
  | torn =>
    obtain ⟨r, hr, -⟩ := h
    cases hr
  | ok =>
    obtain ⟨r, hr, hp⟩ := h
    have hlookup : (persisted ⟨∅, saved m now old .ok⟩).lookup id =
        (m.modules.lookup id).map (snapshotRecord m.persistentMeta now id) :=
      lookup_associateBy_entries (fun _ _ => rfl) m.modules id
    rw [hlookup] at hr
    obtain ⟨module, hmod, rfl⟩ := Option.map_eq_some_iff.1 hr
    exact .inl ⟨module, hmod, hp⟩

/-- The running manager or the registry holds the permission for the module. -/
def Recorded (a : App) (id p : JString) : Prop :=
  a.Holds id p ∨ RecordedOnDisk a.world.disk.registry id p

theorem Leads.of_recorded {w : World} {save : SaveResult} {Q : JString → JString → Prop}
    (h : Leads a w save Q) {a' : App} (hw : a'.world = w) {id p : JString}
    (hp : a'.Recorded id p) :
    Q id p ∨ (save = .failed ∧ RecordedOnDisk a.world.disk.registry id p) := by
  rcases hp with hp | hp
  · exact .inl (h.of_holds hw hp)
  · obtain ⟨m', now, -, hreg, hQ⟩ := h
    rw [hw, hreg] at hp
    exact (recordedOnDisk_saved hp).imp_left (hQ id p)

/-- The steps that take nothing away from the engine or the file which is recorded for a module:
only permissions that are not recorded are revoked, no save of an install fails, and a restart finds
a configuration it can read, unless the default grants cover what is recorded.  Names must be text
that the file can hold. -/
def SavedOk (a : App) : AppOp → Prop
  | .revoke id p => ¬ a.Recorded id p
  | .revokeAll id => ∀ p, ¬ a.Recorded id p
  | .updatePermission id p false _ => ¬ a.Recorded id p
  | .updatePermission id p true _ => hasUnpaired id = false ∧ hasUnpaired p = false
  | .requestAndPersistPermission id p _ => hasUnpaired id = false ∧ hasUnpaired p = false
  | .grant id p => hasUnpaired id = false ∧ hasUnpaired p = false
  | .install r _ _ => ∀ n, r.configSaves n ≠ .failed
  | .restart found _ _ => (∃ c, found.apply a.core.file = .holds c) ∨
      ∀ id p, RecordedOnDisk a.world.disk.registry id p → p ∈ defaultGrants.list id
  | _ => True

/-- The file, if it decodes, grants the permission to the module. -/
def InFile (file : ConfigFile) (id p : JString) : Prop :=
  ∀ c, file = .holds c → p ∈ c.authorizedPackages.list id

/-- The grant is in force and in the file. -/
def Secured (core : AstraCore) (id p : JString) : Prop :=
  p ∈ core.engine.list id ∧ InFile core.file id p

/-- The names in memory and in the file are text. -/
structure PlainCore (core : AstraCore) : Prop where
  engine : core.engine.granted.Plain
  file : ∀ c, core.file = .holds c → c.authorizedPackages.Plain

/-- What is recorded for a module is in the file, and in force while there is a process. -/
structure Lasting (a : App) : Prop where
  plain : PlainCore a.core
  inFile : ∀ id p, a.Recorded id p → InFile a.core.file id p
  inForce : ∀ m, a.world.process = some m → ∀ id p, a.Recorded id p → p ∈ a.core.engine.list id

theorem Lasting.secured (h : a.Lasting) (hm : a.world.process = some m) {id p : JString}
    (hr : a.Recorded id p) : Secured a.core id p := ⟨h.inForce m hm id p hr, h.inFile id p hr⟩

theorem lasting_of_secured (hplain : PlainCore a.core)
    (h : ∀ id p, a.Recorded id p → Secured a.core id p) : a.Lasting :=
  ⟨hplain, fun id p hr => (h id p hr).2, fun _ _ id p hr => (h id p hr).1⟩

theorem lasting_settle (h : a.Lasting) : a.settle.Lasting := by
  cases hp : a.world.process with
  | some m =>
    rw [settle_of_some hp]
    exact h
  | none =>
    unfold settle
    rw [hp]
    refine ⟨⟨History.plain_empty, h.plain.file⟩, h.inFile, fun m hm => ?_⟩
    rw [hp] at hm
    cases hm

/-! ### The core -/

section Core

variable {core : AstraCore} {id p : JString}

theorem plainCore_persist (h : PlainCore core) {e : PermissionEngine} (he : e.granted.Plain)
    (save : SaveResult) : PlainCore (AstraCore.persist { core with engine := e } save) where
  engine := he
  file c hc := by
    cases save with
    | ok =>
      obtain rfl := ConfigFile.holds.inj hc
      exact he.readBack
    | failed => exact h.file c hc
    | torn => cases hc

/-- What is saved is in the file; a save that fails needs it to have been there. -/
theorem secured_persist {e : PermissionEngine} (he : e.granted.Plain) (hp : p ∈ e.list id)
    {save : SaveResult} (hold : save = .failed → InFile core.file id p) :
    Secured (AstraCore.persist { core with engine := e } save) id p := by
  refine ⟨hp, fun c hc => ?_⟩
  cases save with
  | ok =>
    obtain rfl := ConfigFile.holds.inj hc
    have hlist := Grants.list_readBack he id
    exact hlist ▸ hp
  | failed => exact hold rfl c hc
  | torn => cases hc

/-- A request keeps what is secured, and secures what it grants if its save does not fail. -/
theorem request_spec (h : PlainCore core) (hid : hasUnpaired id = false)
    (hp : hasUnpaired p = false) (save : SaveResult) :
    PlainCore (core.requestAndPersistPermission id p save).2 ∧
      (∀ id' p', Secured core id' p' →
        Secured (core.requestAndPersistPermission id p save).2 id' p') ∧
      (save ≠ .failed → core.engine.allows p = true →
        Secured (core.requestAndPersistPermission id p save).2 id p) := by
  rw [AstraCore.requestAndPersistPermission_eq]
  split_ifs with ha
  · have hplain := History.plain_grant h.engine hid hp
    refine ⟨plainCore_persist h hplain save, fun id' p' hs => ?_, fun hsave _ => ?_⟩
    · exact secured_persist hplain (PermissionEngine.mem_list_grant.2 (.inr hs.1)) fun _ => hs.2
    · exact secured_persist hplain (PermissionEngine.mem_list_grant.2 (.inl ⟨rfl, rfl⟩))
        fun hf => absurd hf hsave
  · exact ⟨h, fun _ _ hs => hs, fun _ hc => absurd hc ha⟩

/-- The loop over the declared permissions does so for all of them. -/
theorem askAll_spec (ps : List JString) (h : PlainCore core) (hid : hasUnpaired id = false)
    (hps : ∀ p ∈ ps, hasUnpaired p = false) {saves : ℕ → SaveResult}
    (hsaves : ∀ n, saves n ≠ .failed) :
    PlainCore (askAll core id ps saves) ∧
      (∀ id' p', Secured core id' p' → Secured (askAll core id ps saves) id' p') ∧
      ∀ p ∈ ps, core.engine.allows p = true → Secured (askAll core id ps saves) id p := by
  induction ps generalizing core saves with
  | nil => exact ⟨h, fun _ _ hs => hs, nofun⟩
  | cons q ps ih =>
    obtain ⟨hq, hkeep, hnew⟩ := request_spec h hid (hps q List.mem_cons_self) (saves 0)
    obtain ⟨hplain, hkeep', hnew'⟩ := ih hq (fun p hp => hps p (List.mem_cons_of_mem _ hp))
      fun n => hsaves (n + 1)
    refine ⟨hplain, fun id' p' hs => hkeep' id' p' (hkeep id' p' hs), fun p hp ha => ?_⟩
    rcases List.mem_cons.1 hp with rfl | hp
    · exact hkeep' id p (hnew (hsaves 0) ha)
    · -- the policy does not change while the loop runs
      exact hnew' p hp (allows_requestAndPersist.trans ha)

theorem askSome_spec {ps : List JString} (h : PlainCore core) (hid : hasUnpaired id = false)
    (hps : ∀ p ∈ ps, hasUnpaired p = false) {saves : ℕ → SaveResult}
    (hsaves : ∀ n, saves n ≠ .failed) (asked : ℕ) (halfway : Bool) :
    PlainCore (askSome core id ps saves asked halfway) ∧
      ∀ id' p', Secured core id' p' →
        Secured (askSome core id ps saves asked halfway) id' p' := by
  obtain ⟨hplain, hkeep, -⟩ :=
    askAll_spec (ps.take asked) h hid (fun p hp => hps p (List.mem_of_mem_take hp)) hsaves
  unfold askSome
  simp only
  split
  · next p rest hdrop =>
    have hp : hasUnpaired p = false :=
      hps p (List.mem_of_mem_drop (by rw [hdrop]; exact List.mem_cons_self))
    unfold PermissionEngine.request
    split_ifs
    · refine ⟨⟨History.plain_grant hplain.engine hid hp, hplain.file⟩, fun id' p' hs => ?_⟩
      have hs' := hkeep id' p' hs
      exact ⟨PermissionEngine.mem_list_grant.2 (.inr hs'.1), hs'.2⟩
    · exact ⟨hplain, hkeep⟩
  · exact ⟨hplain, hkeep⟩

/-- What the file grants, or the default grants if it cannot be read, is in force after
`initialize`. -/
theorem mem_grantsOf {file : ConfigFile}
    (h : (∃ c, file = .holds c ∧ p ∈ c.authorizedPackages.list id) ∨
      (∀ c, file ≠ .holds c) ∧ p ∈ defaultGrants.list id) :
    p ∈ (AstraCore.grantsOf file.read).list id := by
  unfold AstraCore.grantsOf
  rcases h with ⟨c, rfl, hp⟩ | ⟨hno, hp⟩
  · rw [if_neg]
    · exact hp
    · intro hempty
      replace hempty : c.authorizedPackages.entries = [] := List.isEmpty_iff.1 hempty
      unfold Grants.list AList.lookup at hp
      rw [hempty] at hp
      simp at hp
  · rw [if_pos]
    · exact hp
    · cases file with
      | holds c => exact absurd rfl (hno c)
      | absent => rfl
      | unparsable => rfl

/-- `initialize` writes nothing but the default grants. -/
theorem file_initializeCore {c : AstraConfig} {save : SaveResult}
    (hc : (core.initializeCore save).file = .holds c) :
    core.file = .holds c ∨
      (core.file.read.authorizedPackages.entries.isEmpty = true ∧
        c.authorizedPackages = defaultGrants.readBack) := by
  unfold AstraCore.initializeCore at hc
  simp only at hc
  split_ifs at hc with hempty
  · cases save with
    | ok =>
      obtain rfl := ConfigFile.holds.inj hc
      exact .inr ⟨hempty, rfl⟩
    | failed => exact .inl hc
    | torn => cases hc
  · exact .inl hc

theorem plainCore_initializeCore (h : ∀ c, core.file = .holds c → c.authorizedPackages.Plain)
    (save : SaveResult) : PlainCore (core.initializeCore save) where
  engine := by
    show (AstraCore.grantsOf core.file.read).Plain
    unfold AstraCore.grantsOf
    split_ifs with hempty
    · exact History.plain_defaultGrants
    · cases hf : core.file with
      | holds c => exact h c hf
      | absent => exact absurd (by rw [hf]; rfl) hempty
      | unparsable => exact absurd (by rw [hf]; rfl) hempty
  file c hc := by
    rcases file_initializeCore hc with hold | ⟨-, hdef⟩
    · exact h c hold
    · rw [hdef]
      exact History.plain_defaultGrants.readBack

theorem secured_initializeCore
    (h : (∃ c, core.file = .holds c ∧ p ∈ c.authorizedPackages.list id) ∨
      (∀ c, core.file ≠ .holds c) ∧ p ∈ defaultGrants.list id) (save : SaveResult) :
    Secured (core.initializeCore save) id p := by
  have hforce := mem_grantsOf h
  refine ⟨hforce, fun c hc => ?_⟩
  rcases file_initializeCore hc with hold | ⟨hempty, hdef⟩
  · rcases h with ⟨c', hc', hp⟩ | ⟨hno, -⟩
    · obtain rfl := ConfigFile.holds.inj (hc'.symm.trans hold)
      exact hp
    · exact absurd hold (hno c)
  · rw [hdef, Grants.list_readBack History.plain_defaultGrants]
    rw [AstraCore.grantsOf, if_pos hempty] at hforce
    exact hforce

end Core

/-! ### The operations keep what is recorded -/

theorem plain_of_isModuleId {id : JString} (h : isModuleId id = true) : hasUnpaired id = false := by
  refine hasUnpaired_of_forall fun u hu => ?_
  -- the characters of an id are ASCII
  have hascii : u.toNat < 0x80 := by
    cases id with
    | nil => cases hu
    | cons v us =>
      simp only [isModuleId, isIdStart, Bool.and_eq_true, decide_eq_true_eq, List.all_eq_true,
        Bool.or_eq_true, beq_iff_eq] at h
      rcases List.mem_cons.1 hu with rfl | hu
      · omega
      · rcases h.2 u hu with ((h | rfl) | rfl) | rfl
        · omega
        · decide
        · decide
        · decide
  rw [Bool.or_eq_false_iff, ← Bool.not_eq_true, ← Bool.not_eq_true, isHigh_iff, isLow_iff]
  omega

theorem plain_of_supported {p : JString} (h : supportedPermissions.contains p = true) :
    hasUnpaired p = false := by
  have hall : ∀ q ∈ supportedPermissions, hasUnpaired q = false := by decide
  exact hall p (List.contains_iff_mem.1 h)

theorem plain_revokeAll {e : PermissionEngine} (h : e.granted.Plain) (id : JString) :
    (e.revokeAll id).granted.Plain := by
  intro id' s hs
  by_cases hid : id' = id
  · rw [hid] at hs
    exact absurd (hs.symm.trans (AList.lookup_erase id e.granted)) nofun
  · exact h id' s ((AList.lookup_erase_ne hid).symm.trans hs)

theorem lasting_transition (h : a.Lasting) (hm : a.world.process = some m) (id : JString)
    (target : ModuleState) (save : SaveResult) (crash : Bool) (now : ℤ)
    (loaded : Map JString LoadedHandle) :
    (settle { a with
      world := transition a.world m id target save crash now
      loaded := loaded }).Lasting := by
  obtain ⟨save', hl⟩ := leads_transition hm id target save crash now
  refine lasting_settle (lasting_of_secured h.plain fun id' p hr => h.secured hm ?_)
  rcases hl.of_recorded rfl hr with hold | ⟨-, hold⟩
  · exact .inl ⟨m, hm, hold⟩
  · exact .inr hold

theorem lasting_uninstall (h : a.Lasting) (hm : a.world.process = some m) (id : JString)
    (u : UninstallEnv) (configSave : SaveResult) :
    (a.afterUninstall D m id u configSave).Lasting := by
  obtain ⟨save', hl, hsave⟩ := leads_uninstall (D := D) hm id u
  have hold : ∀ {id' p}, App.Recorded { a with world := uninstall D a.world m id u } id' p →
      Secured a.core id' p ∧ (id ∈ m.modules → u.crash = none → u.save = .ok → id' ≠ id) := by
    intro id' p hr
    rcases hl.of_recorded rfl hr with ⟨hold, hne⟩ | ⟨hfailed, hold⟩
    · exact ⟨h.secured hm (.inl ⟨m, hm, hold⟩), fun hmem hcrash _ => hne hmem hcrash⟩
    · refine ⟨h.secured hm (.inr hold), fun hmem hcrash hok => ?_⟩
      rw [hsave hmem hcrash, hok] at hfailed
      cases hfailed
  refine lasting_settle ?_
  split_ifs with hdone
  · have hplain := plain_revokeAll h.plain.engine id
    refine lasting_of_secured (plainCore_persist h.plain hplain configSave) fun id' p hr => ?_
    obtain ⟨hs, hne⟩ := hold hr
    refine secured_persist hplain ?_ fun _ => hs.2
    rw [PermissionEngine.list_revokeAll, if_neg (hne hdone.1 hdone.2.1 hdone.2.2)]
    exact hs.1
  · exact lasting_of_secured h.plain fun id' p hr => (hold hr).1

theorem coreAfterInstall_spec (h : PlainCore a.core) {r : InstallRequest}
    (hsaves : ∀ n, r.configSaves n ≠ .failed) (asked : ℕ) (halfway : Bool) :
    PlainCore (a.coreAfterInstall D m r asked halfway) ∧
      ∀ id p, Secured a.core id p → Secured (a.coreAfterInstall D m r asked halfway) id p := by
  have hsame : PlainCore a.core ∧ ∀ id p, Secured a.core id p → Secured a.core id p :=
    ⟨h, fun _ _ hs => hs⟩
  unfold coreAfterInstall
  split
  · next tree module record report save crash ho =>
    have hreg := registered_spec ho
    obtain ⟨hplain, hkeep, -⟩ := askAll_spec _ h (plain_of_isModuleId hreg.safeId)
      (fun p hp => plain_of_supported (hreg.supported p hp)) hsaves
    exact ⟨hplain, hkeep⟩
  · split
    · split
      · next tree module record report save crash ho =>
        have hreg := registered_spec ho
        exact askSome_spec h (plain_of_isModuleId hreg.safeId)
          (fun p hp => plain_of_supported (hreg.supported p hp)) hsaves asked halfway
      · exact hsame
    · exact hsame

theorem lasting_install (h : a.Lasting) (hm : a.world.process = some m) {r : InstallRequest}
    (hsaves : ∀ n, r.configSaves n ≠ .failed) (asked : ℕ) (halfway : Bool) :
    (a.afterInstall D m r asked halfway).Lasting := by
  obtain ⟨save', hl⟩ := leads_install (D := D) hm r r.now
  obtain ⟨hplain, hkeep⟩ :=
    coreAfterInstall_spec (D := D) (m := m) h.plain hsaves asked halfway
  refine lasting_settle (lasting_of_secured hplain fun id p hr => ?_)
  rcases hl.of_recorded rfl hr with
    (hold | ⟨tree, module, record, report, save, crash, ho, rfl, hnew⟩) | ⟨-, hold⟩
  · exact hkeep id p (h.secured hm (.inl ⟨m, hm, hold⟩))
  · have hreg := registered_spec ho
    have hask : a.coreAfterInstall D m r asked halfway =
        askAll a.core module.id module.manifest.permissions r.configSaves := by
      unfold coreAfterInstall
      rw [ho]
    rw [hreg.granted, List.mem_toFinset, List.mem_filter] at hnew
    show Secured (a.coreAfterInstall D m r asked halfway) module.id p
    rw [hask]
    exact (askAll_spec _ h.plain (plain_of_isModuleId hreg.safeId)
      (fun q hq => plain_of_supported (hreg.supported q hq)) hsaves).2.2 p hnew.1 hnew.2
  · exact hkeep id p (h.secured hm (.inr hold))

/-- What the registry records is what `initialize` finds. -/
theorem found_of_lasting (h : a.Lasting) {found : Found}
    (hok : (∃ c, found.apply a.core.file = .holds c) ∨
      ∀ id p, RecordedOnDisk a.world.disk.registry id p → p ∈ defaultGrants.list id)
    {id p : JString} (hr : RecordedOnDisk a.world.disk.registry id p) :
    (∃ c, found.apply a.core.file = .holds c ∧ p ∈ c.authorizedPackages.list id) ∨
      (∀ c, found.apply a.core.file ≠ .holds c) ∧ p ∈ defaultGrants.list id := by
  by_cases hread : ∃ c, found.apply a.core.file = .holds c
  · obtain ⟨c, hc⟩ := hread
    exact .inl ⟨c, hc, h.inFile id p (.inr hr) c (Found.file_eq hc)⟩
  · exact .inr ⟨fun c hc => hread ⟨c, hc⟩, (hok.resolve_left hread) id p hr⟩

theorem recordedOnDisk_iff {disk : Disk} {id p : JString} :
    RecordedOnDisk disk.registry id p ↔
      ∃ r, (persisted disk).lookup id = some r ∧ p ∈ r.grantedPermissions := by
  have hsame : persisted ⟨∅, disk.registry⟩ = persisted disk := persisted_congr rfl
  unfold RecordedOnDisk
  rw [hsame]

/-- A new process holds what the registry does. -/
theorem recorded_restart {found : Found} {lastModified : JString → ℤ} {configSave : SaveResult}
    {id p : JString} (hr : (a.afterRestart D found lastModified configSave).Recorded id p) :
    RecordedOnDisk a.world.disk.registry id p := by
  rcases hr with ⟨m', hm', module, hl, hp⟩ | hr
  · obtain rfl := Option.some.inj hm'
    obtain ⟨-, ⟨r, hr, hres⟩ | ⟨-, hnone⟩⟩ := restored_cases hl
    · rw [(restore_spec hres).2.2.2] at hp
      exact recordedOnDisk_iff.2 ⟨r, hr, hp⟩
    · rw [hnone] at hp
      simp at hp
  · -- a registry that does not decode is moved away
    replace hr : RecordedOnDisk a.world.disk.readFromDisk.2.registry id p := hr
    unfold Disk.readFromDisk at hr
    cases hreg : a.world.disk.registry with
    | absent => simpa only [hreg] using hr
    | records rs => simpa only [hreg] using hr
    | torn =>
      simp only [hreg] at hr
      obtain ⟨r, hr, -⟩ := hr
      cases hr

theorem lasting_restart (h : a.Lasting) {found : Found} {lastModified : JString → ℤ}
    {configSave : SaveResult} (hok : a.SavedOk (.restart found lastModified configSave)) :
    (a.afterRestart D found lastModified configSave).Lasting := by
  refine lasting_of_secured (plainCore_initializeCore (fun c hc => ?_) configSave)
    fun id p hr => secured_initializeCore ?_ configSave
  · exact h.plain.file c (Found.file_eq hc)
  · exact found_of_lasting h hok (recorded_restart hr)

/-- The engine keeps what is recorded; whether it is saved does not matter. -/
theorem lasting_engine (h : a.Lasting) (hm : a.world.process = some m) {e : PermissionEngine}
    (hplain : e.granted.Plain)
    (hkeep : ∀ id p, a.Recorded id p → p ∈ a.core.engine.list id → p ∈ e.list id)
    (save : SaveResult) :
    App.Lasting { a with core := { a.core with engine := e } } ∧
      App.Lasting { a with core := AstraCore.persist { a.core with engine := e } save } := by
  have hforce : ∀ id p, a.Recorded id p → p ∈ e.list id := fun id p hr =>
    hkeep id p hr (h.inForce m hm id p hr)
  constructor
  · exact ⟨⟨hplain, h.plain.file⟩, h.inFile, fun _ _ => hforce⟩
  · exact lasting_of_secured (plainCore_persist h.plain hplain save) fun id p hr =>
      secured_persist hplain (hforce id p hr) fun _ => h.inFile id p hr

theorem keep_grant {e : PermissionEngine} (id p : JString) :
    ∀ id' p', a.Recorded id' p' → p' ∈ e.list id' → p' ∈ (e.grant id p).list id' :=
  fun _ _ _ hp => PermissionEngine.mem_list_grant.2 (.inr hp)

theorem keep_revoke {e : PermissionEngine} {id p : JString} (hok : ¬ a.Recorded id p) :
    ∀ id' p', a.Recorded id' p' → p' ∈ e.list id' → p' ∈ (e.revoke id p).list id' := by
  intro id' p' hr hp
  refine PermissionEngine.mem_list_revoke.2 ⟨?_, hp⟩
  rintro ⟨rfl, rfl⟩
  exact hok hr

theorem lasting_step (D : Device Key) (h : a.Lasting) {op : AppOp} (hok : a.SavedOk op) :
    (a.step D op).Lasting := by
  unfold step
  cases hm : a.world.process with
  | none =>
    cases op with
    | restart found lastModified configSave => exact lasting_restart h hok
    | _ => exact h
  | some m =>
    cases op with
    | install r asked halfway => exact lasting_install h hm hok asked halfway
    | uninstall id u configSave => exact lasting_uninstall h hm id u configSave
    | enable id save crash now =>
      exact lasting_transition h hm id .enabled save crash now a.loaded
    | disable id save crash now =>
      exact lasting_transition h hm id .disabled save crash now a.loaded
    | start id outside maps save crash now =>
      show (a.afterStart D m id outside maps save crash now).Lasting
      unfold afterStart
      split
      · exact h
      · split
        · exact h
        · exact lasting_transition h hm id .running save crash now _
    | stop id save crash now => exact lasting_transition h hm id .enabled save crash now _
    | restart found lastModified configSave => exact lasting_restart h hok
    | updatePermission id p granted save =>
      cases granted with
      | true =>
        exact (lasting_engine h hm (History.plain_grant h.plain.engine hok.1 hok.2)
          (keep_grant id p) save).2
      | false =>
        exact (lasting_engine h hm (History.plain_revoke h.plain.engine id p)
          (keep_revoke hok) save).2
    | requestAndPersistPermission id p save =>
      obtain ⟨hplain, hkeep, -⟩ := request_spec h.plain hok.1 hok.2 save
      exact lasting_of_secured hplain fun id' p' hr => hkeep id' p' (h.secured hm hr)
    | grant id p =>
      exact (lasting_engine h hm (History.plain_grant h.plain.engine hok.1 hok.2)
        (keep_grant id p) .ok).1
    | revoke id p =>
      exact (lasting_engine h hm (History.plain_revoke h.plain.engine id p)
        (keep_revoke hok) .ok).1
    | revokeAll id =>
      refine (lasting_engine h hm (plain_revokeAll h.plain.engine id) (fun id' p hr hp => ?_)
        .ok).1
      rw [PermissionEngine.list_revokeAll, if_neg]
      · exact hp
      · rintro rfl
        exact hok p hr

/-- Such a step meets the exact condition. -/
theorem revokeOk_of_savedOk (h : a.Lasting) {op : AppOp} (hok : a.SavedOk op) :
    RevokeOk D a op := by
  cases op with
  | revoke id p => exact fun hp => hok (.inl hp)
  | revokeAll id => exact fun p hp => hok p (.inl hp)
  | updatePermission id p granted save =>
    cases granted with
    | true => exact trivial
    | false => exact fun hp => hok (.inl hp)
  | restart found lastModified configSave =>
    intro id r hr _ p hp
    exact mem_grantsOf (found_of_lasting h hok (recordedOnDisk_iff.2 ⟨r, hr, hp⟩))
  | _ => exact trivial

theorem lasting_initial (configSave : SaveResult) : (initial configSave).Lasting := by
  refine lasting_of_secured (plainCore_initializeCore (fun c hc => by cases hc) configSave) ?_
  rintro id p (⟨m, hm, module, hl, -⟩ | ⟨r, hr, -⟩)
  · obtain rfl := Option.some.inj hm
    cases hl
  · cases hr

/-- **Where no save of an install fails and every restart can read the configuration, the two copies
on the disk stay together**: every run whose steps take only permissions that are not recorded meets
the exact condition. -/
theorem along_revokeOk_of_savedOk (D : Device Key) {configSave : SaveResult} {ops : List AppOp}
    (h : Runs.Along (step D) SavedOk (initial configSave) ops) :
    Runs.Along (step D) (RevokeOk D) (initial configSave) ops :=
  Runs.along_of_invariant (I := Lasting)
    (fun _ _ hl hok => ⟨revokeOk_of_savedOk hl hok, lasting_step D hl hok⟩)
    (lasting_initial configSave) h

end App

end AstraVeil.Modules
