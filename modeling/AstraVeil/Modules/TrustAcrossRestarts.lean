import AstraVeil.Modules.InstallExits

/-!
# The trust gate across restarts

The gate stands in `install`, but the map of modules is also rebuilt from the registry file and
from the directories on the disk.  `Inv` ties the three together: the modules of a running manager
are the directories with a valid `module.json`, each of them is in the registry with the path and
the permissions the manager holds, and each was put there by an install that passed the gate.

* `Fits`, `installOutcome_fits`: what an outcome of `install` says about its directory;
* `held_restart`: a restart gives back what the disk shows;
* `inv_step`: every operation keeps the invariant, unless it leaves a directory with a valid
  `module.json` that no completed install stands for, or destroys the registry file (`StepOk`);
* `trusted_across_restarts`: the resulting law over all runs.
-/

namespace AstraVeil.Modules

open Utf16 KotlinString Finmaps AstraVeil.Core

variable {Key : Type} {D : Device Key} {w : World} {m : Manager}

/-! ### Outcomes of an install -/

/-- What an outcome of `install` says about the directory it leaves. -/
def Fits (D : Device Key) (installed : JString → Bool) : Outcome → Prop
  | .refused _ => True
  | .cleared id _ _ _ => installed id = false
  | .left id _ _ _ => installed id = false
  | .registered tree module _ report _ _ =>
      installed module.id = false ∧ module.installPath = pathOf D module.id ∧
        report.signatureStatus = .verified ∧ (manifestOf D tree).isSome = true

theorem register_fits {r : InstallRequest} {installed : JString → Bool} {manifest : ModuleManifest}
    {report : TrustReport} {level : TrustLevel} {tree : FileTree}
    (hi : installed manifest.name = false) (hr : report.signatureStatus = .verified)
    (ht : (manifestOf D tree).isSome = true) :
    Fits D installed (register D r manifest report level tree) := by
  unfold register
  simp only
  split
  · exact hi
  · split
    · exact ⟨hi, rfl, hr, ht⟩
    · exact ⟨hi, rfl, hr, ht⟩

theorem installLocked_fits {r : InstallRequest} {installed : JString → Bool}
    {old : Option FileTree} {zip : ZipFile} {manifest : ModuleManifest} {report : TrustReport}
    {level : TrustLevel} (hr : report.signatureStatus = .verified) :
    Fits D installed
      (installLocked D r (installed manifest.name) old zip manifest report level) := by
  unfold installLocked
  simp only
  cases hi : installed manifest.name with
  | true => exact trivial
  | false =>
    rw [if_neg Bool.false_ne_true]
    split
    · exact hi
    · split
      · exact hi
      · exact hi
      · exact hi
      · split
        · exact hi
        · cases hv : validatePackage D _ r.outside with
          | none => exact hi
          | some mf =>
            refine register_fits hi hr ?_
            rw [manifestOf_of_validatePackage hv]
            rfl

theorem installOutcome_fits (r : InstallRequest) (installed : JString → Bool)
    (old : JString → Option FileTree) : Fits D installed (installOutcome D r installed old) := by
  rcases installOutcome_cases D r installed old with ⟨e, he⟩ | ⟨zip, manifest, level, hadm, he⟩
  · rw [he]
    exact trivial
  · rw [he]
    exact installLocked_fits (TrustReport.verified_of_isInstallable hadm.trusted)

/-! ### What the disk shows -/

/-- The records of the registry file, by id. -/
def persisted (disk : Disk) : Map JString ModuleRecord := disk.readFromDisk.1

/-- The directory of `id` has a valid `module.json`. -/
def Valid (D : Device Key) (disk : Disk) (id : JString) : Prop :=
  ∃ tree, disk.dirs.lookup id = some tree ∧ (manifestOf D tree).isSome = true

/-- The install path and permissions that the disk shows for `id`. -/
def Shows (D : Device Key) (disk : Disk) (id : JString) (v : JString × Finset JString) : Prop :=
  Valid D disk id ∧ ∃ r, (persisted disk).lookup id = some r ∧
    v = (r.installPath, r.grantedPermissions)

/-- The install path and permissions that the manager holds for `id`. -/
def held (m : Manager) (id : JString) : Option (JString × Finset JString) :=
  (m.modules.lookup id).map fun module => (module.installPath, module.grantedPermissions)

/-- The ledger has a verified install of `id`. -/
def Vouched (w : World) (id : JString) : Prop :=
  ∃ report, w.ledger.lookup id = some report ∧ report.signatureStatus = .verified

/-- The manager, the registry and the directories fit together. -/
structure Inv (D : Device Key) (w : World) : Prop where
  /-- The registry file decodes. -/
  readable : w.disk.registry ≠ .torn
  /-- Records name the directory of their module. -/
  path : ∀ id r, (persisted w.disk).lookup id = some r → r.installPath = pathOf D id
  /-- A directory that can come back as a module stands for a verified install. -/
  known : ∀ id, Valid D w.disk id → Vouched w id ∧ ∃ r, (persisted w.disk).lookup id = some r
  /-- The manager holds what the disk shows. -/
  shown : ∀ m, w.process = some m → ∀ id v, held m id = some v ↔ Shows D w.disk id v

theorem mem_iff_held {id : JString} : id ∈ m.modules ↔ ∃ v, held m id = some v := by
  rw [mem_iff_exists]
  unfold held
  cases m.modules.lookup id <;> simp

theorem Inv.mem_iff (h : Inv D w) (hm : w.process = some m) {id : JString} :
    id ∈ m.modules ↔ Valid D w.disk id := by
  rw [mem_iff_held]
  constructor
  · rintro ⟨v, hv⟩
    exact ((h.shown m hm id v).1 hv).1
  · intro hvalid
    obtain ⟨-, r, hr⟩ := h.known id hvalid
    exact ⟨_, (h.shown m hm id _).2 ⟨hvalid, r, hr, rfl⟩⟩

theorem Inv.installPath (h : Inv D w) (hm : w.process = some m) {id : JString}
    {module : AstraModule} (hid : m.modules.lookup id = some module) :
    module.installPath = pathOf D id := by
  have hheld : held m id = some (module.installPath, module.grantedPermissions) := by
    rw [held, hid]; rfl
  obtain ⟨-, r, hr, hv⟩ := (h.shown m hm id _).1 hheld
  exact (congrArg Prod.fst hv).trans (h.path id r hr)

theorem persisted_congr {disk disk' : Disk} (h : disk'.registry = disk.registry) :
    persisted disk' = persisted disk := by
  unfold persisted Disk.readFromDisk
  rw [h]
  cases disk.registry <;> rfl

/-- The registry file stays; the directories and the manager change together. -/
theorem Inv.congr {w' : World} (h : Inv D w) (hreg : w'.disk.registry = w.disk.registry)
    (hsub : ∀ id, Valid D w'.disk id → Valid D w.disk id)
    (hledger : ∀ id, Valid D w'.disk id → Vouched w id → Vouched w' id)
    (hheld : ∀ m', w'.process = some m' → ∃ m, w.process = some m ∧
      ∀ id v, held m' id = some v ↔ held m id = some v ∧ Valid D w'.disk id) :
    Inv D w' := by
  have hper : persisted w'.disk = persisted w.disk := persisted_congr hreg
  refine ⟨by rw [hreg]; exact h.readable, by rw [hper]; exact h.path, ?_, ?_⟩
  · intro id hv
    obtain ⟨hvouch, hrec⟩ := h.known id (hsub id hv)
    exact ⟨hledger id hv hvouch, by rw [hper]; exact hrec⟩
  · intro m' hm' id v
    obtain ⟨m, hm, hsame⟩ := hheld m' hm'
    rw [hsame id v, h.shown m hm id v, Shows, Shows, hper]
    exact ⟨fun hv => ⟨hv.2, hv.1.2⟩, fun hv => ⟨⟨hsub id hv.1, hv.2⟩, hv.1⟩⟩

/-- The process died; the registry file stays and no directory was added. -/
theorem Inv.dead {w' : World} (h : Inv D w) (hreg : w'.disk.registry = w.disk.registry)
    (hproc : w'.process = none) (hledger : w'.ledger = w.ledger)
    (hsub : ∀ id, Valid D w'.disk id → Valid D w.disk id) : Inv D w' := by
  refine h.congr hreg hsub (fun id _ hv => ?_) fun m' hm' => ?_
  · unfold Vouched
    rw [hledger]
    exact hv
  · rw [hproc] at hm'
    cases hm'

/-- After a `save` that succeeded. -/
theorem inv_of_saved {dirs : Map JString FileTree} {m : Manager} {now : ℤ}
    {process : Option Manager} {ledger : Map JString TrustReport}
    (hproc : process = some m ∨ process = none)
    (hpath : ∀ id module, m.modules.lookup id = some module → module.installPath = pathOf D id)
    (hvalid : ∀ id, id ∈ m.modules ↔ Valid D ⟨dirs, .records (m.snapshotRecords now)⟩ id)
    (hvouch : ∀ id, id ∈ m.modules →
      ∃ report, ledger.lookup id = some report ∧ report.signatureStatus = .verified) :
    Inv D ⟨⟨dirs, .records (m.snapshotRecords now)⟩, process, ledger⟩ := by
  have hper : ∀ id, (persisted ⟨dirs, .records (m.snapshotRecords now)⟩).lookup id =
      (m.modules.lookup id).map (snapshotRecord m.persistentMeta now id) := fun id =>
    lookup_associateBy_entries (fun _ _ => rfl) m.modules id
  refine ⟨by simp, ?_, ?_, ?_⟩
  · intro id r hr
    rw [hper] at hr
    obtain ⟨module, hmod, rfl⟩ := Option.map_eq_some_iff.1 hr
    exact hpath id module hmod
  · intro id hv
    have hmem := (hvalid id).2 hv
    obtain ⟨module, hmod⟩ := mem_iff_exists.1 hmem
    exact ⟨hvouch id hmem, _, by rw [hper, hmod]; rfl⟩
  · intro m' hm' id v
    obtain rfl : m = m' := by
      rcases hproc with h | h
      · exact Option.some.inj (h.symm.trans hm')
      · rw [h] at hm'; cases hm'
    unfold Shows
    rw [← hvalid id, hper, held]
    cases hmod : m.modules.lookup id with
    | none => simp
    | some module =>
      have hmem : id ∈ m.modules := mem_iff_exists.2 ⟨module, hmod⟩
      simp [hmem, snapshotRecord, eq_comm]

/-! ### Restart -/

theorem pathOf_inj {a b : JString} : pathOf D a = pathOf D b ↔ a = b := by
  unfold pathOf
  simp

theorem dirAt_pathOf (disk : Disk) (id : JString) :
    disk.dirAt D (pathOf D id) = disk.dirs.lookup id := by
  rw [Disk.dirAt, lookup_eq_find?]
  simp only [pathOf_inj]

theorem readFromDisk_of_readable {disk : Disk} (h : disk.registry ≠ .torn) :
    disk.readFromDisk = (persisted disk, disk) := by
  unfold persisted Disk.readFromDisk
  cases hr : disk.registry with
  | absent => rfl
  | records rs => rfl
  | torn => exact absurd hr h

/-- Every record that `load` returns names its own directory, which exists. -/
theorem lookup_load (h : Inv D w) (lastModified : JString → ℤ) {id : JString} {r : ModuleRecord}
    (hr : (w.disk.load D lastModified).1.lookup id = some r) : r.installPath = pathOf D id := by
  unfold Disk.load at hr
  rw [readFromDisk_of_readable h.readable] at hr
  simp only [lookup_fill, lookup_collect, Option.or_eq_some_iff] at hr
  rcases hr with hr | ⟨-, hr⟩
  · obtain ⟨r', hr', hif⟩ := Option.bind_eq_some_iff.1 hr
    split_ifs at hif
    obtain rfl := Option.some.inj hif
    exact h.path id r' hr'
  · split_ifs at hr
    obtain rfl := Option.some.inj hr
    rfl

/-- A valid directory comes back with its record. -/
theorem lookup_load_of_valid (h : Inv D w) (lastModified : JString → ℤ) {id : JString}
    {r : ModuleRecord} (hv : Valid D w.disk id) (hr : (persisted w.disk).lookup id = some r) :
    (w.disk.load D lastModified).1.lookup id = some r := by
  obtain ⟨tree, htree, -⟩ := hv
  unfold Disk.load
  rw [readFromDisk_of_readable h.readable]
  simp only [lookup_fill, lookup_collect, hr, Option.bind_some, h.path id r hr, dirAt_pathOf, htree,
    Option.isSome_some, if_true, Option.some_or]

theorem load_disk (h : Inv D w) (lastModified : JString → ℤ) :
    (w.disk.load D lastModified).2 = w.disk := by
  unfold Disk.load
  rw [readFromDisk_of_readable h.readable]

theorem restore_eq_some {disk : Disk} {id : JString} {r : ModuleRecord} {module : AstraModule}
    (hp : r.installPath = pathOf D id) :
    restore D disk id r = some module →
      Valid D disk id ∧ module.installPath = r.installPath ∧
        module.grantedPermissions = r.grantedPermissions := by
  intro h
  unfold restore at h
  rw [hp, dirAt_pathOf] at h
  cases htree : disk.dirs.lookup id with
  | none => rw [htree] at h; cases h
  | some tree =>
    rw [htree] at h
    simp only at h
    cases hman : manifestOf D tree with
    | none => rw [hman] at h; cases h
    | some manifest =>
      rw [hman] at h
      obtain rfl := Option.some.inj h
      exact ⟨⟨tree, htree, by rw [hman]; rfl⟩, hp.symm, rfl⟩

theorem restore_isSome {disk : Disk} {id : JString} {r : ModuleRecord}
    (hp : r.installPath = pathOf D id) (hv : Valid D disk id) :
    ∃ module, restore D disk id r = some module := by
  obtain ⟨tree, htree, hman⟩ := hv
  obtain ⟨manifest, hman⟩ := Option.isSome_iff_exists.1 hman
  unfold restore
  rw [hp, dirAt_pathOf, htree]
  simp only [hman]
  exact ⟨_, rfl⟩

/-- A restart holds what the disk shows. -/
theorem held_restart (h : Inv D w) (lastModified : JString → ℤ) (id : JString)
    (v : JString × Finset JString) :
    held (init D w.disk lastModified).1 id = some v ↔ Shows D w.disk id v := by
  have hmodules : (init D w.disk lastModified).1.modules.lookup id =
      ((w.disk.load D lastModified).1.lookup id).bind (restore D w.disk id) := by
    have hinit : (init D w.disk lastModified).1.modules =
        collect (restore D (w.disk.load D lastModified).2) (w.disk.load D lastModified).1 := rfl
    rw [hinit, load_disk h, lookup_collect]
  rw [held, hmodules, Option.map_eq_some_iff]
  constructor
  · rintro ⟨module, hmod, rfl⟩
    obtain ⟨r, hr, hres⟩ := Option.bind_eq_some_iff.1 hmod
    obtain ⟨hv, hp, hg⟩ := restore_eq_some (lookup_load h lastModified hr) hres
    obtain ⟨-, r', hr'⟩ := h.known id hv
    have hsame : r = r' :=
      Option.some.inj (hr.symm.trans (lookup_load_of_valid h lastModified hv hr'))
    exact ⟨hv, r', hr', by rw [hp, hg, hsame]⟩
  · rintro ⟨hv, r, hr, rfl⟩
    obtain ⟨module, hres⟩ := restore_isSome (h.path id r hr) hv
    obtain ⟨-, hp, hg⟩ := restore_eq_some (h.path id r hr) hres
    refine ⟨module, ?_, by rw [hp, hg]⟩
    rw [lookup_load_of_valid h lastModified hv hr, Option.bind_some, hres]

theorem inv_restart (h : Inv D w) (lastModified : JString → ℤ) :
    Inv D (restart D w lastModified) := by
  have hdisk : (restart D w lastModified).disk = w.disk := load_disk h lastModified
  refine ⟨by rw [hdisk]; exact h.readable, by rw [hdisk]; exact h.path, ?_, ?_⟩
  · rw [hdisk]; exact h.known
  · intro m' hm' id v
    obtain rfl : (init D w.disk lastModified).1 = m' := Option.some.inj hm'
    rw [hdisk]
    exact held_restart h lastModified id v

/-! ### The operations -/

/-- The operation does not leave a directory with a valid `module.json` behind that no completed
install stands for, and does not destroy the registry file.  An install that is admitted and not
refused under the mutex has to meet `LeavesNothing`, on what is left of an older directory. -/
def StepOk (D : Device Key) (w : World) : Op → Prop
  | .install r => ∀ m, w.process = some m → ∀ zip manifest, Admitted D r zip manifest →
      manifest.name ∉ m.modules → Prepares r → zip.entries.length ≤ maxEntries →
      LeavesNothing D r (r.target (w.disk.dirs.lookup manifest.name)) zip
  | .uninstall _ u => u.crash = none ∨ u.crash = some .inSave →
      u.save ≠ .torn ∧ ∀ keep, u.survivors = some keep → keep manifestPath = false
  | .enable _ save _ _ => save ≠ .torn
  | .disable _ save _ _ => save ≠ .torn
  | .restart _ => True

theorem alive_cases (crash : Bool) (m : Manager) :
    alive crash m = some m ∨ alive crash m = none := by
  cases crash
  · exact Or.inl rfl
  · exact Or.inr rfl

theorem eq_of_alive {crash : Bool} {m m' : Manager} (h : alive crash m = some m') : m = m' := by
  cases crash
  · exact Option.some.inj h
  · cases h

theorem lookup_setDir (dirs : Map JString FileTree) (id : JString) (rest : Option FileTree) :
    (setDir dirs id rest).lookup id = rest := by
  cases rest with
  | some tree => exact AList.lookup_insert _
  | none => exact AList.lookup_erase id dirs

theorem lookup_setDir_ne (dirs : Map JString FileTree) {id k : JString} (hk : k ≠ id)
    (rest : Option FileTree) : (setDir dirs id rest).lookup k = dirs.lookup k := by
  cases rest with
  | some tree => exact AList.lookup_insert_ne hk
  | none => exact AList.lookup_erase_ne hk

/-- Changing the directory of an id that is not installed to one that is not valid. -/
theorem inv_of_stray (h : Inv D w) {m : Manager} (hm : w.process = some m) {id : JString}
    (hid : id ∉ m.modules) {dirs : Map JString FileTree} {crash : Bool}
    (hsame : ∀ k, k ≠ id → dirs.lookup k = w.disk.dirs.lookup k)
    (hstray : ∀ tree, dirs.lookup id = some tree → (manifestOf D tree).isSome = false) :
    Inv D { w with disk := { w.disk with dirs := dirs }, process := alive crash m } := by
  have hvalid : ∀ k, Valid D { w.disk with dirs := dirs } k ↔ Valid D w.disk k := by
    intro k
    by_cases hk : k = id
    · subst hk
      refine iff_of_false ?_ fun hv => hid ((h.mem_iff hm).2 hv)
      rintro ⟨tree, htree, hman⟩
      rw [hstray tree htree] at hman
      cases hman
    · unfold Valid
      rw [hsame k hk]
  refine h.congr rfl (fun k => (hvalid k).1) (fun _ _ hv => hv) ?_
  intro m' hm'
  obtain rfl : m = m' := eq_of_alive hm'
  refine ⟨m, hm, fun k v => ⟨fun hv => ⟨hv, ?_⟩, fun hv => hv.1⟩⟩
  exact (hvalid k).2 ((h.mem_iff hm).1 (mem_iff_held.2 ⟨v, hv⟩))

theorem inv_install (h : Inv D w) (hm : w.process = some m) {now : ℤ} {o : Outcome}
    (hfit : Fits D (fun id => decide (id ∈ m.modules)) o)
    (hok : Tidy D o) : Inv D (install w m now o) := by
  cases o with
  | refused e => exact h
  | cleared id rest crash e =>
    refine inv_of_stray h hm (of_decide_eq_false hfit) (fun k hk => lookup_setDir_ne _ hk rest) ?_
    intro tree htree
    rw [lookup_setDir] at htree
    rw [hok tree htree]
    rfl
  | left id tree crash e =>
    refine inv_of_stray h hm (of_decide_eq_false hfit) (fun k hk => AList.lookup_insert_ne hk) ?_
    intro tree' htree
    rw [AList.lookup_insert] at htree
    cases htree
    rw [show manifestOf D tree = none from hok]
    rfl
  | registered tree module record report save crash =>
    obtain ⟨rfl, rfl⟩ := hok
    obtain ⟨-, hpath, hver, hman⟩ := hfit
    refine inv_of_saved (Or.inl rfl) ?_ ?_ ?_
    · intro id module' hid
      by_cases hk : id = module.id
      · subst hk
        rw [AList.lookup_insert] at hid
        cases hid
        exact hpath
      · rw [AList.lookup_insert_ne hk] at hid
        exact h.installPath hm hid
    · intro id
      rw [AList.mem_insert, h.mem_iff hm]
      unfold Valid
      by_cases hk : id = module.id
      · subst hk
        rw [AList.lookup_insert]
        exact iff_of_true (Or.inl rfl) ⟨tree, rfl, hman⟩
      · rw [AList.lookup_insert_ne hk]
        exact or_iff_right hk
    · intro id hid
      rw [if_pos ⟨rfl, rfl⟩]
      by_cases hk : id = module.id
      · subst hk
        exact ⟨report, AList.lookup_insert _, hver⟩
      · rw [AList.mem_insert] at hid
        rw [AList.lookup_insert_ne hk]
        exact (h.known id ((h.mem_iff hm).1 (hid.resolve_left hk))).1

/-! ### Uninstalling and switching -/

theorem dirName_pathOf {disk : Disk} {id : JString} (h : Valid D disk id) :
    dirName D disk (pathOf D id) = some id := by
  obtain ⟨tree, htree, -⟩ := h
  rw [lookup_eq_find?] at htree
  unfold dirName
  simp only [pathOf_inj]
  obtain ⟨e, he, -⟩ := Option.map_eq_some_iff.1 htree
  rw [he, Option.map_some]
  exact congrArg some (by simpa using List.find?_some he)

theorem lookup_deleteDir_ne (dirs : Map JString FileTree) {id k : JString} (hk : k ≠ id)
    (survivors : Option (List JString → Bool)) :
    (deleteDir dirs id survivors).lookup k = dirs.lookup k :=
  lookup_setDir_ne dirs hk _

/-- Without its `module.json` a directory is not valid. -/
theorem not_valid_deleteDir {dirs : Map JString FileTree} {id : JString}
    {survivors : Option (List JString → Bool)} {registry : RegistryFile}
    (h : ∀ keep, survivors = some keep → keep manifestPath = false) :
    ¬ Valid D ⟨deleteDir dirs id survivors, registry⟩ id := by
  rintro ⟨tree, htree, hman⟩
  replace htree : (dirs.lookup id).bind (remains survivors) = some tree :=
    (lookup_setDir _ _ _).symm.trans htree
  obtain ⟨old, -, hrest⟩ := Option.bind_eq_some_iff.1 htree
  obtain ⟨keep, hkeep, rfl⟩ := Option.map_eq_some_iff.1 hrest
  have hnone : (collect (fun path n => if keep path then some n else none) old).lookup
      manifestPath = none := by
    rw [lookup_collect, h keep hkeep]
    cases old.lookup manifestPath <;> rfl
  rw [manifestOf, hnone] at hman
  cases hman

/-- Uninstalling, once the directory is deleted as far as it will be. -/
theorem inv_uninstalled (h : Inv D w) (hm : w.process = some m) {id : JString}
    {dirs : Map JString FileTree} {crash : Bool} {now : ℤ} {save : SaveResult}
    (hsave : save ≠ .torn) (hsame : ∀ k, k ≠ id → dirs.lookup k = w.disk.dirs.lookup k)
    (hgone : ∀ registry, ¬ Valid D ⟨dirs, registry⟩ id) :
    Inv D ⟨⟨dirs, saved ⟨m.modules.erase id, m.persistentMeta.erase id⟩ now w.disk.registry save⟩,
      alive crash ⟨m.modules.erase id, m.persistentMeta.erase id⟩, w.ledger.erase id⟩ := by
  have hvalid : ∀ {k}, k ≠ id → ∀ registry,
      (Valid D ⟨dirs, registry⟩ k ↔ Valid D w.disk k) := by
    intro k hk registry
    unfold Valid
    rw [hsame k hk]
  have hne : ∀ {k registry}, Valid D ⟨dirs, registry⟩ k → k ≠ id := by
    rintro k registry hv rfl
    exact hgone registry hv
  have hvouch : ∀ k, k ≠ id → Valid D w.disk k → ∃ report,
      (w.ledger.erase id).lookup k = some report ∧ report.signatureStatus = .verified := by
    intro k hk hv
    rw [AList.lookup_erase_ne hk]
    exact (h.known k hv).1
  cases save with
  | torn => exact absurd rfl hsave
  | ok =>
    refine inv_of_saved (alive_cases _ _) ?_ ?_ ?_
    · intro k module hk
      by_cases hkid : k = id
      · rw [hkid, AList.lookup_erase] at hk; cases hk
      · rw [AList.lookup_erase_ne hkid] at hk
        exact h.installPath hm hk
    · intro k
      rw [AList.mem_erase]
      by_cases hkid : k = id
      · rw [hkid]
        exact iff_of_false (fun hv => hv.1 rfl) (hgone _)
      · rw [hvalid hkid, h.mem_iff hm]
        exact and_iff_right hkid
    · intro k hk
      rw [AList.mem_erase] at hk
      exact hvouch k hk.1 ((h.mem_iff hm).1 hk.2)
  | failed =>
    -- the registry keeps the record of a module that has no directory any more
    refine h.congr rfl (fun k hv => (hvalid (hne hv) _).1 hv)
      (fun k hv _ => hvouch k (hne hv) ((hvalid (hne hv) _).1 hv)) ?_
    intro m' hm'
    obtain rfl := eq_of_alive hm'
    refine ⟨m, hm, fun k v => ?_⟩
    by_cases hkid : k = id
    · rw [hkid]
      refine iff_of_false ?_ fun hv => hgone _ hv.2
      simp [held]
    · have heq : held ⟨m.modules.erase id, m.persistentMeta.erase id⟩ k = held m k := by
        unfold held
        rw [AList.lookup_erase_ne hkid]
      rw [heq]
      refine ⟨fun hv => ⟨hv, (hvalid hkid _).2 ?_⟩, fun hv => hv.1⟩
      exact (h.mem_iff hm).1 (mem_iff_held.2 ⟨v, hv⟩)

theorem inv_uninstall (h : Inv D w) (hm : w.process = some m) {id : JString} {u : UninstallEnv}
    (hok : StepOk D w (.uninstall id u)) : Inv D (uninstall D w m id u) := by
  unfold uninstall
  cases hid : m.modules.lookup id with
  | none => exact h
  | some module =>
    have hvalid : Valid D w.disk id := (h.mem_iff hm).1 (mem_iff_exists.2 ⟨module, hid⟩)
    simp only [h.installPath hm hid, dirName_pathOf hvalid]
    split_ifs with hbefore hafter
    · exact h.dead rfl rfl rfl fun _ hv => hv
    · -- the registry still has the record of what is left of the directory
      refine h.dead rfl rfl rfl fun k hv => ?_
      by_cases hk : k = id
      · rw [hk]; exact hvalid
      · obtain ⟨tree, htree, hman⟩ := hv
        exact ⟨tree, by rw [← htree]; exact (lookup_deleteDir_ne _ hk _).symm, hman⟩
    · have hcrash : u.crash = none ∨ u.crash = some .inSave := by
        rcases hc : u.crash with _ | c
        · exact Or.inl rfl
        · cases c
          · exact absurd hc hbefore
          · exact absurd hc hafter
          · exact Or.inr rfl
      obtain ⟨htorn, hkeep⟩ := hok hcrash
      exact inv_uninstalled h hm htorn (fun k hk => lookup_deleteDir_ne _ hk _)
        fun _ => not_valid_deleteDir hkeep

theorem inv_transition (h : Inv D w) (hm : w.process = some m) {id : JString}
    {target : ModuleState} {save : SaveResult} {crash : Bool} {now : ℤ} (hsave : save ≠ .torn) :
    Inv D (transition w m id target save crash now) := by
  unfold transition
  cases hid : m.modules.lookup id with
  | none => exact h
  | some current =>
    simp only
    split_ifs
    · exact h
    · have hmem : id ∈ m.modules := mem_iff_exists.2 ⟨current, hid⟩
      cases save with
      | torn => exact absurd rfl hsave
      | ok =>
        refine inv_of_saved (alive_cases _ _) ?_ ?_ ?_
        · intro k module hk
          by_cases hkid : k = id
          · subst hkid
            rw [AList.lookup_insert] at hk
            cases hk
            have hpath : current.installPath = pathOf D k := h.installPath hm hid
            exact hpath
          · rw [AList.lookup_insert_ne hkid] at hk
            exact h.installPath hm hk
        · intro k
          have hk : k ∈ m.modules.insert id { current with state := target } ↔ k ∈ m.modules := by
            rw [AList.mem_insert]
            exact or_iff_right_of_imp fun hk => hk ▸ hmem
          rw [hk, h.mem_iff hm]
          exact Iff.rfl
        · intro k hk
          rw [AList.mem_insert] at hk
          have hk' : k ∈ m.modules := hk.elim (fun e => e ▸ hmem) fun e => e
          exact (h.known k ((h.mem_iff hm).1 hk')).1
      | failed =>
        refine h.congr rfl (fun _ hv => hv) (fun _ _ hv => hv) ?_
        intro m' hm'
        obtain rfl := eq_of_alive hm'
        refine ⟨m, hm, fun k v => ?_⟩
        have heq : held { m with
            modules := m.modules.insert id { current with state := target } } k = held m k := by
          unfold held
          by_cases hkid : k = id
          · rw [hkid, AList.lookup_insert, hid]; rfl
          · rw [AList.lookup_insert_ne hkid]
        rw [heq]
        exact ⟨fun hv => ⟨hv, (h.mem_iff hm).1 (mem_iff_held.2 ⟨v, hv⟩)⟩, fun hv => hv.1⟩

/-! ### Runs -/

theorem inv_initial : Inv D World.initial := by
  have hvalid : ∀ id, ¬ Valid D World.initial.disk id := by
    rintro id ⟨tree, htree, -⟩
    exact absurd htree (by simp [World.initial])
  refine ⟨?_, ?_, fun id hv => absurd hv (hvalid id), ?_⟩
  · exact fun h => by cases h
  · intro id r hr
    exact absurd hr (by simp [persisted, Disk.readFromDisk, World.initial])
  · intro m hm id v
    obtain rfl : (⟨∅, ∅⟩ : Manager) = m := Option.some.inj hm
    exact iff_of_false (by simp [held]) fun hv => hvalid id hv.1

theorem inv_step (h : Inv D w) (op : Op) (hok : StepOk D w op) : Inv D (step D w op) := by
  cases op with
  | restart lastModified => exact inv_restart h lastModified
  | install r =>
    unfold step
    cases hm : w.process with
    | none => exact h
    | some m =>
      refine inv_install h hm (installOutcome_fits r _ _) (tidy_installOutcome ?_ ?_)
      · intro id hnew tree htree
        have hinvalid : ¬ Valid D w.disk id := fun hv =>
          of_decide_eq_false hnew ((h.mem_iff hm).2 hv)
        by_contra hman
        exact hinvalid ⟨tree, htree, Option.ne_none_iff_isSome.1 hman⟩
      · intro zip manifest hadm hnew
        exact hok m hm zip manifest hadm (of_decide_eq_false hnew)
  | uninstall id u =>
    unfold step
    cases hm : w.process with
    | none => exact h
    | some m => exact inv_uninstall h hm hok
  | enable id save crash now =>
    unfold step
    cases hm : w.process with
    | none => exact h
    | some m => exact inv_transition h hm hok
  | disable id save crash now =>
    unfold step
    cases hm : w.process with
    | none => exact h
    | some m => exact inv_transition h hm hok

/-- Every module in the map was put there by a completed install of a verified package. -/
def Trusted (w : World) : Prop :=
  ∀ m, w.process = some m → ∀ id, id ∈ m.modules → Vouched w id

/-- A restart gives the same ids, install paths and permissions. -/
def Reproducible (D : Device Key) (w : World) : Prop :=
  ∀ m, w.process = some m → ∀ lastModified, ∃ m', (restart D w lastModified).process = some m' ∧
    ∀ id, held m' id = held m id

/-- **The trust gate across restarts.**  In every state reached by a run whose operations leave no
valid `module.json` behind that no completed install stands for, and do not destroy the registry
file, the modules in the map were put there by completed installs of verified packages, and a
restart reproduces them. -/
theorem trusted_across_restarts (D : Device Key) (ops : List Op)
    (hok : Runs.Along (step D) (StepOk D) World.initial ops) :
    Trusted (Runs.run (step D) World.initial ops) ∧
      Reproducible D (Runs.run (step D) World.initial ops) := by
  have hstep : ∀ w op, Inv D w → StepOk D w op → Inv D (step D w op) :=
    fun w op hw ho => inv_step hw op ho
  have h : Inv D (Runs.run (step D) World.initial ops) :=
    Runs.run_invariant_of hstep inv_initial hok
  refine ⟨fun m hm id hid => (h.known id ((h.mem_iff hm).1 hid)).1, fun m hm lastModified => ?_⟩
  refine ⟨_, rfl, fun id => Option.ext fun v => ?_⟩
  exact (held_restart h lastModified id v).trans (h.shown m hm id v).symm

/-! ### A package that is installed, and one whose install is cut short -/

/-- The `module.json` of the sample package. -/
def sampleJson : String :=
  "\x7b\"name\":\"com.test.mod\",\"version\":\"1.0\",\"permissions\":[\"network\"]\x7d"

/-- Its Ed25519 signature under the sample key. -/
def sampleJsonSig : List UInt8 :=
  [152, 55, 65, 219, 192, 151, 244, 188, 144, 224, 174, 128, 113, 85, 87, 176, 232, 233, 104,
    243, 41, 68, 12, 206, 33, 167, 245, 188, 85, 151, 161, 94, 19, 147, 78, 105, 114, 140, 216,
    215, 83, 5, 51, 192, 140, 35, 59, 162, 18, 217, 111, 6, 136, 54, 141, 204, 69, 58, 106,
    107, 162, 66, 194, 14]

/-- The manifest it decodes to. -/
def sampleManifest : ModuleManifest where
  name := ofString "com.test.mod"
  version := ofString "1.0"
  api := 1
  author := []
  description := []
  permissions := [ofString "network"]
  runtime := []
  entry := []
  minApi := 1

/-- A device that pins the sample key. -/
def sampleDevice : Device Unit where
  platform :=
    { ModuleSignatureVerifier.samplePlatform with
      ed25519 := fun _ message sig =>
        .ok (decide (message = ascii sampleJson ∧ sig = sampleJsonSig)) }
  pinnedPublicKeyB64 := ofString ModuleSignatureVerifier.sampleCertB64
  decodeManifest text := if text = ofString sampleJson then .ok sampleManifest
    else .error (ofString "unexpected JSON token")
  modulesRoot := ofString "/data/user/0/com.astraveil.app/files/astra_modules"

/-- Installing the sample package, with the given fault. -/
def sampleRequest (fault : Option InstallFault) : InstallRequest where
  fileExists := true
  fileName := ofString "s.avm"
  absolutePath := ofString "/sdcard/Download/s.avm"
  archive := .ok (.ofEntries
    [ModuleSignatureVerifier.sampleEntry "module.json" (ascii sampleJson),
      ModuleSignatureVerifier.sampleEntry "ASTRAVEIL.SIG" sampleJsonSig])
  sourceHash := some (ofString
    "9afdd970c3b3dbf421b1f640abbc099ce8e4f3d9cf06837448b57e5cbda6b21d")
  trustedKeys := []
  allow := fun _ => true
  outside := fun _ => false
  now := 1722556800000
  fault := fault
  read := fun _ => 8192
  wiped := none
  cleaned := ⟨none, false⟩
  configSaves := fun _ => .ok

/-- Whether the map of modules has the sample package after the given operations. -/
def hasSample (ops : List Op) : Option Bool :=
  (Runs.run (step sampleDevice) World.initial ops).process.map fun m =>
    decide (ofString "com.test.mod" ∈ m.modules)

/-- Installed, then the process is restarted. -/
theorem trusted_sampleRequest :
    hasSample [.install (sampleRequest none), .restart fun _ => 0] = some true ∧
      Trusted (Runs.run (step sampleDevice) World.initial
        [.install (sampleRequest none), .restart fun _ => 0]) ∧
      Reproducible sampleDevice (Runs.run (step sampleDevice) World.initial
        [.install (sampleRequest none), .restart fun _ => 0]) := by
  refine ⟨by decide +kernel, trusted_across_restarts sampleDevice _ ⟨?_, trivial, trivial⟩⟩
  intro m hm zip manifest hadm _ _ _
  obtain rfl := Except.ok.inj hadm.archive
  rw [target_of_wiped rfl]
  refine leavesNothing_of_went rfl (went_snoc.2 ⟨went_snoc.2 ⟨went_nil _ _, ?_⟩, ?_⟩) rfl
  · exact ⟨by decide, .inl rfl⟩
  · exact ⟨by decide, .inl rfl⟩

/-- The process dies between unpacking and `registry.save`; the next one has the module. -/
theorem untrusted_sampleRequest :
    ¬ Trusted (Runs.run (step sampleDevice) World.initial
      [.install (sampleRequest (some (.permissions true))), .restart fun _ => 0]) := by
  intro h
  have hmem : hasSample
      [.install (sampleRequest (some (.permissions true))), .restart fun _ => 0] = some true := by
    decide +kernel
  have hledger : ((Runs.run (step sampleDevice) World.initial
      [.install (sampleRequest (some (.permissions true))), .restart fun _ => 0]).ledger.lookup
        (ofString "com.test.mod")).isNone = true := by
    decide +kernel
  obtain ⟨m, hm, hid⟩ := Option.map_eq_some_iff.1 hmem
  obtain ⟨report, hreport, -⟩ := h m hm _ (of_decide_eq_true hid)
  rw [hreport] at hledger
  cases hledger

end AstraVeil.Modules
