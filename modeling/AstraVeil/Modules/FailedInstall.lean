import AstraVeil.Modules.App

/-!
# Failed installs

`install` deletes the old directory of the module before it unpacks, and only some of its exits
delete what has been unpacked; nobody looks whether a deletion was complete.

* `Fails`, `Unchanged`: what `install` returns, and what it must not have changed then;
* `Atomic`: the condition on archive, faults and old directory under which a failing `install`
  changes nothing;
* `failed_install_iff`: it is exact.
-/

namespace AstraVeil.Modules

open Utf16 KotlinString Finmaps AstraVeil.Core

variable {Key : Type} {D : Device Key}

/-! ### What a failed install changes -/

/-- `Result.isFailure` of what `install` returns, if the process lives. -/
def Outcome.isFailure : Outcome → Bool
  | .refused _ => true
  | .cleared _ _ crash _ => !crash
  | .left _ _ crash _ => !crash
  | .registered _ _ _ _ save crash => decide (save ≠ .ok) && !crash

/-- `install` returns a failure. -/
def Fails (o : Outcome) : Prop := o.isFailure = true

theorem fails_registered {tree : FileTree} {module : AstraModule} {record : ModuleRecord}
    {report : TrustReport} {save : SaveResult} {crash : Bool} :
    Fails (.registered tree module record report save crash) ↔ save ≠ .ok ∧ crash = false := by
  simp [Fails, Outcome.isFailure]

/-- Both directories are missing, or they hold the same files. -/
def SameDir (dir dir' : Option FileTree) : Prop :=
  ∀ path, dir'.map (fun t => t.lookup path) = dir.map fun t => t.lookup path

/-- The same files. -/
def SameFiles (dirs dirs' : Map JString FileTree) : Prop :=
  ∀ id, SameDir (dirs.lookup id) (dirs'.lookup id)

theorem sameFiles_setDir {dirs : Map JString FileTree} {id : JString} {rest : Option FileTree} :
    SameFiles dirs (setDir dirs id rest) ↔ SameDir (dirs.lookup id) rest := by
  constructor
  · intro h
    have hid := h id
    rwa [lookup_setDir] at hid
  · intro h id'
    by_cases hid : id' = id
    · rw [hid, lookup_setDir]
      exact h
    · rw [lookup_setDir_ne _ hid]
      exact fun _ => rfl

namespace App

/-- Modules, registry, grants and files are as before. -/
structure Unchanged (a a' : App) : Prop where
  process : a'.world.process = a.world.process
  registry : a'.world.disk.registry = a.world.disk.registry
  grants : ∀ id, a'.core.engine.list id = a.core.engine.list id
  files : SameFiles a.world.disk.dirs a'.world.disk.dirs

/-- The directory of a module. -/
def dir (a : App) (id : JString) : Option FileTree := a.world.disk.dirs.lookup id

/-- What a deletion of the tree leaves is what the directory of the id held before. -/
def Restores (a : App) (r : InstallRequest) (id : JString) (tree : FileTree) : Prop :=
  r.cleaned.crash = false → SameDir (a.dir id) (remains r.cleaned.survivors tree)

/-- A failing `install` of this archive changes nothing.  An exit that leaves the directory needs
one that held the same files before; one that deletes it needs one that held what survives; a fault
among the permissions needs them to be granted already; and after that nothing may fail. -/
structure Atomic (D : Device Key) (a : App) (r : InstallRequest) (asked : ℕ) (halfway : Bool)
    (base : FileTree) (zip : ZipFile) (manifest : ModuleManifest) : Prop where
  tooMany : zip.entries.length > maxEntries → SameDir (a.dir manifest.name) (some base)
  leaves : zip.entries.length ≤ maxEntries → ∀ pre e post tree, zip.entries = pre ++ e :: post →
    Went base (unpackFault r.fault) pre →
    Cuts base pre e (strikes (unpackFault r.fault) pre.length) false tree →
    SameDir (a.dir manifest.name) (some tree)
  deletes : zip.entries.length ≤ maxEntries → ∀ pre e post tree, zip.entries = pre ++ e :: post →
    Went base (unpackFault r.fault) pre →
    Deletes r.read base pre e (strikes (unpackFault r.fault) pre.length) tree →
    a.Restores r manifest.name tree
  invalid : zip.entries.length ≤ maxEntries → Went base (unpackFault r.fault) zip.entries →
    r.fault ≠ some .unpacked → validatePackage D (layout base zip.entries) r.outside = none →
    a.Restores r manifest.name (layout base zip.entries)
  permissions : zip.entries.length ≤ maxEntries → Went base (unpackFault r.fault) zip.entries →
    (validatePackage D (layout base zip.entries) r.outside).isSome = true →
    r.fault = some (.permissions false) →
    SameDir (a.dir manifest.name) (some (layout base zip.entries)) ∧
      ∀ p ∈ manifest.permissions.take (seen asked halfway), a.core.engine.allows p = true →
        p ∈ a.core.engine.list manifest.name
  save : zip.entries.length ≤ maxEntries → Went base (unpackFault r.fault) zip.entries →
    (validatePackage D (layout base zip.entries) r.outside).isSome = true →
    ∀ result, r.fault = some (.save result false) → result = .ok

/-! ### The outcome -/

variable {a : App} {m : Manager} {r : InstallRequest} {zip : ZipFile} {manifest : ModuleManifest}

/-- Admission looks neither at the faults nor at the grants. -/
theorem admitted_with_iff {fault : Option InstallFault} {allow : JString → Bool} :
    Admitted D { r with fault := fault, allow := allow } zip manifest ↔
      Admitted D r zip manifest :=
  ⟨fun h => ⟨h.fileExists, h.isAvm, h.archive, h.decoded, h.safeId, h.trusted⟩,
    fun h => ⟨h.fileExists, h.isAvm, h.archive, h.decoded, h.safeId, h.trusted⟩⟩

/-- What the target directory of the package holds when unpacking starts. -/
def base (a : App) (r : InstallRequest) (manifest : ModuleManifest) : FileTree :=
  r.target (a.dir manifest.name)

/-- The outcome for a package that is admitted and not installed. -/
theorem outcome_eq (hadm : Admitted D r zip manifest) (hfresh : manifest.name ∉ m.modules)
    (hprep : Prepares r) :
    ∃ report level, a.outcome D m r =
      match unpack r.read (unpackFault r.fault) (a.base r manifest) zip.entries with
      | .left tree e => .left manifest.name tree false e
      | .deleted tree e => cleared r manifest.name tree e
      | .crashed tree => .left manifest.name tree true .died
      | .ok tree _ =>
          match r.fault with
          | some .unpacked => .left manifest.name tree true .died
          | _ =>
              match validatePackage D tree r.outside with
              | none => cleared r manifest.name tree .badPackage
              | some _ => register D (a.answered r) manifest report level tree := by
  have hadm' : Admitted D (a.answered r) zip manifest := admitted_with_iff.2 hadm
  have hprep' : Prepares (a.answered r) := hprep
  have hlocked := installOutcome_of_admitted hadm' (fun id => decide (id ∈ m.modules)) a.dir
  rw [decide_eq_false hfresh, installLocked_eq _ zip manifest _ _ hprep'] at hlocked
  exact ⟨_, _, hlocked⟩

/-- The package is unpacked and valid, and the process lives. -/
structure Reached (D : Device Key) (r : InstallRequest) (base : FileTree) (zip : ZipFile) :
    Prop where
  few : zip.entries.length ≤ maxEntries
  went : Went base (unpackFault r.fault) zip.entries
  lives : r.fault ≠ some .unpacked
  valid : (validatePackage D (layout base zip.entries) r.outside).isSome = true

theorem outcome_of_reached (hadm : Admitted D r zip manifest) (hfresh : manifest.name ∉ m.modules)
    (hprep : Prepares r) (h : Reached D r (a.base r manifest) zip) :
    ∃ report level, a.outcome D m r =
      register D (a.answered r) manifest report level (layout (a.base r manifest) zip.entries) := by
  obtain ⟨report, level, heq⟩ := outcome_eq (a := a) hadm hfresh hprep
  obtain ⟨mf, hmf⟩ := Option.isSome_iff_exists.1 h.valid
  refine ⟨report, level, heq.trans ?_⟩
  rw [unpack, if_neg (not_lt.2 h.few), unpackLoop_of_went _ h.went]
  simp only
  split
  · next hun => exact absurd hun h.lives
  · rw [hmf]

/-- Only a package that is unpacked and valid is registered. -/
theorem reached_of_registered (hadm : Admitted D r zip manifest)
    (hfresh : manifest.name ∉ m.modules) (hprep : Prepares r) {tree : FileTree}
    {module : AstraModule} {record : ModuleRecord} {report : TrustReport} {save : SaveResult}
    {crash : Bool}
    (h : a.outcome D m r = .registered tree module record report save crash) :
    Reached D r (a.base r manifest) zip := by
  obtain ⟨report, level, heq⟩ := outcome_eq (a := a) hadm hfresh hprep
  rw [h, unpack] at heq
  split_ifs at heq with hlen
  have hends := unpackLoop_cases r.read (a.base r manifest) (unpackFault r.fault) zip.entries
  generalize unpackLoop r.read (unpackFault r.fault) zip.entries (a.base r manifest) 0 = u
    at hends heq
  cases hends with
  | left err hes hwent hc => cases heq
  | crashed hes hwent hc => cases heq
  | deleted err hes hwent hd => cases heq
  | ok hwent =>
    simp only at heq
    split at heq
    · cases heq
    · next hlives =>
      cases hv : validatePackage D (layout (a.base r manifest) zip.entries) r.outside with
      | none =>
        rw [hv] at heq
        cases heq
      | some mf => exact ⟨not_lt.1 hlen, hwent, hlives, by rw [hv]; rfl⟩

/-- Before the permissions, the core is not touched. -/
theorem coreAfterInstall_of_not_reached (hadm : Admitted D r zip manifest)
    (hfresh : manifest.name ∉ m.modules) (hprep : Prepares r)
    (h : ¬ Reached D r (a.base r manifest) zip) (asked : ℕ) (halfway : Bool) :
    a.coreAfterInstall D m r asked halfway = a.core := by
  unfold coreAfterInstall
  split
  · next ho => exact absurd (reached_of_registered hadm hfresh hprep ho) h
  · split
    · next crash hf =>
      split
      · next ho =>
        -- without the fault the package would be unpacked in the same way
        have hadm' : Admitted D { r with fault := none } zip manifest := admitted_with_iff.2 hadm
        have hr := reached_of_registered hadm' hfresh nofun ho
        refine absurd ⟨hr.few, ?_, by rw [hf]; nofun, hr.valid⟩ h
        rw [hf]
        exact hr.went
      · rfl
    · rfl

/-! ### Unchanged or not -/

theorem unchanged_of_left (hm : a.world.process = some m) {id : JString} {tree : FileTree}
    {e : InstallError} (ho : a.outcome D m r = .left id tree false e) (asked : ℕ)
    (halfway : Bool) :
    a.Unchanged (a.afterInstall D m r asked halfway) ↔
      SameDir (a.dir id) (some tree) ∧
        ∀ id, (a.coreAfterInstall D m r asked halfway).engine.list id = a.core.engine.list id := by
  have hafter : a.afterInstall D m r asked halfway = { a with
      world := { a.world with
        disk := { a.world.disk with dirs := a.world.disk.dirs.insert id tree }
        process := some m }
      core := a.coreAfterInstall D m r asked halfway } := by
    unfold afterInstall
    rw [ho]
    exact settle_of_some (m := m) rfl
  rw [hafter, dir, ← sameFiles_setDir]
  exact ⟨fun h => ⟨h.files, h.grants⟩, fun h => ⟨hm.symm, rfl, h.2, h.1⟩⟩

theorem unchanged_of_cleared (hm : a.world.process = some m) {id : JString}
    {rest : Option FileTree} {e : InstallError} (ho : a.outcome D m r = .cleared id rest false e)
    (asked : ℕ) (halfway : Bool) (hcore : a.coreAfterInstall D m r asked halfway = a.core) :
    a.Unchanged (a.afterInstall D m r asked halfway) ↔ SameDir (a.dir id) rest := by
  have hafter : a.afterInstall D m r asked halfway = { a with
      world := { a.world with
        disk := { a.world.disk with dirs := setDir a.world.disk.dirs id rest }
        process := some m } } := by
    unfold afterInstall
    rw [ho, hcore]
    exact settle_of_some (m := m) rfl
  rw [hafter, dir, ← sameFiles_setDir]
  exact ⟨fun h => h.files, fun h => ⟨hm.symm, rfl, fun _ => rfl, h⟩⟩

/-- An exit that deletes the directory. -/
theorem unchanged_of_deleted (hm : a.world.process = some m) {id : JString} {tree : FileTree}
    {e : InstallError} (ho : a.outcome D m r = cleared r id tree e) (asked : ℕ) (halfway : Bool)
    (hcore : a.coreAfterInstall D m r asked halfway = a.core) :
    (Fails (a.outcome D m r) → a.Unchanged (a.afterInstall D m r asked halfway)) ↔
      a.Restores r id tree := by
  unfold Restores
  cases hcrash : r.cleaned.crash with
  | true =>
    rw [ho, cleared, hcrash]
    exact ⟨fun _ h => (by cases h), fun _ hfails => (by cases hfails)⟩
  | false =>
    have hcleared : a.outcome D m r = .cleared id (remains r.cleaned.survivors tree) false e := by
      rw [ho, cleared, hcrash]
      rfl
    rw [unchanged_of_cleared hm hcleared asked halfway hcore, hcleared]
    exact ⟨fun h _ => h rfl, fun h _ => h rfl⟩

/-- A failure after the module is registered is not taken back. -/
theorem not_unchanged_of_registered (hm : a.world.process = some m) {tree : FileTree}
    {module : AstraModule} {record : ModuleRecord} {report : TrustReport} {save : SaveResult}
    (ho : a.outcome D m r = .registered tree module record report save false) (asked : ℕ)
    (halfway : Bool) : ¬ a.Unchanged (a.afterInstall D m r asked halfway) := by
  intro h
  have hreg := registered_spec ho
  have hproc : (a.afterInstall D m r asked halfway).world.process =
      some ⟨m.modules.insert module.id module, m.persistentMeta.insert module.id record⟩ := by
    unfold afterInstall
    rw [world_settle, ho]
    rfl
  have hsame := hproc.symm.trans (h.process.trans hm)
  have hmodules : m.modules.insert module.id module = m.modules :=
    congrArg Manager.modules (Option.some.inj hsame)
  refine of_decide_eq_false hreg.fresh ?_
  rw [← hmodules]
  exact (AList.mem_insert _).2 (.inl rfl)

section

variable {asked : ℕ} {halfway : Bool}

/-- The loop does not get to its end. -/
theorem Atomic.of_unpackLoop {base : FileTree} {u : Unpacked}
    (few : zip.entries.length ≤ maxEntries)
    (hu : unpackLoop r.read (unpackFault r.fault) zip.entries base 0 = u)
    (hno : ∀ t n, u ≠ .ok t n)
    (leaves : ∀ tree err, u = .left tree err → SameDir (a.dir manifest.name) (some tree))
    (deletes : ∀ tree err, u = .deleted tree err → a.Restores r manifest.name tree) :
    Atomic D a r asked halfway base zip manifest := by
  have hwent : ¬ Went base (unpackFault r.fault) zip.entries := fun hw =>
    hno _ _ (hu.symm.trans (unpackLoop_of_went r.read hw))
  refine ⟨fun hmany => absurd few (not_le.2 hmany), fun _ pre e post tree hes hpre hc => ?_,
    fun _ pre e post tree hes hpre hd => ?_, fun _ hw => absurd hw hwent,
    fun _ hw => absurd hw hwent, fun _ hw => absurd hw hwent⟩
  · obtain ⟨err, heq⟩ := unpackLoop_of_cuts r.read hes hpre hc
    exact leaves tree err (hu.symm.trans heq)
  · obtain ⟨err, heq⟩ := unpackLoop_of_deletes hes hpre hd
    exact deletes tree err (hu.symm.trans heq)

/-- The loop gets to its end. -/
theorem Atomic.of_went {base : FileTree} (few : zip.entries.length ≤ maxEntries)
    (hwent : Went base (unpackFault r.fault) zip.entries)
    (invalid : r.fault ≠ some .unpacked →
      validatePackage D (layout base zip.entries) r.outside = none →
      a.Restores r manifest.name (layout base zip.entries))
    (permissions : (validatePackage D (layout base zip.entries) r.outside).isSome = true →
      r.fault = some (.permissions false) →
      SameDir (a.dir manifest.name) (some (layout base zip.entries)) ∧
        ∀ p ∈ manifest.permissions.take (seen asked halfway), a.core.engine.allows p = true →
          p ∈ a.core.engine.list manifest.name)
    (save : (validatePackage D (layout base zip.entries) r.outside).isSome = true →
      ∀ result, r.fault = some (.save result false) → result = .ok) :
    Atomic D a r asked halfway base zip manifest where
  tooMany hmany := absurd few (not_le.2 hmany)
  leaves _ pre e post tree hes hpre hc := by
    obtain ⟨err, heq⟩ := unpackLoop_of_cuts r.read hes hpre hc
    rw [unpackLoop_of_went r.read hwent] at heq
    cases heq
  deletes _ pre e post tree hes hpre hd := by
    obtain ⟨err, heq⟩ := unpackLoop_of_deletes hes hpre hd
    rw [unpackLoop_of_went r.read hwent] at heq
    cases heq
  invalid _ _ := invalid
  permissions _ _ := permissions
  save _ _ := save

/-- The permissions that a fault leaves granted. -/
theorem coreAfterInstall_of_reached (hadm : Admitted D r zip manifest)
    (hfresh : manifest.name ∉ m.modules) (h : Reached D r (a.base r manifest) zip)
    (hf : r.fault = some (.permissions false)) :
    a.coreAfterInstall D m r asked halfway =
      askSome a.core manifest.name manifest.permissions r.configSaves asked halfway := by
  have hadm' : Admitted D { r with fault := none } zip manifest := admitted_with_iff.2 hadm
  have hwent : Went (a.base r manifest) (unpackFault none) zip.entries := by
    have hw := h.went
    rw [hf] at hw
    exact hw
  have h' : Reached D { r with fault := none } (a.base { r with fault := none } manifest) zip :=
    ⟨h.few, hwent, nofun, h.valid⟩
  obtain ⟨report, level, heq⟩ := outcome_of_reached (a := a) hadm' hfresh nofun h'
  obtain ⟨report', level', heq'⟩ :=
    outcome_of_reached (a := a) hadm hfresh (fun crash hc => by rw [hf] at hc; cases hc) h
  have hleft : a.outcome D m r =
      .left manifest.name (layout (a.base r manifest) zip.entries) false .io := by
    rw [heq']
    unfold register
    have hfault : (a.answered r).fault = some (.permissions false) := hf
    simp only [hfault]
    rfl
  unfold coreAfterInstall
  rw [hleft, hf, heq]
  rfl

theorem grants_askSome_iff {core : AstraCore} {id : JString} {ps : List JString}
    {saves : ℕ → SaveResult} :
    (∀ id', (askSome core id ps saves asked halfway).engine.list id' = core.engine.list id') ↔
      ∀ p ∈ ps.take (seen asked halfway), core.engine.allows p = true →
        p ∈ core.engine.list id := by
  constructor
  · intro h p hp ha
    rw [← h id]
    exact mem_list_askSome.2 (.inr ⟨rfl, hp, ha⟩)
  · intro h id'
    ext p
    rw [mem_list_askSome]
    refine ⟨?_, .inl⟩
    rintro (hp | ⟨rfl, hp, ha⟩)
    · exact hp
    · exact h p hp ha

/-- Once the package is unpacked and valid, an install without a fault succeeds. -/
theorem not_fails_of_reached (hadm : Admitted D r zip manifest) (hfresh : manifest.name ∉ m.modules)
    (hprep : Prepares r) (h : Reached D r (a.base r manifest) zip)
    (hperm : ∀ crash, r.fault ≠ some (.permissions crash))
    (hsave : ∀ result crash, r.fault ≠ some (.save result crash)) :
    ¬ Fails (a.outcome D m r) := by
  obtain ⟨report, level, heq⟩ := outcome_of_reached (a := a) hadm hfresh hprep h
  rw [heq]
  unfold register
  simp only
  split
  · next crash hf => exact absurd hf (hperm crash)
  · split
    · next result crash hf => exact absurd hf (hsave result crash)
    · exact fun hfails => (fails_registered.1 hfails).1 rfl

/-- What is left to say once the package is unpacked and valid. -/
theorem Atomic.of_reached (h : Reached D r (a.base r manifest) zip)
    (permissions : r.fault = some (.permissions false) →
      SameDir (a.dir manifest.name) (some (layout (a.base r manifest) zip.entries)) ∧
        ∀ p ∈ manifest.permissions.take (seen asked halfway), a.core.engine.allows p = true →
          p ∈ a.core.engine.list manifest.name)
    (save : ∀ result, r.fault = some (.save result false) → result = .ok) :
    Atomic D a r asked halfway (a.base r manifest) zip manifest := by
  refine .of_went h.few h.went (fun _ hnone => ?_) (fun _ => permissions) fun _ => save
  have hvalid := h.valid
  rw [hnone] at hvalid
  cases hvalid

/-- A fault while the permissions are asked for. -/
theorem atomic_iff_of_permissions (hm : a.world.process = some m)
    (hadm : Admitted D r zip manifest) (hfresh : manifest.name ∉ m.modules)
    (h : Reached D r (a.base r manifest) zip)
    {crash : Bool} (hf : r.fault = some (.permissions crash)) :
    (Fails (a.outcome D m r) → a.Unchanged (a.afterInstall D m r asked halfway)) ↔
      Atomic D a r asked halfway (a.base r manifest) zip manifest := by
  have hprep : Prepares r := fun crash hp => by
    rw [hf] at hp
    cases hp
  have hsave : ∀ result, r.fault = some (.save result false) → result = .ok := by
    intro result hs
    rw [hf] at hs
    cases hs
  obtain ⟨e, ho⟩ : ∃ e, a.outcome D m r =
      .left manifest.name (layout (a.base r manifest) zip.entries) crash e := by
    obtain ⟨report, level, heq⟩ := outcome_of_reached (a := a) hadm hfresh hprep h
    have hfault : (a.answered r).fault = r.fault := rfl
    rw [heq]
    unfold register
    simp only [hfault, hf]
    exact ⟨_, rfl⟩
  cases crash with
  | true =>
    rw [ho]
    refine ⟨fun _ => .of_reached h (fun hp => ?_) hsave, fun _ hfails => ?_⟩
    · rw [hf] at hp
      cases hp
    · cases hfails
  | false =>
    rw [unchanged_of_left hm ho, coreAfterInstall_of_reached hadm hfresh h hf,
      grants_askSome_iff, ho]
    exact ⟨fun hun => .of_reached h (fun _ => hun rfl) hsave,
      fun hat _ => hat.permissions h.few h.went h.valid hf⟩

/-- A fault while the registry is saved. -/
theorem atomic_iff_of_save (hm : a.world.process = some m) (hadm : Admitted D r zip manifest)
    (hfresh : manifest.name ∉ m.modules) (h : Reached D r (a.base r manifest) zip)
    {result : SaveResult} {crash : Bool}
    (hf : r.fault = some (.save result crash)) :
    (Fails (a.outcome D m r) → a.Unchanged (a.afterInstall D m r asked halfway)) ↔
      Atomic D a r asked halfway (a.base r manifest) zip manifest := by
  have hprep : Prepares r := fun crash hp => by
    rw [hf] at hp
    cases hp
  obtain ⟨tree, module, record, report, ho⟩ : ∃ tree module record report,
      a.outcome D m r = .registered tree module record report result crash := by
    obtain ⟨report, level, heq⟩ := outcome_of_reached (a := a) hadm hfresh hprep h
    have hfault : (a.answered r).fault = r.fault := rfl
    rw [heq]
    unfold register
    simp only [hfault, hf]
    exact ⟨_, _, _, _, rfl⟩
  have hatomic : (crash = false → result = .ok) →
      Atomic D a r asked halfway (a.base r manifest) zip manifest := by
    refine fun hok => .of_reached h (fun hp => ?_) fun result' hs => ?_
    · rw [hf] at hp
      cases hp
    · rw [hf, Option.some.injEq, InstallFault.save.injEq] at hs
      exact hs.1 ▸ hok hs.2
  cases crash with
  | true =>
    rw [ho]
    refine ⟨fun _ => hatomic fun h => (by cases h), fun _ hfails => ?_⟩
    cases (fails_registered.1 hfails).2
  | false =>
    constructor
    · intro hun
      refine hatomic fun _ => ?_
      by_contra hne
      refine not_unchanged_of_registered hm ho asked halfway (hun ?_)
      rw [ho]
      exact fails_registered.2 ⟨hne, rfl⟩
    · intro hat hfails
      rw [ho] at hfails
      exact absurd (hat.save h.few h.went h.valid result hf) (fails_registered.1 hfails).1

/-- Once the package is unpacked and valid. -/
theorem atomic_iff_of_reached (hm : a.world.process = some m) (hadm : Admitted D r zip manifest)
    (hfresh : manifest.name ∉ m.modules) (hprep : Prepares r)
    (h : Reached D r (a.base r manifest) zip) :
    (Fails (a.outcome D m r) → a.Unchanged (a.afterInstall D m r asked halfway)) ↔
      Atomic D a r asked halfway (a.base r manifest) zip manifest := by
  by_cases hperm : ∃ crash, r.fault = some (.permissions crash)
  · obtain ⟨crash, hf⟩ := hperm
    exact atomic_iff_of_permissions hm hadm hfresh h hf
  by_cases hsave : ∃ result crash, r.fault = some (.save result crash)
  · obtain ⟨result, crash, hf⟩ := hsave
    exact atomic_iff_of_save hm hadm hfresh h hf
  have hperm' : ∀ crash, r.fault ≠ some (.permissions crash) := fun crash hf => hperm ⟨crash, hf⟩
  have hsave' : ∀ result crash, r.fault ≠ some (.save result crash) := fun result crash hf =>
    hsave ⟨result, crash, hf⟩
  have hatomic : Atomic D a r asked halfway (a.base r manifest) zip manifest :=
    .of_reached h (fun hp => absurd hp (hperm' false)) fun result hs =>
      absurd hs (hsave' result false)
  exact ⟨fun _ => hatomic, fun _ hfails =>
    absurd hfails (not_fails_of_reached hadm hfresh hprep h hperm' hsave')⟩

/-- The package is unpacked, but the process dies or the package is not valid. -/
theorem atomic_iff_of_went (hm : a.world.process = some m) (hadm : Admitted D r zip manifest)
    (hfresh : manifest.name ∉ m.modules) (hprep : Prepares r)
    (few : zip.entries.length ≤ maxEntries)
    (hw : Went (a.base r manifest) (unpackFault r.fault) zip.entries)
    (hreach : ¬ Reached D r (a.base r manifest) zip) :
    (Fails (a.outcome D m r) → a.Unchanged (a.afterInstall D m r asked halfway)) ↔
      Atomic D a r asked halfway (a.base r manifest) zip manifest := by
  have hcore := coreAfterInstall_of_not_reached (a := a) hadm hfresh hprep hreach asked halfway
  obtain ⟨report, level, heq⟩ := outcome_eq (a := a) hadm hfresh hprep
  rw [unpack, if_neg (not_lt.2 few), unpackLoop_of_went r.read hw] at heq
  by_cases hun : r.fault = some .unpacked
  · simp only [hun] at heq
    rw [heq]
    refine ⟨fun _ => .of_went few hw (fun hne => absurd hun hne) ?_ ?_,
      fun _ hfails => by cases hfails⟩
    · intro _ hp
      rw [hun] at hp
      cases hp
    · intro _ result hs
      rw [hun] at hs
      cases hs
  · have hnone : validatePackage D (layout (a.base r manifest) zip.entries) r.outside = none := by
      rw [← Option.not_isSome_iff_eq_none]
      exact fun hv => hreach ⟨few, hw, hun, hv⟩
    have hcleared : a.outcome D m r = cleared r manifest.name
        (layout (a.base r manifest) zip.entries) .badPackage := by
      rw [heq]
      simp only [hnone]
    rw [unchanged_of_deleted hm hcleared asked halfway hcore]
    refine ⟨fun h => .of_went few hw (fun _ _ => h) ?_ ?_, fun h => h.invalid few hw hun hnone⟩
    · intro hv
      rw [hnone] at hv
      cases hv
    · intro hv
      rw [hnone] at hv
      cases hv

/-- An admitted package that is not installed yet, once its directory is made. -/
theorem atomic_iff (hm : a.world.process = some m) (hadm : Admitted D r zip manifest)
    (hfresh : manifest.name ∉ m.modules) (hprep : Prepares r) :
    (Fails (a.outcome D m r) → a.Unchanged (a.afterInstall D m r asked halfway)) ↔
      Atomic D a r asked halfway (a.base r manifest) zip manifest := by
  by_cases hreach : Reached D r (a.base r manifest) zip
  · exact atomic_iff_of_reached hm hadm hfresh hprep hreach
  have hcore := coreAfterInstall_of_not_reached (a := a) hadm hfresh hprep hreach asked halfway
  obtain ⟨report, level, heq⟩ := outcome_eq (a := a) hadm hfresh hprep
  by_cases few : zip.entries.length ≤ maxEntries
  swap
  -- too many entries: the directory is made, and left as it is then
  · rw [unpack, if_pos (not_le.1 few)] at heq
    rw [unchanged_of_left hm heq, hcore, heq]
    refine ⟨fun h => ?_, fun h _ => ⟨h.tooMany (not_le.1 few), fun _ => rfl⟩⟩
    exact ⟨fun _ => (h rfl).1, fun hf => absurd hf few, fun hf => absurd hf few,
      fun hf => absurd hf few, fun hf => absurd hf few, fun hf => absurd hf few⟩
  rw [unpack, if_neg (not_lt.2 few)] at heq
  have hends := unpackLoop_cases r.read (a.base r manifest) (unpackFault r.fault) zip.entries
  generalize hu : unpackLoop r.read (unpackFault r.fault) zip.entries (a.base r manifest) 0 = u
    at hends heq
  cases hends with
  | left err hes hpre hc =>
    rw [unchanged_of_left hm heq, hcore, heq]
    refine ⟨fun h => .of_unpackLoop few hu (fun t n h' => by cases h') ?_
      (fun tree err h' => by cases h'), fun h _ => ⟨h.leaves few _ _ _ _ hes hpre hc, fun _ => rfl⟩⟩
    intro tree' err' h'
    cases h'
    exact (h rfl).1
  | deleted err hes hpre hd =>
    rw [unchanged_of_deleted hm heq asked halfway hcore]
    refine ⟨fun h => .of_unpackLoop few hu (fun t n h' => by cases h')
      (fun tree err h' => by cases h') ?_, fun h => h.deletes few _ _ _ _ hes hpre hd⟩
    intro tree' err' h'
    cases h'
    exact h
  | crashed hes hpre hc =>
    rw [heq]
    exact ⟨fun _ => .of_unpackLoop few hu (fun t n h' => by cases h')
      (fun tree err h' => by cases h') (fun tree err h' => by cases h'),
      fun _ hfails => by cases hfails⟩
  | ok hw => exact atomic_iff_of_went hm hadm hfresh hprep few hw hreach

/-- A failing `install` of an admitted package that is not installed yet changes nothing.  Where
already the target directory cannot be made, the deletion of the older one must have left what it
held. -/
def Harmless (D : Device Key) (a : App) (r : InstallRequest) (asked : ℕ) (halfway : Bool)
    (zip : ZipFile) (manifest : ModuleManifest) : Prop :=
  (r.fault = some (.prepared false) →
      SameDir (a.dir manifest.name) (r.rest (a.dir manifest.name))) ∧
    (Prepares r → Atomic D a r asked halfway (a.base r manifest) zip manifest)

/-- Where the target directory is not made, nothing but the older one is touched. -/
theorem harmless_iff_of_prepared (hm : a.world.process = some m) (hadm : Admitted D r zip manifest)
    (hfresh : manifest.name ∉ m.modules) {crash : Bool} (hf : r.fault = some (.prepared crash)) :
    (Fails (a.outcome D m r) → a.Unchanged (a.afterInstall D m r asked halfway)) ↔
      Harmless D a r asked halfway zip manifest := by
  have hout : ∃ e, a.outcome D m r =
      .cleared manifest.name (r.rest (a.dir manifest.name)) crash e := by
    have hadm' : Admitted D (a.answered r) zip manifest := admitted_with_iff.2 hadm
    have hlocked := installOutcome_of_admitted hadm' (fun id => decide (id ∈ m.modules)) a.dir
    have hfault : (a.answered r).fault = some (.prepared crash) := hf
    rw [decide_eq_false hfresh, installLocked, hfault] at hlocked
    exact ⟨_, hlocked⟩
  obtain ⟨e, ho⟩ := hout
  have hcore : a.coreAfterInstall D m r asked halfway = a.core := by
    unfold coreAfterInstall
    rw [ho, hf]
  have hnot : ¬ Prepares r := fun hprep => hprep crash hf
  unfold Harmless
  cases crash with
  | true =>
    rw [ho, hf]
    exact ⟨fun _ => ⟨nofun, fun hprep => absurd hprep hnot⟩, fun _ hfails => by cases hfails⟩
  | false =>
    rw [unchanged_of_cleared hm ho asked halfway hcore, ho, hf]
    exact ⟨fun h => ⟨fun _ => h rfl, fun hprep => absurd hprep hnot⟩, fun h _ => h.1 rfl⟩

theorem harmless_iff (hm : a.world.process = some m) (hadm : Admitted D r zip manifest)
    (hfresh : manifest.name ∉ m.modules) :
    (Fails (a.outcome D m r) → a.Unchanged (a.afterInstall D m r asked halfway)) ↔
      Harmless D a r asked halfway zip manifest := by
  by_cases hprep : Prepares r
  · rw [atomic_iff hm hadm hfresh hprep]
    exact ⟨fun h => ⟨fun hf => absurd hf (hprep false), fun _ => h⟩, fun h => h.2 hprep⟩
  · obtain ⟨crash, hf⟩ : ∃ crash, r.fault = some (.prepared crash) := by
      by_contra hno
      exact hprep fun crash hf => hno ⟨crash, hf⟩
    exact harmless_iff_of_prepared hm hadm hfresh hf

end

/-- What is not admitted, or has its id taken, is refused. -/
theorem refused_of_not_admitted {installed : JString → Bool} {old : JString → Option FileTree}
    (hno : ∀ zip manifest, Admitted D r zip manifest → installed manifest.name = true) :
    ∃ e, installOutcome D r installed old = .refused e := by
  rcases installOutcome_cases D r installed old with h | ⟨zip, manifest, level, hadm, heq⟩
  · exact h
  · refine ⟨.alreadyInstalled manifest.name, heq.trans ?_⟩
    rw [hno zip manifest hadm]
    rfl

/-- Where no package is admitted, or its id is taken, `install` changes nothing. -/
theorem unchanged_of_refused (hm : a.world.process = some m)
    (hno : ∀ zip manifest, Admitted D r zip manifest → manifest.name ∈ m.modules) (asked : ℕ)
    (halfway : Bool) : a.Unchanged (a.afterInstall D m r asked halfway) := by
  have hrefused : ∀ fault, ∃ e, a.outcome D m { r with fault := fault } = .refused e := by
    intro fault
    refine refused_of_not_admitted fun zip manifest hadm => decide_eq_true ?_
    exact hno zip manifest (admitted_with_iff.1 hadm)
  obtain ⟨e, he⟩ : ∃ e, a.outcome D m r = .refused e := hrefused r.fault
  -- no permission is asked for, also where a fault is to strike there
  have hcore : a.coreAfterInstall D m r asked halfway = a.core := by
    obtain ⟨e', he'⟩ := hrefused none
    unfold coreAfterInstall
    split
    · next ho => exact absurd (he.symm.trans ho) nofun
    · split
      · split
        · next ho => exact absurd (he'.symm.trans ho) nofun
        · rfl
      · rfl
  have hafter : a.afterInstall D m r asked halfway = a := by
    unfold afterInstall
    rw [he, hcore]
    exact settle_of_some hm
  rw [hafter]
  exact ⟨rfl, rfl, fun _ => rfl, fun _ _ => rfl⟩

/-- **A failed install is atomic exactly under the condition.**  In every state of a running
process and for every request: if a failing `install` leaves modules, registry, grants and files as
they were, the package was not admitted, its id was taken, or it meets `Harmless`, and
conversely. -/
theorem failed_install_iff (D : Device Key) (a : App) (m : Manager)
    (hm : a.world.process = some m) (r : InstallRequest) (asked : ℕ) (halfway : Bool) :
    (Fails (a.outcome D m r) → a.Unchanged (a.step D (.install r asked halfway))) ↔
      ∀ zip manifest, Admitted D r zip manifest → manifest.name ∉ m.modules →
        Harmless D a r asked halfway zip manifest := by
  have hstep : a.step D (.install r asked halfway) = a.afterInstall D m r asked halfway := by
    unfold step
    rw [hm]
    rfl
  rw [hstep]
  constructor
  · intro h zip manifest hadm hfresh
    exact (harmless_iff hm hadm hfresh).1 h
  · intro h
    by_cases hex : ∃ zip manifest, Admitted D r zip manifest ∧ manifest.name ∉ m.modules
    · obtain ⟨zip, manifest, hadm, hfresh⟩ := hex
      exact (harmless_iff hm hadm hfresh).2 (h zip manifest hadm hfresh)
    · refine fun _ => unchanged_of_refused hm (fun zip manifest hadm => ?_) asked halfway
      by_contra hfresh
      exact hex ⟨zip, manifest, hadm, hfresh⟩

/-! ### Two packages that are refused while they are unpacked -/

/-- The sample package with one more entry. -/
def zipWith (e : ZipEntry) : ZipFile :=
  .ofEntries [ModuleSignatureVerifier.sampleEntry "module.json" (ascii sampleJson),
    ModuleSignatureVerifier.sampleEntry "ASTRAVEIL.SIG" sampleJsonSig, e]

/-- A file that is packed too well. -/
def padding : ZipEntry := ⟨ofString "pad", List.replicate 1500 0, 1500, 14⟩

/-- Installing the package with this file. -/
def paddedRequest : InstallRequest :=
  { sampleRequest none with
    archive := .ok (zipWith padding)
    sourceHash := some (ofString
      "bdbfc4ce3b602b333a069b782a2d7c29c924b3cd8feaaacb118ce6d25c67f7d0") }

/-- Installing the package with a name that leads out of the directory. -/
def escapingRequest : InstallRequest :=
  { sampleRequest none with
    archive := .ok (zipWith (ModuleSignatureVerifier.sampleEntry "../evil" []))
    sourceHash := some (ofString
      "56d0dcfbf2a91853f7d628c18ec4a8f2a0b0767098593ff4d99f12ecd3a86438") }

/-- Whether unpacking ends with the directory deleted. -/
def isDeleted : Unpacked → Bool
  | .deleted _ _ => true
  | _ => false

theorem isDeleted_padding :
    isDeleted (unpackLoop (fun _ => 8192) none (zipWith padding).entries ∅ 0) = true := by
  decide +kernel

theorem harmless_padded {zip : ZipFile} {manifest : ModuleManifest}
    (hadm : Admitted sampleDevice paddedRequest zip manifest) :
    Harmless sampleDevice (initial .ok) paddedRequest 0 false zip manifest := by
  refine ⟨nofun, fun _ => ?_⟩
  have hdel := isDeleted_padding
  have hzip : zipWith padding = zip := Except.ok.inj hadm.archive
  rw [hzip] at hdel
  have hbase : (initial .ok).base paddedRequest manifest = ∅ := target_of_wiped rfl _
  rw [hbase]
  refine .of_unpackLoop (by rw [← hzip]; decide) rfl ?_ ?_ fun _ _ _ _ _ => rfl
  · intro t n h
    have hdel' : isDeleted (.ok t n) = true := h ▸ hdel
    cases hdel'
  · intro tree err h
    have hdel' : isDeleted (.left tree err) = true := h ▸ hdel
    cases hdel'

theorem failed_install_padded :
    Fails ((initial .ok).outcome sampleDevice ⟨∅, ∅⟩ paddedRequest) ∧
      (initial .ok).Unchanged ((initial .ok).step sampleDevice
        (.install paddedRequest 0 false)) := by
  have hiff := failed_install_iff sampleDevice (initial .ok) ⟨∅, ∅⟩ rfl paddedRequest 0 false
  have hfails : Fails ((initial .ok).outcome sampleDevice ⟨∅, ∅⟩ paddedRequest) := by
    show Outcome.isFailure _ = true
    decide +kernel
  exact ⟨hfails, hiff.2 (fun _ _ hadm _ => harmless_padded hadm) hfails⟩

/-- The name is refused, and the directory of the module stays behind. -/
theorem not_unchanged_escaping :
    Fails ((initial .ok).outcome sampleDevice ⟨∅, ∅⟩ escapingRequest) ∧
      ¬ (initial .ok).Unchanged ((initial .ok).step sampleDevice
        (.install escapingRequest 0 false)) := by
  have hfails : ((initial .ok).outcome sampleDevice ⟨∅, ∅⟩ escapingRequest).isFailure = true := by
    decide +kernel
  refine ⟨hfails, fun h => ?_⟩
  have hdir : (((initial .ok).step sampleDevice
      (.install escapingRequest 0 false)).world.disk.dirs.lookup
        (ofString "com.test.mod")).isSome = true := by
    decide +kernel
  have hfile := h.files (ofString "com.test.mod") []
  obtain ⟨tree, htree⟩ := Option.isSome_iff_exists.1 hdir
  rw [htree] at hfile
  cases hfile

end App

end AstraVeil.Modules
