import AstraVeil.Modules.App

/-!
# Life-cycle states and mapped libraries

`ModuleState` is kept by the manager and in the registry, `ModuleRuntime.loaded` in memory only,
and `transition` accepts any target.  The two agree where a module is loaded exactly when it is
running; a library should be mapped only when its module is enabled.

* `stateOf`: the state of a module in the running process;
* `StepOk`: the steps that keep the two together;
* `agree_step_iff`: no others do;
* `lifecycle_iff`: the resulting law over all runs.
-/

namespace AstraVeil.Modules

open Utf16 KotlinString Finmaps AstraVeil.Core

variable {Key : Type} {D : Device Key}

/-- The state of a module in the running process. -/
def World.stateOf (w : World) (id : JString) : Option ModuleState :=
  w.process.bind fun m => (m.modules.lookup id).map AstraModule.state

namespace App

/-- A module is loaded exactly when it is running. -/
def Agree (a : App) : Prop := ∀ id, id ∈ a.loaded ↔ a.world.stateOf id = some .running

/-- The modules of the process are kept under their ids. -/
def Keyed (a : App) : Prop :=
  ∀ m id module, a.world.process = some m → m.modules.lookup id = some module → module.id = id

/-- If the operation maps a library, the module is enabled at that moment. -/
def MapsEnabled (D : Device Key) (a : App) : AppOp → Prop
  | .start id outside maps _ _ _ => ∀ m module, a.world.process = some m →
      m.modules.lookup id = some module → module.id ∉ a.loaded →
      (mayLoad D a.world.disk outside module && maps) = true → module.state = .enabled
  | _ => True

/-- The steps that keep states and libraries together: a module is started only when it is enabled
or running, or its library cannot be mapped; a running module is not enabled, disabled or
uninstalled, unless the process dies of it; and a restart finds no running module on the disk. -/
def StepOk (D : Device Key) (a : App) : AppOp → Prop
  | .start id outside maps _ _ _ => ∀ m module, a.world.process = some m →
      m.modules.lookup id = some module → module.state = .enabled ∨ module.state = .running ∨
        (mayLoad D a.world.disk outside module && maps) = false
  | .enable id _ crash _ => a.world.stateOf id = some .running → crash = true
  | .disable id _ crash _ => a.world.stateOf id = some .running → crash = true
  | .uninstall id u _ => a.world.stateOf id = some .running → u.crash ≠ none
  | .restart _ _ _ => ∀ id r, (persisted a.world.disk).lookup id = some r → r.state = .running →
      restore D a.world.disk id r = none
  | _ => True

/-! ### A process that dies -/

theorem stateOf_of_process {w : World} {m : Manager} (h : w.process = some m) (id : JString) :
    w.stateOf id = (m.modules.lookup id).map AstraModule.state := by
  rw [World.stateOf, h]
  rfl

/-- Nothing is loaded into a process that died. -/
theorem agree_settle_of_none {a : App} (h : a.world.process = none) : a.settle.Agree := by
  intro id
  rw [settle_of_none h, world_settle, World.stateOf, h]
  simp

theorem agree_settle_of_some {a : App} {m : Manager} (h : a.world.process = some m) :
    a.settle.Agree ↔ a.Agree := by
  rw [settle_of_some h]

/-! ### Transitions -/

variable {a : App} {m : Manager} {id : JString}

/-- What `transition` does to the process. -/
theorem transition_cases {w : World} (hm : w.process = some m) (id : JString)
    (target : ModuleState) (save : SaveResult) (crash : Bool) (now : ℤ) :
    (transition w m id target save crash now).process = some m ∧
        (w.stateOf id = none ∨ w.stateOf id = some target) ∨
      ∃ current, m.modules.lookup id = some current ∧ current.state ≠ target ∧
        (transition w m id target save crash now).process = alive crash
          { m with modules := m.modules.insert id { current with state := target } } := by
  unfold transition
  cases hl : m.modules.lookup id with
  | none =>
    refine .inl ⟨hm, .inl ?_⟩
    rw [stateOf_of_process hm, hl]
    rfl
  | some current =>
    simp only
    split_ifs with hs
    · refine .inl ⟨hm, .inr ?_⟩
      rw [stateOf_of_process hm, hl, ← hs]
      rfl
    · exact .inr ⟨current, rfl, hs, rfl⟩

theorem stateOf_insert {w : World} {m : Manager} {id : JString} {module : AstraModule}
    (h : w.process = some { m with modules := m.modules.insert id module }) (id' : JString) :
    w.stateOf id' =
      if id' = id then some module.state else (m.modules.lookup id').map AstraModule.state := by
  rw [stateOf_of_process h]
  split_ifs with hid
  · rw [hid, AList.lookup_insert]
    rfl
  · rw [AList.lookup_insert_ne hid]

/-- `enable` and `disable`. -/
theorem agree_transition_iff (ha : a.Agree) (hm : a.world.process = some m) {target : ModuleState}
    (ht : target ≠ .running) (save : SaveResult) (crash : Bool) (now : ℤ) :
    (a.afterTransition m id target save crash now).Agree ↔
      (a.world.stateOf id = some .running → crash = true) := by
  unfold afterTransition
  rcases transition_cases hm id target save crash now with ⟨hp, hst⟩ | ⟨cur, hl, hne, hp⟩
  · rw [agree_settle_of_some hp]
    have hsame : ∀ id', (transition a.world m id target save crash now).stateOf id' =
        a.world.stateOf id' := fun id' => by
      rw [stateOf_of_process hp, stateOf_of_process hm]
    refine ⟨fun _ hrun => ?_, fun _ id' => by rw [hsame]; exact ha id'⟩
    rcases hst with hst | hst
    · rw [hrun] at hst
      cases hst
    · rw [hrun] at hst
      exact absurd (Option.some.inj hst).symm ht
  · have hold : a.world.stateOf id = some cur.state := by
      rw [stateOf_of_process hm, hl]
      rfl
    cases crash with
    | true => exact ⟨fun _ _ => rfl, fun _ => agree_settle_of_none hp⟩
    | false =>
      have hnew := stateOf_insert (w := transition a.world m id target save false now) hp
      rw [agree_settle_of_some hp]
      constructor
      · intro hag hrun
        -- a running module is loaded, and its new state is another one
        have hload := (hag id).1 ((ha id).2 hrun)
        rw [hnew id, if_pos rfl] at hload
        exact absurd (Option.some.inj hload) ht
      · intro hok id'
        rw [hnew id']
        split_ifs with hid
        · subst hid
          rw [ha id']
          constructor
          · intro hrun
            exact absurd (hok hrun) Bool.false_ne_true
          · intro hrun
            exact absurd (Option.some.inj hrun) ht
        · rw [← stateOf_of_process hm]
          exact ha id'

theorem agree_stop (ha : a.Agree) (hm : a.world.process = some m) (save : SaveResult) (crash : Bool)
    (now : ℤ) : (a.afterStop m id save crash now).Agree := by
  unfold afterStop
  rcases transition_cases hm id .enabled save crash now with
    ⟨hp, hst⟩ | ⟨cur, hl, hne, hp⟩
  · rw [agree_settle_of_some hp]
    intro id'
    have hsame : (transition a.world m id .enabled save crash now).stateOf id' =
        a.world.stateOf id' := by
      rw [stateOf_of_process hp, stateOf_of_process hm]
    show id' ∈ a.loaded.erase id ↔ _
    rw [AList.mem_erase, hsame, ha id']
    refine ⟨And.right, fun hrun => ⟨?_, hrun⟩⟩
    rintro rfl
    rcases hst with hst | hst
    · rw [hrun] at hst
      cases hst
    · rw [hrun] at hst
      cases hst
  · cases crash with
    | true => exact agree_settle_of_none hp
    | false =>
      rw [agree_settle_of_some hp]
      intro id'
      show id' ∈ a.loaded.erase id ↔ _
      rw [AList.mem_erase, stateOf_insert (w := transition a.world m id .enabled save false now) hp,
        ← stateOf_of_process hm, ha id']
      split_ifs with hid
      · simp [hid]
      · simp [hid]

/-! ### The other operations -/

/-- `start`: the states stay with the libraries, but a library may be mapped too early. -/
theorem agree_start (ha : a.Agree) (hk : a.Keyed) (hm : a.world.process = some m)
    (outside : JString → Bool) (maps : Bool) (save : SaveResult) (crash : Bool) (now : ℤ) :
    (a.afterStart D m id outside maps save crash now).Agree := by
  unfold afterStart
  cases hl : m.modules.lookup id with
  | none => exact ha
  | some module =>
    have hid : module.id = id := hk m id module hm hl
    have hstate : a.world.stateOf id = some module.state := by
      rw [stateOf_of_process hm, hl]
      rfl
    simp only [load, hid]
    by_cases hin : id ∈ a.loaded
    · -- the module is running already, and nothing changes
      rw [if_pos hin]
      have hrun := (ha id).1 hin
      rcases transition_cases hm id .running save crash now with
        ⟨hp, -⟩ | ⟨cur, hcur, hne, -⟩
      · rw [agree_settle_of_some hp]
        intro id'
        rw [ha id', stateOf_of_process hp, stateOf_of_process hm]
      · rw [hstate] at hrun
        rw [hl] at hcur
        exact absurd (Option.some.inj hcur ▸ Option.some.inj hrun) hne
    · rw [if_neg hin]
      by_cases hmap : (mayLoad D a.world.disk outside module && maps) = true
      · rw [if_pos hmap]
        rcases transition_cases hm id .running save crash now with
          ⟨-, hst⟩ | ⟨cur, hcur, -, hp⟩
        · rw [hstate] at hst
          rcases hst with hst | hst
          · cases hst
          · exact absurd ((ha id).2 (hstate.trans hst)) hin
        · cases crash with
          | true => exact agree_settle_of_none hp
          | false =>
            rw [agree_settle_of_some hp]
            intro id'
            show id' ∈ a.loaded.insert id _ ↔ _
            rw [AList.mem_insert, ha id',
              stateOf_insert (w := transition a.world m id .running save false now) hp,
              ← stateOf_of_process hm]
            by_cases hid' : id' = id
            · simp [hid']
            · simp [hid']
      · rw [if_neg hmap]
        exact ha

theorem mapsEnabled_start_iff (ha : a.Agree) (hk : a.Keyed) (outside : JString → Bool) (maps : Bool)
    (save : SaveResult) (crash : Bool) (now : ℤ) :
    MapsEnabled D a (.start id outside maps save crash now) ↔
      StepOk D a (.start id outside maps save crash now) := by
  -- by agreement, the module is loaded already exactly when it is running
  have hloaded : ∀ m module, a.world.process = some m → m.modules.lookup id = some module →
      (module.id ∈ a.loaded ↔ module.state = .running) := fun m module hm hl => by
    rw [hk m id module hm hl, ha id, stateOf_of_process hm, hl]
    simp
  constructor
  · intro h m module hm hl
    by_cases hrun : module.state = .running
    · exact .inr (.inl hrun)
    · by_cases hmap : (mayLoad D a.world.disk outside module && maps) = true
      · exact .inl (h m module hm hl (mt (hloaded m module hm hl).1 hrun) hmap)
      · exact .inr (.inr (Bool.eq_false_iff.2 hmap))
  · intro h m module hm hl hnot hmap
    rcases h m module hm hl with hen | hrun | hfalse
    · exact hen
    · exact absurd ((hloaded m module hm hl).2 hrun) hnot
    · rw [hfalse] at hmap
      cases hmap

/-- The process holds the same modules without the one that is gone. -/
theorem stateOf_erase {w : World} {m : Manager} {id : JString} {records : Map JString ModuleRecord}
    (h : w.process = some ⟨m.modules.erase id, records⟩) (id' : JString) :
    w.stateOf id' =
      if id' = id then none else (m.modules.lookup id').map AstraModule.state := by
  rw [stateOf_of_process h]
  split_ifs with hid
  · rw [hid, AList.lookup_erase]
    rfl
  · rw [AList.lookup_erase_ne hid]

theorem agree_uninstall_iff (ha : a.Agree) (hm : a.world.process = some m) (u : UninstallEnv)
    (configSave : SaveResult) :
    (a.afterUninstall D m id u configSave).Agree ↔
      (a.world.stateOf id = some .running → u.crash ≠ none) := by
  have hcases := uninstall_cases (D := D) a.world m id u
  unfold afterUninstall
  generalize uninstall D a.world m id u = w at hcases ⊢
  cases hcases with
  | absent hl =>
    have hnone : a.world.stateOf id = none := by
      rw [stateOf_of_process hm, hl]
      rfl
    rw [hnone]
    refine (agree_settle_of_some (m := m) ?_).trans ⟨fun _ h => ?_, fun _ => ?_⟩
    · exact hm
    · cases h
    · exact ha
  | died dirs hc => exact ⟨fun _ _ => hc, fun _ => agree_settle_of_none rfl⟩
  | gone dirs hsave =>
    by_cases hc : u.crash = none
    · rw [hc, agree_settle_of_some rfl]
      constructor
      · intro hag hrun
        have hload := (hag id).1 ((ha id).2 hrun)
        rw [stateOf_erase rfl, if_pos rfl] at hload
        cases hload
      · intro hok id'
        show id' ∈ a.loaded ↔ _
        rw [stateOf_erase rfl, ← stateOf_of_process hm]
        split_ifs with hid
        · subst hid
          rw [ha id']
          exact ⟨fun hrun => absurd rfl (hok hrun), nofun⟩
        · exact ha id'
    · refine ⟨fun _ _ => hc, fun _ => agree_settle_of_none ?_⟩
      simp [alive, hsave hc]

/-- What `install` does to the process. -/
theorem process_install (hm : a.world.process = some m) (r : InstallRequest) (now : ℤ) :
    (install a.world m now (a.outcome D m r)).process = none ∨
      (install a.world m now (a.outcome D m r)).process = some m ∨
      ∃ module record, Registered (a.answered r) (fun id => decide (id ∈ m.modules)) module ∧
        (install a.world m now (a.outcome D m r)).process =
          some ⟨m.modules.insert module.id module, m.persistentMeta.insert module.id record⟩ := by
  cases ho : a.outcome D m r with
  | refused e => exact .inr (.inl hm)
  | cleared id rest crash e =>
    cases crash with
    | true => exact .inl rfl
    | false => exact .inr (.inl rfl)
  | left id tree crash e =>
    cases crash with
    | true => exact .inl rfl
    | false => exact .inr (.inl rfl)
  | registered tree module record report save crash =>
    cases crash with
    | true => exact .inl rfl
    | false => exact .inr (.inr ⟨module, record, registered_spec ho, rfl⟩)

theorem agree_install (ha : a.Agree) (hm : a.world.process = some m) (r : InstallRequest)
    (asked : ℕ) (halfway : Bool) : (a.afterInstall D m r asked halfway).Agree := by
  unfold afterInstall
  rcases process_install hm r r.now with hp | hp | ⟨module, record, hreg, hp⟩
  · exact agree_settle_of_none hp
  · rw [agree_settle_of_some hp]
    intro id'
    show id' ∈ a.loaded ↔ _
    rw [ha id', stateOf_of_process hp, stateOf_of_process hm]
  · rw [agree_settle_of_some hp]
    intro id'
    show id' ∈ a.loaded ↔ _
    have hnew : (install a.world m r.now (a.outcome D m r)).stateOf id' =
        if id' = module.id then some module.state else a.world.stateOf id' := by
      rw [stateOf_of_process hp, stateOf_of_process hm]
      split_ifs with hid
      · rw [hid, AList.lookup_insert]
        rfl
      · rw [AList.lookup_insert_ne hid]
    rw [hnew, ha id']
    split_ifs with hid
    · -- the id was free, so it was not loaded, and the new module is not running
      have hfree : a.world.stateOf id' = none := by
        have hnot := hreg.fresh
        rw [decide_eq_false_iff_not] at hnot
        rw [stateOf_of_process hm, hid, AList.lookup_eq_none.2 hnot]
        rfl
      rw [hfree, hreg.state]
      simp
    · rfl

theorem agree_restart_iff (found : Found) (lastModified : JString → ℤ) (configSave : SaveResult) :
    (a.afterRestart D found lastModified configSave).Agree ↔
      StepOk D a (.restart found lastModified configSave) := by
  have hp : (a.afterRestart D found lastModified configSave).world.process =
      some (init D a.world.disk lastModified).1 := rfl
  have hstate : ∀ id, (a.afterRestart D found lastModified configSave).world.stateOf id =
      ((init D a.world.disk lastModified).1.modules.lookup id).map AstraModule.state :=
    stateOf_of_process hp
  constructor
  · intro hag id r hr hrun
    cases hres : restore D a.world.disk id r with
    | none => rfl
    | some module =>
      have hload : id ∈ (∅ : Map JString LoadedHandle) := by
        refine (hag id).2 ?_
        rw [hstate, restored_of_record hr hres, Option.map_some, (restore_spec hres).2.2.1, hrun]
      simp at hload
  · intro hok id
    show id ∈ (∅ : Map JString LoadedHandle) ↔ _
    rw [hstate]
    refine ⟨fun h => by simp at h, fun hrun => ?_⟩
    obtain ⟨module, hl, hs⟩ := Option.map_eq_some_iff.1 hrun
    obtain ⟨-, ⟨r, hr, hres⟩ | ⟨hinst, -⟩⟩ := restored_cases hl
    · rw [hok id r hr ((restore_spec hres).2.2.1.symm.trans hs)] at hres
      cases hres
    · rw [hs] at hinst
      cases hinst

/-! ### Runs -/

theorem keyed_of_process {a' : App} (hk : a.Keyed) (hm : a.world.process = some m)
    (h : a'.world.process = none ∨ a'.world.process = some m) : a'.Keyed := by
  intro m' id module hm' hl
  rcases h with h | h
  · rw [h] at hm'
    cases hm'
  · obtain rfl := Option.some.inj (h.symm.trans hm')
    exact hk m id module hm hl

theorem keyed_transition (hk : a.Keyed) (hm : a.world.process = some m) {target : ModuleState}
    {save : SaveResult} {crash : Bool} {now : ℤ} {a' : App}
    (h : a'.world = transition a.world m id target save crash now) : a'.Keyed := by
  rcases transition_cases hm id target save crash now with ⟨hp, -⟩ | ⟨cur, hcur, -, hp⟩
  · exact keyed_of_process hk hm (.inr (by rw [h]; exact hp))
  · intro m' id' module hm' hl
    rw [h, hp] at hm'
    cases crash with
    | true => cases hm'
    | false =>
      obtain rfl := Option.some.inj hm'
      by_cases hid : id' = id
      · subst hid
        rw [AList.lookup_insert] at hl
        obtain rfl := Option.some.inj hl
        exact hk m id' cur hm hcur
      · rw [AList.lookup_insert_ne hid] at hl
        exact hk m id' module hm hl

theorem keyed_install (hk : a.Keyed) (hm : a.world.process = some m) (r : InstallRequest)
    (asked : ℕ) (halfway : Bool) : (a.afterInstall D m r asked halfway).Keyed := by
  rcases process_install (D := D) hm r r.now with hp | hp | ⟨module, record, -, hp⟩
  · exact keyed_of_process hk hm (.inl (by rw [afterInstall, world_settle]; exact hp))
  · exact keyed_of_process hk hm (.inr (by rw [afterInstall, world_settle]; exact hp))
  · intro m' id' module' hm' hl
    rw [afterInstall, world_settle, hp] at hm'
    obtain rfl := Option.some.inj hm'
    by_cases hid : id' = module.id
    · subst hid
      rw [AList.lookup_insert] at hl
      obtain rfl := Option.some.inj hl
      rfl
    · rw [AList.lookup_insert_ne hid] at hl
      exact hk m id' module' hm hl

theorem keyed_uninstall (hk : a.Keyed) (hm : a.world.process = some m) (u : UninstallEnv)
    (configSave : SaveResult) : (a.afterUninstall D m id u configSave).Keyed := by
  intro m' id' module hm' hl
  have hcases := uninstall_cases (D := D) a.world m id u
  rw [afterUninstall, world_settle] at hm'
  dsimp only at hm'
  generalize uninstall D a.world m id u = w at hcases hm'
  cases hcases with
  | absent => exact hk m' id' module hm' hl
  | died => cases hm'
  | gone =>
    simp only [alive] at hm'
    split_ifs at hm'
    obtain rfl := Option.some.inj hm'
    by_cases hid : id' = id
    · rw [hid, AList.lookup_erase] at hl
      cases hl
    · rw [AList.lookup_erase_ne hid] at hl
      exact hk m id' module hm hl

theorem keyed_restart (found : Found) (lastModified : JString → ℤ) (configSave : SaveResult) :
    (a.afterRestart D found lastModified configSave).Keyed := by
  intro m' id' module hm' hl
  obtain rfl := Option.some.inj hm'
  exact (restored_cases hl).1

theorem keyed_step (D : Device Key) (a : App) (op : AppOp) (hk : a.Keyed) :
    (a.step D op).Keyed := by
  unfold step
  cases hm : a.world.process with
  | none =>
    cases op with
    | restart found lastModified configSave => exact keyed_restart found lastModified configSave
    | _ => exact hk
  | some m =>
    cases op with
    | install r asked halfway => exact keyed_install hk hm r asked halfway
    | uninstall id u configSave => exact keyed_uninstall hk hm u configSave
    | enable id save crash now => exact keyed_transition hk hm (world_settle _)
    | disable id save crash now => exact keyed_transition hk hm (world_settle _)
    | start id outside maps save crash now =>
      show (a.afterStart D m id outside maps save crash now).Keyed
      unfold afterStart
      split
      · exact hk
      · split
        · exact hk
        · exact keyed_transition hk hm (world_settle _)
    | stop id save crash now => exact keyed_transition hk hm (world_settle _)
    | restart found lastModified configSave => exact keyed_restart found lastModified configSave
    | _ => exact hk

/-- **One step keeps states and libraries together exactly under its condition.** -/
theorem agree_step_iff (D : Device Key) (a : App) (op : AppOp) (h : a.Keyed ∧ a.Agree) :
    ((a.step D op).Keyed ∧ (a.step D op).Agree) ∧ MapsEnabled D a op ↔ StepOk D a op := by
  obtain ⟨hk, ha⟩ := h
  rw [and_iff_right (keyed_step D a op hk)]
  unfold step
  cases hm : a.world.process with
  | none =>
    have hstate : ∀ id, a.world.stateOf id = none := fun id => by
      rw [World.stateOf, hm]
      rfl
    cases op with
    | restart found lastModified configSave =>
      exact (and_iff_left trivial).trans (agree_restart_iff found lastModified configSave)
    | start id outside maps save crash now =>
      exact (and_iff_right ha).trans (mapsEnabled_start_iff ha hk outside maps save crash now)
    | enable id save crash now => simp [StepOk, MapsEnabled, hstate, ha]
    | disable id save crash now => simp [StepOk, MapsEnabled, hstate, ha]
    | uninstall id u configSave => simp [StepOk, MapsEnabled, hstate, ha]
    | _ => exact ⟨fun _ => trivial, fun _ => ⟨ha, trivial⟩⟩
  | some m =>
    cases op with
    | install r asked halfway =>
      exact ⟨fun _ => trivial, fun _ => ⟨agree_install ha hm r asked halfway, trivial⟩⟩
    | uninstall id u configSave =>
      exact (and_iff_left trivial).trans (agree_uninstall_iff ha hm u configSave)
    | enable id save crash now =>
      exact (and_iff_left trivial).trans (agree_transition_iff ha hm (by decide) save crash now)
    | disable id save crash now =>
      exact (and_iff_left trivial).trans (agree_transition_iff ha hm (by decide) save crash now)
    | start id outside maps save crash now =>
      exact (and_iff_right (agree_start ha hk hm outside maps save crash now)).trans
        (mapsEnabled_start_iff ha hk outside maps save crash now)
    | stop id save crash now =>
      exact ⟨fun _ => trivial, fun _ => ⟨agree_stop ha hm save crash now, trivial⟩⟩
    | restart found lastModified configSave =>
      exact (and_iff_left trivial).trans (agree_restart_iff found lastModified configSave)
    | _ => exact ⟨fun _ => trivial, fun _ => ⟨ha, trivial⟩⟩

theorem keyed_initial (configSave : SaveResult) :
    (initial configSave).Keyed ∧ (initial configSave).Agree := by
  constructor
  · intro m id module hm hl
    obtain rfl := Option.some.inj hm
    cases hl
  · intro id
    show id ∈ (∅ : Map JString LoadedHandle) ↔ _
    have hnone : (initial configSave).world.stateOf id = none := rfl
    rw [hnone]
    simp

/-- **Life-cycle and native runtime agree.**  In a run from the first start, after every operation
a module is loaded exactly when it is running, and libraries are mapped for enabled modules only, if
and only if every step of the run meets its condition. -/
theorem lifecycle_iff (D : Device Key) (configSave : SaveResult) (ops : List AppOp) :
    (∀ pre op post, ops = pre ++ op :: post →
      (Runs.run (step D) (initial configSave) (pre ++ [op])).Agree ∧
        MapsEnabled D (Runs.run (step D) (initial configSave) pre) op) ↔
      Runs.Along (step D) (StepOk D) (initial configSave) ops := by
  rw [Runs.along_iff_cuts (I := fun a => a.Keyed ∧ a.Agree) (agree_step_iff D)
    (keyed_initial configSave)]
  have hkeyed : ∀ ops, (Runs.run (step D) (initial configSave) ops).Keyed := fun ops =>
    Runs.run_invariant (I := Keyed) (keyed_step D) (keyed_initial configSave).1 ops
  constructor
  · intro h pre op post heq
    exact ⟨⟨hkeyed _, (h pre op post heq).1⟩, (h pre op post heq).2⟩
  · intro h pre op post heq
    exact ⟨(h pre op post heq).1.2, (h pre op post heq).2⟩

/-! ### A built-in module that is started without having been enabled -/

/-- `com.astraveil.builtin.diags`. -/
def diagsId : JString := ofString "com.astraveil.builtin.diags"

/-- Its `module.json`. -/
def diagsJson : String :=
  "\x7b\"name\":\"com.astraveil.builtin.diags\",\"version\":\"1.0\",\"runtime\":\"arm64.so\"\x7d"

/-- The Ed25519 signature under the sample key. -/
def diagsSig : List UInt8 :=
  [203, 147, 106, 128, 251, 216, 0, 180, 44, 250, 156, 159, 89, 103, 96, 17, 240, 208, 21, 125,
    187, 68, 142, 9, 65, 46, 219, 81, 49, 182, 246, 88, 226, 83, 205, 32, 107, 165, 160, 74, 169,
    201, 180, 201, 160, 7, 244, 86, 27, 128, 168, 214, 190, 113, 125, 123, 253, 68, 62, 161, 150,
    194, 26, 11]

/-- The device that pins the sample key, on the texts of this package. -/
def diagsDevice : Device Unit :=
  { sampleDevice with
    platform :=
      { sampleDevice.platform with
        ed25519 := fun _ message sig =>
          .ok (decide (message = ascii diagsJson ∧ sig = diagsSig)) }
    decodeManifest := fun text =>
      if text = ofString diagsJson then
        .ok { sampleManifest with
          name := diagsId, permissions := [], runtime := ofString "arm64.so" }
      else .error (ofString "unexpected JSON token") }

/-- Installing the package. -/
def diagsRequest : InstallRequest :=
  { sampleRequest none with
    archive := .ok (.ofEntries
      [ModuleSignatureVerifier.sampleEntry "module.json" (ascii diagsJson),
        ModuleSignatureVerifier.sampleEntry "ASTRAVEIL.SIG" diagsSig,
        ModuleSignatureVerifier.sampleEntry "arm64.so" [0x7F, 0x45, 0x4C, 0x46]])
    sourceHash := some (ofString
      "ce3903157b143064ac144addb69d1005a60f72f3d4b771522b84995ddc5b45f7") }

/-- It is installed. -/
def diagsInstalled : App :=
  Runs.run (step diagsDevice) (initial .ok) [.install diagsRequest 0 false]

/-- It is started. -/
def diagsStart : AppOp := .start diagsId (fun _ => false) true .ok false 1722556800001

/-- The module, installed and not enabled: whether it is loaded, whether it may be, its state. -/
theorem loadable_diags :
    (diagsInstalled.world.process.bind fun m => m.modules.lookup diagsId).map (fun module =>
      (decide (module.id ∈ diagsInstalled.loaded),
        mayLoad diagsDevice diagsInstalled.world.disk (fun _ => false) module, module.state)) =
      some (false, true, .installed) := by
  decide +kernel

/-- Its library is mapped although it was never enabled. -/
theorem not_mapsEnabled_diags :
    ¬ ∀ pre op post, [.install diagsRequest 0 false, diagsStart] = pre ++ op :: post →
      (Runs.run (step diagsDevice) (initial .ok) (pre ++ [op])).Agree ∧
        MapsEnabled diagsDevice (Runs.run (step diagsDevice) (initial .ok) pre) op := by
  intro h
  have hmaps : MapsEnabled diagsDevice diagsInstalled diagsStart :=
    (h [.install diagsRequest 0 false] diagsStart [] rfl).2
  obtain ⟨module, hmod, heq⟩ := Option.map_eq_some_iff.1 loadable_diags
  obtain ⟨m, hm, hl⟩ := Option.bind_eq_some_iff.1 hmod
  obtain ⟨hin, hmay, hstate⟩ := Prod.mk.inj heq |>.imp_right Prod.mk.inj
  have henabled := hmaps m module hm hl (of_decide_eq_false hin) (by rw [hmay]; rfl)
  rw [hstate] at henabled
  cases henabled

end App

end AstraVeil.Modules
