import AstraVeil.Lib.Runs
import AstraVeil.Core.Permissions

/-!
# Permissions across restarts

Runs of `initialize`, `updatePermission` and `requestAndPersistPermission`, whose saves may fail or
be cut short, and restarts of the process that find the file as it was written, cut short, or
otherwise unreadable.

`History` adds to the state the last map of grants that was handed over for saving: by a call that
grants or revokes, or by the very first start, which has no file.

* `Inv`, `inv_step`: memory and file stay within that map;
* `failClosed_initialize_iff`: exactly when `initialize` does;
* `not_failClosed_of_stale`: what a save that fails may leave behind;
* `failClosed_run`: the resulting law over all runs.
-/

namespace AstraVeil.Core

open Utf16 Finmaps

/-- The calls, with how their save ends, and the restarts. -/
inductive CoreOp
  | initializeCore (save : SaveResult)
  | updatePermission (moduleId permission : JString) (granted : Bool) (save : SaveResult)
  | requestAndPersistPermission (moduleId permission : JString) (save : SaveResult)
  | restart (found : Found)

/-- The state, with the last map handed over for saving. -/
structure History where
  core : AstraCore
  last : Option Grants

namespace History

/-- Before the very first start. -/
def initial : History := ⟨⟨PermissionEngine.empty, .absent⟩, none⟩

/-- One step. -/
def step (h : History) : CoreOp → History
  | .initializeCore save =>
      { core := h.core.initializeCore save
        last := match h.core.file, h.last with
          | .absent, none => some defaultGrants
          | _, last => last }
  | .updatePermission moduleId permission granted save =>
      let core := h.core.updatePermission moduleId permission granted save
      ⟨core, some core.engine.dumpPermissions⟩
  | .requestAndPersistPermission moduleId permission save =>
      match h.core.requestAndPersistPermission moduleId permission save with
      | (true, core) => ⟨core, some core.engine.dumpPermissions⟩
      | (false, core) => { h with core := core }
  | .restart found =>
      { h with core := ⟨PermissionEngine.empty, found.apply h.core.file⟩ }

/-- The pair is in the last map handed over. -/
def InLast (h : History) (id p : JString) : Prop := ∃ g, h.last = some g ∧ p ∈ g.list id

/-- The permissions in force are within the last map handed over. -/
def FailClosed (h : History) : Prop := ∀ id p, p ∈ h.core.engine.list id → h.InLast id p

/-- The default grants are within the last map handed over. -/
def DefaultsInLast (h : History) : Prop := ∀ id p, p ∈ defaultGrants.list id → h.InLast id p

/-- The very first start, with no file. -/
def FirstStart (h : History) : Prop := h.core.file = .absent ∧ h.last = none

/-- The file decodes, to a map that is not empty. -/
def Readable (h : History) : Prop :=
  ∃ c, h.core.file = .holds c ∧ c.authorizedPackages.entries.isEmpty = false

/-- The file grants nothing beyond the map. -/
def FileWithin (h : History) (g : Grants) : Prop :=
  ∀ c, h.core.file = .holds c → ∀ id p, p ∈ c.authorizedPackages.list id → p ∈ g.list id

/-- The steps that keep the permissions closed.  `initialize` must find a file it can read, with
some grants, unless the user holds the default grants anyway; a save that fails must not leave a
file that grants more than what was to be saved; and the names in a grant must be text that the file
can hold. -/
def StepOk (h : History) : CoreOp → Prop
  | .initializeCore _ => h.FirstStart ∨ h.Readable ∨ h.DefaultsInLast
  | .updatePermission id p true save => (hasUnpaired id = false ∧ hasUnpaired p = false) ∧
      (save = .failed → h.FileWithin (h.core.engine.grant id p).granted)
  | .updatePermission id p false save =>
      save = .failed → h.FileWithin (h.core.engine.revoke id p).granted
  | .requestAndPersistPermission id p save => (hasUnpaired id = false ∧ hasUnpaired p = false) ∧
      (save = .failed → h.core.engine.allows p = true →
        h.FileWithin (h.core.engine.grant id p).granted)
  | .restart _ => True

/-! ### The invariant -/

/-- Memory and file are within the last map handed over, and hold text. -/
structure Inv (h : History) : Prop where
  engine : h.FailClosed
  plainEngine : h.core.engine.granted.Plain
  file : ∀ c, h.core.file = .holds c → ∀ id p, p ∈ c.authorizedPackages.list id → h.InLast id p
  plainFile : ∀ c, h.core.file = .holds c → c.authorizedPackages.Plain

theorem plain_empty : Grants.Plain ∅ := by
  intro id s hs
  rw [AList.lookup_empty] at hs
  cases hs

theorem plain_defaultGrants : defaultGrants.Plain := by
  refine (plain_empty.insert ?_ ?_).insert ?_ ?_
  · decide
  · decide
  · decide
  · decide

theorem inv_initial : Inv initial where
  engine id p hp := by
    have hnone : PermissionEngine.empty.list id = ∅ := rfl
    rw [show initial.core.engine.list id = ∅ from hnone] at hp
    simp at hp
  plainEngine := plain_empty
  file c hc := by cases hc
  plainFile c hc := by cases hc

variable {h : History}

/-- Grants in memory that are plain, handed over for saving. -/
theorem inv_persist (hi : Inv h) {e : PermissionEngine} (hplain : e.granted.Plain)
    {save : SaveResult} (hstale : save = .failed → h.FileWithin e.granted) :
    Inv ⟨AstraCore.persist { h.core with engine := e } save, some e.dumpPermissions⟩ where
  engine id p hp := ⟨_, rfl, hp⟩
  plainEngine := hplain
  file c hc id p hp := by
    refine ⟨_, rfl, ?_⟩
    cases save with
    | ok =>
      obtain rfl := ConfigFile.holds.inj hc
      have hlist := Grants.list_readBack hplain id
      exact hlist ▸ hp
    | failed => exact hstale rfl c hc id p hp
    | torn => cases hc
  plainFile c hc := by
    cases save with
    | ok =>
      obtain rfl := ConfigFile.holds.inj hc
      exact hplain.readBack
    | failed => exact hi.plainFile c hc
    | torn => cases hc

theorem plain_grant {e : PermissionEngine} (he : e.granted.Plain) {id p : JString}
    (hid : hasUnpaired id = false) (hp : hasUnpaired p = false) : (e.grant id p).granted.Plain := by
  unfold PermissionEngine.grant
  simp only
  split_ifs
  · exact he
  · refine he.insert hid fun q hq => ?_
    rcases Finset.mem_insert.1 hq with rfl | hq
    · exact hp
    · exact (Grants.plain_list he hq).2

theorem plain_revoke {e : PermissionEngine} (he : e.granted.Plain) (id p : JString) :
    (e.revoke id p).granted.Plain := by
  unfold PermissionEngine.revoke
  cases hl : e.granted.lookup id with
  | none => exact he
  | some current =>
    simp only
    split_ifs
    · obtain ⟨hid, hq⟩ := he id current hl
      exact he.insert hid fun q hmem => hq q (Finset.mem_of_mem_erase hmem)
    · exact he

/-! ### Initializing -/

variable {save : SaveResult}

/-- A map that is read and not empty is put into force. -/
theorem initializeCore_of_readable (save : SaveResult) {core : AstraCore} {c : AstraConfig}
    (hc : core.file = .holds c) (hne : c.authorizedPackages.entries.isEmpty = false) :
    (core.initializeCore save).engine.granted = c.authorizedPackages ∧
      (core.initializeCore save).file = core.file := by
  unfold AstraCore.initializeCore AstraCore.grantsOf
  rw [hc]
  simp only [ConfigFile.read, hne]
  exact ⟨rfl, rfl⟩

/-- Otherwise the default grants are put into force and handed over for the file. -/
theorem initializeCore_of_not_readable (save : SaveResult) (hr : ¬ h.Readable) :
    (h.core.initializeCore save).engine.granted = defaultGrants ∧
      ∃ c, c.authorizedPackages = defaultGrants ∧
        (h.core.initializeCore save).file = h.core.file.write c save := by
  have hempty : h.core.file.read.authorizedPackages.entries.isEmpty = true := by
    cases hf : h.core.file with
    | absent => rfl
    | unparsable => rfl
    | holds c =>
      rw [← Bool.not_eq_false]
      exact fun hne => hr ⟨c, hf, hne⟩
  unfold AstraCore.initializeCore AstraCore.grantsOf
  simp only [hempty]
  exact ⟨rfl, _, rfl, rfl⟩

/-- **`initialize` stays within the last map exactly under the condition of the step.**  The very
first start is the exception that hands over the default grants itself. -/
theorem failClosed_initialize_iff (save : SaveResult) (hi : Inv h) :
    (h.step (.initializeCore save)).FailClosed ↔ h.StepOk (.initializeCore save) := by
  by_cases hfirst : h.FirstStart
  · refine ⟨fun _ => .inl hfirst, fun _ id p hp => ⟨defaultGrants, ?_, ?_⟩⟩
    · obtain ⟨hf, hl⟩ := hfirst
      unfold step
      simp only [hf, hl]
    · have hnr : ¬ h.Readable := by
        rintro ⟨c, hc, -⟩
        rw [hfirst.1] at hc
        cases hc
      have hg := (initializeCore_of_not_readable save hnr).1
      rw [← hg]
      exact hp
  · -- from here on the ghost map stays as it is
    have hlast : (h.step (.initializeCore save)).last = h.last := by
      unfold step
      simp only
      split
      · rename_i hf hl
        exact absurd ⟨hf, hl⟩ hfirst
      · rfl
    have hin : ∀ id p, (h.step (.initializeCore save)).InLast id p ↔ h.InLast id p :=
      fun id p => by
        unfold InLast
        rw [hlast]
    by_cases hr : h.Readable
    · refine ⟨fun _ => .inr (.inl hr), fun _ id p hp => ?_⟩
      obtain ⟨c, hc, hne⟩ := hr
      rw [hin]
      refine hi.file c hc id p ?_
      rw [← (initializeCore_of_readable save hc hne).1]
      exact hp
    · have hg := (initializeCore_of_not_readable save hr).1
      constructor
      · intro hclosed
        refine .inr (.inr fun id p hp => ?_)
        rw [← hin]
        refine hclosed id p ?_
        rw [← hg] at hp
        exact hp
      · rintro (hf | hr' | hd)
        · exact absurd hf hfirst
        · exact absurd hr' hr
        · intro id p hp
          rw [hin]
          refine hd id p ?_
          rw [← hg]
          exact hp

/-- What `initialize` leaves of the file: the default grants, or what was there. -/
theorem file_initialize {c : AstraConfig}
    (hc : (h.step (.initializeCore save)).core.file = .holds c) :
    (¬ h.Readable ∧ c.authorizedPackages = defaultGrants.readBack) ∨ h.core.file = .holds c := by
  by_cases hr : h.Readable
  · obtain ⟨c', hc', hne⟩ := hr
    exact .inr ((initializeCore_of_readable save hc' hne).2.symm.trans hc)
  · obtain ⟨-, d, hd, hfile⟩ := initializeCore_of_not_readable save hr
    have hwritten : h.core.file.write d save = .holds c := hfile.symm.trans hc
    cases save with
    | ok =>
      obtain rfl := ConfigFile.holds.inj hwritten
      exact .inl ⟨hr, congrArg Grants.readBack hd⟩
    | failed => exact .inr hwritten
    | torn => cases hwritten

/-- What is in the last map stays there when the process is initialized. -/
theorem inLast_initialize {id p : JString} (hp : h.InLast id p) :
    (h.step (.initializeCore save)).InLast id p := by
  obtain ⟨g, hg, hmem⟩ := hp
  refine ⟨g, ?_, hmem⟩
  unfold step
  simp only
  split
  · rename_i hl
    rw [hl] at hg
    cases hg
  · exact hg

theorem inv_initialize (hi : Inv h) (hok : h.StepOk (.initializeCore save)) :
    Inv (h.step (.initializeCore save)) := by
  have hclosed := (failClosed_initialize_iff save hi).2 hok
  refine ⟨hclosed, ?_, fun c hc id p hp => ?_, fun c hc => ?_⟩
  · show (h.core.initializeCore save).engine.granted.Plain
    by_cases hr : h.Readable
    · obtain ⟨c, hc, hne⟩ := hr
      rw [(initializeCore_of_readable _ hc hne).1]
      exact hi.plainFile c hc
    · rw [(initializeCore_of_not_readable _ hr).1]
      exact plain_defaultGrants
  · rcases file_initialize hc with ⟨hr, hdef⟩ | hold
    · refine hclosed id p ?_
      rw [hdef, Grants.list_readBack plain_defaultGrants] at hp
      show p ∈ (h.core.initializeCore save).engine.granted.list id
      rw [(initializeCore_of_not_readable _ hr).1]
      exact hp
    · exact inLast_initialize (hi.file c hold id p hp)
  · rcases file_initialize hc with ⟨-, hdef⟩ | hold
    · rw [hdef]
      exact plain_defaultGrants.readBack
    · exact hi.plainFile c hold

/-! ### Runs -/

theorem inv_restart (hi : Inv h) (found : Found) : Inv (h.step (.restart found)) := by
  refine ⟨fun id p hp => ?_, plain_empty, fun c hc => hi.file c (Found.file_eq hc),
    fun c hc => hi.plainFile c (Found.file_eq hc)⟩
  rw [show (h.step (.restart found)).core.engine.list id = ∅ from rfl] at hp
  simp at hp

/-- **Every permitted step keeps memory and file within the last map handed over.** -/
theorem inv_step (h : History) (op : CoreOp) (hi : Inv h) (hok : h.StepOk op) :
    Inv (h.step op) := by
  cases op with
  | initializeCore save => exact inv_initialize hi hok
  | updatePermission id p granted save =>
    cases granted with
    | true => exact inv_persist hi (plain_grant hi.plainEngine hok.1.1 hok.1.2) hok.2
    | false => exact inv_persist hi (plain_revoke hi.plainEngine id p) hok
  | requestAndPersistPermission id p save =>
    simp only [step, AstraCore.requestAndPersistPermission_eq]
    split_ifs with hallows
    · exact inv_persist hi (plain_grant hi.plainEngine hok.1.1 hok.1.2) fun hf => hok.2 hf hallows
    · exact hi
  | restart found => exact inv_restart hi found

/-- **Permissions are fail-closed across restarts.**  In every run from before the first start
whose steps meet the condition, the permissions in force are within the last map handed over. -/
theorem failClosed_run {ops : List CoreOp} (hok : Runs.Along step StepOk initial ops) :
    (Runs.run step initial ops).FailClosed :=
  (Runs.run_invariant_of (I := Inv) inv_step inv_initial hok).engine

/-- What the file grants beyond the last map is in force again after the next start. -/
theorem not_failClosed_of_stale {c : AstraConfig} (hc : h.core.file = .holds c) {id p : JString}
    (hp : p ∈ c.authorizedPackages.list id) (hnot : ¬ h.InLast id p) (save : SaveResult) :
    ¬ (Runs.run step h [.restart .asWritten, .initializeCore save]).FailClosed := by
  intro hclosed
  have hne : c.authorizedPackages.entries.isEmpty = false := by
    rw [← Bool.not_eq_true, List.isEmpty_iff]
    intro hnil
    unfold Grants.list AList.lookup at hp
    rw [hnil] at hp
    simp at hp
  have hfile : (h.step (.restart .asWritten)).core.file = .holds c := hc
  have hin : p ∈ ((h.step (.restart .asWritten)).core.initializeCore save).engine.list id := by
    show p ∈ Grants.list _ id
    rw [(initializeCore_of_readable _ hfile hne).1]
    exact hp
  obtain ⟨g, hg, hmem⟩ := hclosed id p hin
  refine hnot ⟨g, ?_, hmem⟩
  rw [← hg]
  show h.last = match (h.step (.restart .asWritten)).core.file, h.last with
    | .absent, none => some defaultGrants
    | _, last => last
  rw [hfile]

/-- `com.android.shell`. -/
def shell : JString := ofString "com.android.shell"

/-- `su`. -/
def su : JString := ofString "su"

/-- First start; the user takes `su` from the shell; the process starts again. -/
def revokedThen (found : Found) : List CoreOp :=
  [.initializeCore .ok, .updatePermission shell su false .ok, .restart found, .initializeCore .ok]

theorem failClosed_asWritten :
    Runs.Along step StepOk initial (revokedThen .asWritten) ∧
      (Runs.run step initial (revokedThen .asWritten)).FailClosed := by
  have hok : Runs.Along step StepOk initial (revokedThen .asWritten) := by
    exact ⟨.inl ⟨rfl, rfl⟩, nofun, trivial, .inr (.inl ⟨_, rfl, rfl⟩), trivial⟩
  exact ⟨hok, failClosed_run hok⟩

/-- A file that was cut short gives `su` back to the shell. -/
theorem not_failClosed_truncated :
    ¬ (Runs.run step initial (revokedThen .truncated)).FailClosed := by
  intro hclosed
  obtain ⟨g, hg, hp⟩ := hclosed shell su (by decide)
  obtain rfl := Option.some.inj hg
  exact absurd hp (by decide)

end History

end AstraVeil.Core
