import AstraVeil.Core.LeaseManager
import AstraVeil.Lib.KotlinNumbers
import AstraVeil.Lib.Linked

/-!
# SecuritySnapshot.kt: what two snapshots differ in

Snapshots of the security state, kept in a list, and their comparison.

* `hasChanges_iff`: `diff` sees the grants, the lease ids, the provider and the module states;
* `diff_detects_iff`: when that tells whether the two security states differ;
* `diff_reconstructs`: the grants of the new snapshot are the old ones with the differences
  applied, and the difference the other way round is the mirror image.
-/

namespace AstraVeil.Core

open Utf16 KotlinString Finmaps Linked

/-- `SecuritySnapshot`. -/
structure SecuritySnapshot where
  snapshotId : JString
  name : JString
  createdAtMs : Int64
  reason : JString
  permissionGrants : Map JString (LinkedSet JString)
  permissionDenials : Map JString (LinkedSet JString)
  activeLeases : List CapabilityLease
  auditChainHead : JString
  activeProviderId : JString
  moduleStates : Map JString JString
  astraveilVersion : JString

/-- `SnapshotDiff`. -/
structure SnapshotDiff where
  changes : List JString
  permissionsAdded : Map JString (LinkedSet JString)
  permissionsRemoved : Map JString (LinkedSet JString)
  providerChanged : Bool
  leasesAdded : ℕ
  leasesRemoved : ℕ

/-- `hasChanges`. -/
def SnapshotDiff.hasChanges (d : SnapshotDiff) : Bool := !d.changes.isEmpty

/-- The entries of `changes`. -/
inductive Change
  | gained (mod : JString) (added : LinkedSet JString)
  | lost (mod : JString) (removed : LinkedSet JString)
  | provider (old new : JString)
  | newLeases (leasesAdded : ℕ)
  | endedLeases (leasesRemoved : ℕ)
  | moduleState (modId : JString) (oldState newState : Option JString)

namespace Change

/-- `joinToString()`. -/
def joined (s : LinkedSet JString) : JString := (ofString ", ").intercalate s.toList

/-- The text of an entry. -/
def text : Change → JString
  | gained mod added => ofString "+" ++ mod ++ ofString ": gained " ++ joined added
  | lost mod removed => ofString "-" ++ mod ++ ofString ": lost " ++ joined removed
  | provider old new => ofString "Provider: " ++ old ++ ofString " → " ++ new
  | newLeases n => ofString "+" ++ decimal n ++ ofString " new leases"
  | endedLeases n => ofString "-" ++ decimal n ++ ofString " expired/revoked leases"
  | moduleState modId oldState newState =>
      ofString "Module " ++ modId ++ ofString ": " ++ oldState.getD (ofString "absent") ++
        ofString " → " ++ newState.getD (ofString "absent")

/-- The entry of the comparison the other way round. -/
def mirror : Change → Change
  | gained mod added => lost mod added
  | lost mod removed => gained mod removed
  | provider old new => provider new old
  | newLeases n => endedLeases n
  | endedLeases n => newLeases n
  | moduleState modId oldState newState => moduleState modId newState oldState

end Change

/-! ### Permissions -/

/-- `permissionGrants[mod] ?: emptySet()`. -/
def capsOf (m : Map JString (LinkedSet JString)) (mod : JString) : LinkedSet JString :=
  (m.lookup mod).getD ∅

/-- What the loop over the modules has collected. -/
structure PermissionChanges where
  changes : List Change
  permissionsAdded : Map JString (LinkedSet JString)
  permissionsRemoved : Map JString (LinkedSet JString)

/-- One round of the loop over the modules. -/
def permissionStep (old new : Map JString (LinkedSet JString)) (acc : PermissionChanges)
    (mod : JString) : PermissionChanges :=
  let oldCaps := capsOf old mod
  let newCaps := capsOf new mod
  let added := newCaps.minus oldCaps
  let removed := oldCaps.minus newCaps
  let acc :=
    if added.isNotEmpty then
      { acc with
        changes := acc.changes ++ [.gained mod added]
        permissionsAdded := put acc.permissionsAdded mod added }
    else acc
  if removed.isNotEmpty then
    { acc with
      changes := acc.changes ++ [.lost mod removed]
      permissionsRemoved := put acc.permissionsRemoved mod removed }
  else acc

/-- `allModules`. -/
def allModules {α : Type} (old new : Map JString α) : List JString :=
  ((keySet old).plus (keySet new)).toList

/-- The loop over the modules. -/
def permissionChanges (old new : Map JString (LinkedSet JString)) : PermissionChanges :=
  (allModules old new).foldl (permissionStep old new) ⟨[], ∅, ∅⟩

/-! ### The whole comparison -/

/-- The ids of leases. -/
def leaseIds (leases : List CapabilityLease) : LinkedSet JString :=
  LinkedSet.ofList (leases.map (·.leaseId))

/-- `leasesAdded`; with the snapshots exchanged `leasesRemoved`. -/
def leasesGained (old new : SecuritySnapshot) : ℕ :=
  ((leaseIds new.activeLeases).minus (leaseIds old.activeLeases)).toList.length

/-- The entries of the loop over the module states. -/
def moduleChanges (old new : Map JString JString) : List Change :=
  (allModules old new).filterMap fun modId =>
    if old.lookup modId ≠ new.lookup modId then
      some (.moduleState modId (old.lookup modId) (new.lookup modId))
    else none

/-- The entries of `changes`, in their order. -/
def changesOf (old new : SecuritySnapshot) : List Change :=
  (permissionChanges old.permissionGrants new.permissionGrants).changes ++
    (if old.activeProviderId ≠ new.activeProviderId then
      [.provider old.activeProviderId new.activeProviderId] else []) ++
    (if leasesGained old new > 0 then [.newLeases (leasesGained old new)] else []) ++
    (if leasesGained new old > 0 then [.endedLeases (leasesGained new old)] else []) ++
    moduleChanges old.moduleStates new.moduleStates

/-- The body of `diff`, for two snapshots that were found. -/
def compareSnapshots (old new : SecuritySnapshot) : SnapshotDiff :=
  let permissions := permissionChanges old.permissionGrants new.permissionGrants
  { changes := (changesOf old new).map Change.text
    permissionsAdded := permissions.permissionsAdded
    permissionsRemoved := permissions.permissionsRemoved
    providerChanged := decide (old.activeProviderId ≠ new.activeProviderId)
    leasesAdded := leasesGained old new
    leasesRemoved := leasesGained new old }

/-- `SnapshotManager`. -/
structure SnapshotManager where
  snapshots : List SecuritySnapshot := []
  maxSnapshots : Int32 := 50

namespace SnapshotManager

/-- `get`. -/
def get (s : SnapshotManager) (snapshotId : JString) : Option SecuritySnapshot :=
  s.snapshots.find? fun x => x.snapshotId == snapshotId

/-- `diff`. -/
def diff (s : SnapshotManager) (oldId newId : JString) : Option SnapshotDiff :=
  (s.get oldId).bind fun old => (s.get newId).bind fun new => some (compareSnapshots old new)

theorem diff_of_get {s : SnapshotManager} {oldId newId : JString} {old new : SecuritySnapshot}
    (hold : s.get oldId = some old) (hnew : s.get newId = some new) :
    s.diff oldId newId = some (compareSnapshots old new) := by
  rw [diff, hold, hnew]
  rfl

end SnapshotManager

/-! ### What the loop over the modules collects -/

section Permissions

variable (old new : Map JString (LinkedSet JString))

/-- What a module gains from `old` to `new`. -/
def gain (mod : JString) : LinkedSet JString := (capsOf new mod).minus (capsOf old mod)

/-- The entries of one module. -/
def permissionEntries (mod : JString) : List Change :=
  (if (gain old new mod).isNotEmpty then [.gained mod (gain old new mod)] else []) ++
    (if (gain new old mod).isNotEmpty then [.lost mod (gain new old mod)] else [])

/-- A module with what it gains, if that is something. -/
def record (f : JString → LinkedSet JString) (m : Map JString (LinkedSet JString))
    (mod : JString) : Map JString (LinkedSet JString) :=
  if (f mod).isNotEmpty then put m mod (f mod) else m

theorem lookup_foldl_record (f : JString → LinkedSet JString) (mods : List JString)
    (m : Map JString (LinkedSet JString)) (a : JString) :
    (mods.foldl (record f) m).lookup a =
      if a ∈ mods ∧ (f a).isNotEmpty = true then some (f a) else m.lookup a := by
  induction mods generalizing m with
  | nil => simp
  | cons mod mods ih =>
    rw [List.foldl_cons, ih, record]
    by_cases ha : a = mod
    · subst ha
      by_cases hf : (f a).isNotEmpty = true <;> simp [hf]
    · split_ifs with h1 h2 h2 h2 <;> simp_all [lookup_put_ne]

theorem permissionStep_spec (acc : PermissionChanges) (mod : JString) :
    permissionStep old new acc mod =
      { changes := acc.changes ++ permissionEntries old new mod
        permissionsAdded := record (gain old new) acc.permissionsAdded mod
        permissionsRemoved := record (gain new old) acc.permissionsRemoved mod } := by
  unfold permissionStep permissionEntries record gain
  by_cases ha : ((capsOf new mod).minus (capsOf old mod)).isNotEmpty = true <;>
    by_cases hr : ((capsOf old mod).minus (capsOf new mod)).isNotEmpty = true <;>
    simp [ha, hr]

theorem foldl_permissionStep (mods : List JString) (acc : PermissionChanges) :
    mods.foldl (permissionStep old new) acc =
      { changes := acc.changes ++ mods.flatMap (permissionEntries old new)
        permissionsAdded := mods.foldl (record (gain old new)) acc.permissionsAdded
        permissionsRemoved := mods.foldl (record (gain new old)) acc.permissionsRemoved } := by
  induction mods generalizing acc with
  | nil => simp
  | cons mod mods ih =>
    rw [List.foldl_cons, ih, permissionStep_spec, List.flatMap_cons, List.append_assoc]
    rfl

theorem mem_allModules {α : Type} {old new : Map JString α} {mod : JString} :
    mod ∈ allModules old new ↔ mod ∈ old ∨ mod ∈ new := LinkedSet.mem_plus

variable {old new}

theorem capsOf_of_notMem {m : Map JString (LinkedSet JString)} {mod : JString} (h : mod ∉ m) :
    capsOf m mod = ∅ := by
  rw [capsOf, AList.lookup_eq_none.2 h, Option.getD_none]

/-- A module that gains something is in one of the snapshots. -/
theorem mem_allModules_of_gain {mod : JString}
    (h : (gain old new mod).isNotEmpty = true) : mod ∈ allModules old new := by
  obtain ⟨c, hc⟩ := LinkedSet.isNotEmpty_iff.1 h
  have hnew : c ∈ capsOf new mod := (LinkedSet.mem_minus.1 hc).1
  by_contra hmod
  rw [capsOf_of_notMem fun hm => hmod (mem_allModules.2 (Or.inr hm))] at hnew
  exact LinkedSet.notMem_empty c hnew

theorem allModules_comm {α : Type} (old new : Map JString α) :
    (allModules old new).Perm (allModules new old) := LinkedSet.plus_comm_perm _ _

theorem permissionChanges_changes :
    (permissionChanges old new).changes =
      (allModules old new).flatMap (permissionEntries old new) := by
  rw [permissionChanges, foldl_permissionStep]
  rfl

/-- The stored sets: what a module gains, if that is something. -/
theorem lookup_permissionsAdded (mod : JString) :
    (permissionChanges old new).permissionsAdded.lookup mod =
      if (gain old new mod).isNotEmpty then some (gain old new mod) else none := by
  rw [permissionChanges, foldl_permissionStep]
  show ((allModules old new).foldl (record (gain old new)) ∅).lookup mod = _
  rw [lookup_foldl_record]
  by_cases h : (gain old new mod).isNotEmpty = true
  · simp [h, mem_allModules_of_gain h]
  · simp [h]

theorem lookup_permissionsRemoved (mod : JString) :
    (permissionChanges old new).permissionsRemoved.lookup mod =
      if (gain new old mod).isNotEmpty then some (gain new old mod) else none := by
  rw [permissionChanges, foldl_permissionStep]
  show ((allModules old new).foldl (record (gain new old)) ∅).lookup mod = _
  rw [lookup_foldl_record]
  by_cases h : (gain new old mod).isNotEmpty = true
  · simp [h, (allModules_comm new old).subset (mem_allModules_of_gain h)]
  · simp [h]

end Permissions

/-! ### Security states -/

/-- The sets of a map as a function; an absent module has the empty one. -/
def setsOf (m : Map JString (LinkedSet JString)) : JString → Set JString :=
  fun mod => {c | c ∈ capsOf m mod}

/-- The leases of a list. -/
def leaseSet (leases : List CapabilityLease) : Set CapabilityLease := {l | l ∈ leases}

/-- The ids of the leases of a list. -/
def leaseIdSet (leases : List CapabilityLease) : Set JString := {id | id ∈ leaseIds leases}

/-- Two snapshots with different security states. -/
def Differ (old new : SecuritySnapshot) : Prop :=
  setsOf old.permissionGrants ≠ setsOf new.permissionGrants ∨
    setsOf old.permissionDenials ≠ setsOf new.permissionDenials ∨
    leaseSet old.activeLeases ≠ leaseSet new.activeLeases ∨
    old.activeProviderId ≠ new.activeProviderId ∨
    old.moduleStates.lookup ≠ new.moduleStates.lookup

/-- The differences that `diff` looks for. -/
def SeenToDiffer (old new : SecuritySnapshot) : Prop :=
  setsOf old.permissionGrants ≠ setsOf new.permissionGrants ∨
    leaseIdSet old.activeLeases ≠ leaseIdSet new.activeLeases ∨
    old.activeProviderId ≠ new.activeProviderId ∨
    old.moduleStates.lookup ≠ new.moduleStates.lookup

theorem isNotEmpty_gain_iff {old new : Map JString (LinkedSet JString)} {mod : JString} :
    (gain old new mod).isNotEmpty = true ↔ ¬ setsOf new mod ⊆ setsOf old mod :=
  LinkedSet.isNotEmpty_minus_iff

theorem permissionEntries_eq_nil_iff {old new : Map JString (LinkedSet JString)} {mod : JString} :
    permissionEntries old new mod = [] ↔ setsOf old mod = setsOf new mod := by
  have hempty : ∀ o n, (gain o n mod).isNotEmpty = false ↔ setsOf n mod ⊆ setsOf o mod := by
    intro o n
    rw [← Bool.not_eq_true, isNotEmpty_gain_iff, not_not]
  rw [permissionEntries, List.append_eq_nil_iff, Set.Subset.antisymm_iff, ← hempty, ← hempty]
  simp [and_comm]

theorem permissionChanges_eq_nil_iff {old new : Map JString (LinkedSet JString)} :
    (permissionChanges old new).changes = [] ↔ setsOf old = setsOf new := by
  rw [permissionChanges_changes, List.flatMap_eq_nil_iff, funext_iff]
  refine ⟨fun h mod => ?_, fun h mod _ => permissionEntries_eq_nil_iff.2 (h mod)⟩
  by_cases hmod : mod ∈ allModules old new
  · exact permissionEntries_eq_nil_iff.1 (h mod hmod)
  · rw [mem_allModules, not_or] at hmod
    simp only [setsOf, capsOf_of_notMem hmod.1, capsOf_of_notMem hmod.2]

theorem leasesGained_eq_zero_iff {old new : SecuritySnapshot} :
    leasesGained old new = 0 ↔ leaseIdSet new.activeLeases ⊆ leaseIdSet old.activeLeases := by
  have hempty := LinkedSet.isNotEmpty_minus_iff (s := leaseIds new.activeLeases)
    (t := leaseIds old.activeLeases)
  rw [LinkedSet.isNotEmpty, Bool.not_eq_true', ← Bool.not_eq_true, not_iff_not,
    List.isEmpty_iff] at hempty
  rw [leasesGained, List.length_eq_zero_iff, hempty]
  rfl

theorem moduleChanges_eq_nil_iff {old new : Map JString JString} :
    moduleChanges old new = [] ↔ old.lookup = new.lookup := by
  rw [moduleChanges, List.filterMap_eq_nil_iff, funext_iff]
  refine ⟨fun h modId => ?_, fun h modId _ => if_neg (not_not.2 (h modId))⟩
  by_cases hmod : modId ∈ allModules old new
  · by_contra hne
    have hnone := h modId hmod
    rw [if_pos hne] at hnone
    cases hnone
  · rw [mem_allModules, not_or] at hmod
    rw [AList.lookup_eq_none.2 hmod.1, AList.lookup_eq_none.2 hmod.2]

/-- `diff` reports changes exactly for the differences it looks for. -/
theorem hasChanges_iff (old new : SecuritySnapshot) :
    (compareSnapshots old new).hasChanges = true ↔ SeenToDiffer old new := by
  have hsame : changesOf old new = [] ↔
      setsOf old.permissionGrants = setsOf new.permissionGrants ∧
        leaseIdSet old.activeLeases = leaseIdSet new.activeLeases ∧
        old.activeProviderId = new.activeProviderId ∧
        old.moduleStates.lookup = new.moduleStates.lookup := by
    rw [subset_antisymm_iff (a := leaseIdSet _), ← leasesGained_eq_zero_iff,
      ← leasesGained_eq_zero_iff]
    simp only [changesOf, List.append_eq_nil_iff, permissionChanges_eq_nil_iff,
      moduleChanges_eq_nil_iff, ite_eq_right_iff, List.cons_ne_nil, imp_false, not_not, gt_iff_lt,
      not_lt, Nat.le_zero]
    tauto
  rw [SnapshotDiff.hasChanges, Bool.not_eq_true', ← Bool.not_eq_true, List.isEmpty_iff]
  show ¬ (changesOf old new).map Change.text = [] ↔ _
  rw [List.map_eq_nil_iff, hsame, SeenToDiffer]
  tauto

/-- What `diff` sees is a difference. -/
theorem differ_of_seen {old new : SecuritySnapshot} (h : SeenToDiffer old new) :
    Differ old new := by
  rcases h with h | h | h | h
  · exact Or.inl h
  · refine Or.inr (Or.inr (Or.inl fun heq => h ?_))
    have hids : ∀ s : SecuritySnapshot, leaseIdSet s.activeLeases =
        (·.leaseId) '' leaseSet s.activeLeases := by
      intro s
      ext id
      simp [leaseIdSet, leaseSet, leaseIds]
    rw [hids, hids, heq]
  · exact Or.inr (Or.inr (Or.inr (Or.inl h)))
  · exact Or.inr (Or.inr (Or.inr (Or.inr h)))

/-- `diff` tells whether two security states differ, unless nothing but denials or the contents of
leases have changed. -/
theorem diff_detects_iff {s : SnapshotManager} {oldId newId : JString} {old new : SecuritySnapshot}
    (hold : s.get oldId = some old) (hnew : s.get newId = some new) :
    ∃ d, s.diff oldId newId = some d ∧
      ((d.hasChanges = true ↔ Differ old new) ↔
        (SeenToDiffer old new ∨
          setsOf old.permissionDenials = setsOf new.permissionDenials ∧
            leaseSet old.activeLeases = leaseSet new.activeLeases)) := by
  refine ⟨_, SnapshotManager.diff_of_get hold hnew, ?_⟩
  rw [hasChanges_iff]
  by_cases hseen : SeenToDiffer old new
  · simp [hseen, differ_of_seen hseen]
  · have hdiffer : Differ old new ↔
        setsOf old.permissionDenials ≠ setsOf new.permissionDenials ∨
          leaseSet old.activeLeases ≠ leaseSet new.activeLeases := by
      unfold SeenToDiffer at hseen
      unfold Differ
      tauto
    rw [hdiffer]
    tauto

/-! ### A lockdown -/

/-- The state before a lockdown. -/
def beforeLockdown : SecuritySnapshot :=
  { snapshotId := ofString "a", name := ofString "Before lockdown", createdAtMs := 0, reason := []
    permissionGrants := ∅, permissionDenials := ∅, activeLeases := [], auditChainHead := []
    activeProviderId := ofString "magisk", moduleStates := ∅, astraveilVersion := [] }

/-- The lockdown denies a capability to a module. -/
def afterLockdown : SecuritySnapshot :=
  { beforeLockdown with
    snapshotId := ofString "b"
    permissionDenials := put ∅ (ofString "fontmod") (LinkedSet.ofList [ofString "file_write"]) }

/-- Under another provider the module has a grant. -/
def afterGrant : SecuritySnapshot :=
  { beforeLockdown with
    snapshotId := ofString "c"
    activeProviderId := ofString "kernelsu"
    permissionGrants := put ∅ (ofString "fontmod") (LinkedSet.ofList [ofString "file_write"]) }

/-- The three states. -/
def lockdown : SnapshotManager :=
  { snapshots := [beforeLockdown, afterLockdown, afterGrant] }

theorem get_beforeLockdown : lockdown.get (ofString "a") = some beforeLockdown := rfl

theorem get_afterLockdown : lockdown.get (ofString "b") = some afterLockdown := rfl

theorem get_afterGrant : lockdown.get (ofString "c") = some afterGrant := rfl

/-- A new denial is a difference that `diff` does not report. -/
theorem denial_not_detected :
    lockdown.get (ofString "a") = some beforeLockdown ∧
      lockdown.get (ofString "b") = some afterLockdown ∧
      ¬ ∀ d, lockdown.diff (ofString "a") (ofString "b") = some d →
        (d.hasChanges = true ↔ Differ beforeLockdown afterLockdown) := by
  refine ⟨get_beforeLockdown, get_afterLockdown, fun h => ?_⟩
  have hdiffer : Differ beforeLockdown afterLockdown := by
    refine Or.inr (Or.inl fun heq => ?_)
    have hmem : ofString "file_write" ∈
        setsOf afterLockdown.permissionDenials (ofString "fontmod") := by
      show _ ∈ (capsOf _ _).toList
      decide
    rw [← heq] at hmem
    exact absurd hmem List.not_mem_nil
  have hsame : (compareSnapshots beforeLockdown afterLockdown).hasChanges = false := rfl
  have hdiff := SnapshotManager.diff_of_get get_beforeLockdown get_afterLockdown
  have hchanges := (h _ hdiff).2 hdiffer
  rw [hsame] at hchanges
  cases hchanges

/-- The grant under another provider is a difference that `diff` reports. -/
theorem grant_detected :
    lockdown.get (ofString "a") = some beforeLockdown ∧
      lockdown.get (ofString "c") = some afterGrant ∧
      ∃ d, lockdown.diff (ofString "a") (ofString "c") = some d ∧
        (d.hasChanges = true ↔ Differ beforeLockdown afterGrant) := by
  obtain ⟨d, hd, hiff⟩ := diff_detects_iff get_beforeLockdown get_afterGrant
  refine ⟨get_beforeLockdown, get_afterGrant, d, hd, hiff.2 (Or.inl ?_)⟩
  exact Or.inr (Or.inr (Or.inl (by decide)))

/-! ### Reconstruction -/

theorem setsOf_permissionsAdded (old new : Map JString (LinkedSet JString)) (mod : JString) :
    setsOf (permissionChanges old new).permissionsAdded mod = setsOf new mod \ setsOf old mod := by
  ext c
  show c ∈ capsOf _ mod ↔ c ∈ capsOf new mod ∧ c ∉ capsOf old mod
  rw [← LinkedSet.mem_minus, capsOf, lookup_permissionsAdded]
  split_ifs with h
  · rfl
  · exact iff_of_false (LinkedSet.notMem_empty c) fun hc => h (LinkedSet.isNotEmpty_iff.2 ⟨c, hc⟩)

theorem setsOf_permissionsRemoved (old new : Map JString (LinkedSet JString)) (mod : JString) :
    setsOf (permissionChanges old new).permissionsRemoved mod =
      setsOf old mod \ setsOf new mod := by
  have hmirror : (permissionChanges old new).permissionsRemoved.lookup mod =
      (permissionChanges new old).permissionsAdded.lookup mod := by
    rw [lookup_permissionsRemoved, lookup_permissionsAdded]
  rw [← setsOf_permissionsAdded, setsOf, setsOf, capsOf, capsOf, hmirror]

/-- The comparison the other way round: added and removed exchanged, and the entries mirrored. -/
structure Mirrored (d d' : SnapshotDiff) : Prop where
  permissionsAdded : d'.permissionsAdded.lookup = d.permissionsRemoved.lookup
  permissionsRemoved : d'.permissionsRemoved.lookup = d.permissionsAdded.lookup
  providerChanged : d'.providerChanged = d.providerChanged
  leasesAdded : d'.leasesAdded = d.leasesRemoved
  leasesRemoved : d'.leasesRemoved = d.leasesAdded
  changes : ∃ entries : List Change, d.changes = entries.map Change.text ∧
    d'.changes.Perm ((entries.map Change.mirror).map Change.text)

theorem permissionEntries_mirror (old new : Map JString (LinkedSet JString)) (mod : JString) :
    (permissionEntries new old mod).Perm ((permissionEntries old new mod).map Change.mirror) := by
  rw [permissionEntries, permissionEntries, List.map_append]
  refine List.perm_append_comm.trans (List.Perm.of_eq ?_)
  congr 1 <;> split_ifs <;> rfl

theorem moduleChanges_mirror (old new : Map JString JString) :
    (moduleChanges new old).Perm ((moduleChanges old new).map Change.mirror) := by
  rw [moduleChanges, moduleChanges, List.map_filterMap]
  refine ((allModules_comm new old).filterMap _).trans (List.Perm.of_eq ?_)
  refine List.filterMap_congr fun modId _ => ?_
  by_cases h : old.lookup modId = new.lookup modId
  · simp [h]
  · have h' : new.lookup modId ≠ old.lookup modId := Ne.symm h
    simp [h, h', Change.mirror]

/-- The entries of the comparison the other way round. -/
theorem changesOf_mirror (old new : SecuritySnapshot) :
    (changesOf new old).Perm ((changesOf old new).map Change.mirror) := by
  simp only [changesOf, permissionChanges_changes, List.map_append, List.map_flatMap,
    List.append_assoc]
  refine List.Perm.append ?_ (List.Perm.append ?_ ?_)
  · exact ((allModules_comm _ _).flatMap_right _).trans
      (List.Perm.flatMap_left _ fun mod _ => permissionEntries_mirror _ _ mod)
  · refine List.Perm.of_eq ?_
    by_cases h : old.activeProviderId = new.activeProviderId
    · simp [h]
    · have h' : new.activeProviderId ≠ old.activeProviderId := Ne.symm h
      simp [h, h', Change.mirror]
  · rw [← List.append_assoc, ← List.append_assoc]
    refine List.Perm.append (List.perm_append_comm.trans (List.Perm.of_eq ?_))
      (moduleChanges_mirror _ _)
    congr 1 <;> split_ifs <;> rfl

theorem compareSnapshots_mirrored (old new : SecuritySnapshot) :
    Mirrored (compareSnapshots old new) (compareSnapshots new old) where
  permissionsAdded := by
    funext mod
    exact (lookup_permissionsAdded mod).trans (lookup_permissionsRemoved mod).symm
  permissionsRemoved := by
    funext mod
    exact (lookup_permissionsRemoved mod).trans (lookup_permissionsAdded mod).symm
  providerChanged := decide_eq_decide.2 ne_comm
  leasesAdded := rfl
  leasesRemoved := rfl
  changes := ⟨changesOf old new, rfl, (changesOf_mirror old new).map Change.text⟩

/-- **The old grants with the differences applied are the new ones.  Nothing is both added and
removed, no empty set is stored, and the comparison the other way round is the mirror image.** -/
theorem diff_reconstructs {s : SnapshotManager} {oldId newId : JString}
    {old new : SecuritySnapshot} (hold : s.get oldId = some old) (hnew : s.get newId = some new) :
    ∃ d d', s.diff oldId newId = some d ∧ s.diff newId oldId = some d' ∧
      (∀ mod, setsOf old.permissionGrants mod \ setsOf d.permissionsRemoved mod ∪
        setsOf d.permissionsAdded mod = setsOf new.permissionGrants mod) ∧
      (∀ mod, ∀ c ∈ setsOf d.permissionsAdded mod, c ∉ setsOf d.permissionsRemoved mod) ∧
      (∀ mod caps, d.permissionsAdded.lookup mod = some caps ∨
        d.permissionsRemoved.lookup mod = some caps → ∃ c, c ∈ caps) ∧
      Mirrored d d' := by
  refine ⟨_, _, SnapshotManager.diff_of_get hold hnew, SnapshotManager.diff_of_get hnew hold,
    fun mod => ?_, fun mod => ?_, fun mod caps h => ?_, compareSnapshots_mirrored old new⟩
  · simp only [compareSnapshots, setsOf_permissionsAdded, setsOf_permissionsRemoved]
    rw [Set.sdiff_sdiff_right_self, Set.inter_comm, Set.inter_union_sdiff]
  · simp only [compareSnapshots, setsOf_permissionsAdded, setsOf_permissionsRemoved]
    exact fun c hadded hremoved => hadded.2 hremoved.1
  · simp only [compareSnapshots, lookup_permissionsAdded, lookup_permissionsRemoved] at h
    rcases h with h | h <;> split_ifs at h with hne <;>
      exact Option.some.inj h ▸ LinkedSet.isNotEmpty_iff.1 hne

/-- The grant of the module, reconstructed. -/
theorem diff_reconstructs_grant :
    lockdown.get (ofString "a") = some beforeLockdown ∧
      lockdown.get (ofString "c") = some afterGrant ∧
      ∃ d d', lockdown.diff (ofString "a") (ofString "c") = some d ∧
        lockdown.diff (ofString "c") (ofString "a") = some d' ∧
        (∀ mod, setsOf beforeLockdown.permissionGrants mod \ setsOf d.permissionsRemoved mod ∪
          setsOf d.permissionsAdded mod = setsOf afterGrant.permissionGrants mod) ∧
        Mirrored d d' := by
  obtain ⟨d, d', hd, hd', hgrants, -, -, hmirror⟩ :=
    diff_reconstructs get_beforeLockdown get_afterGrant
  exact ⟨get_beforeLockdown, get_afterGrant, d, d', hd, hd', hgrants, hmirror⟩

end AstraVeil.Core
