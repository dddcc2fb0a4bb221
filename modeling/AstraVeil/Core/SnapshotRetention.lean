import AstraVeil.Core.SecuritySnapshot
import AstraVeil.Lib.Runs

/-!
# SecuritySnapshot.kt: how many snapshots are kept

`create` evicts the oldest snapshots over the limit, which anyone may set to any number; `import`
replaces all of them.  The clock, the new id and the decoder of the import are parameters.

* `evict_eq`: the eviction keeps the newest snapshots, or throws for a negative limit;
* `snapshots_suffix_added`: what is stored are the snapshots added last, in their order;
* `retention_iff`: the runs in which every `create` keeps what it returns and the limit holds.
-/

namespace AstraVeil.Core

open Utf16 Finmaps Linked Runs

/-- The parameters of `create`. -/
structure CreateArgs where
  name : JString
  reason : JString
  permissionGrants : Map JString (LinkedSet JString)
  permissionDenials : Map JString (LinkedSet JString)
  activeLeases : List CapabilityLease
  auditChainHead : JString
  activeProviderId : JString
  moduleStates : Map JString JString
  version : JString

/-- The snapshot that `create` makes, with the new id and the time. -/
def CreateArgs.snapshot (a : CreateArgs) (uuid : JString) (nowMs : Int64) : SecuritySnapshot :=
  { snapshotId := uuid
    name := a.name
    createdAtMs := nowMs
    reason := a.reason
    permissionGrants := a.permissionGrants
    permissionDenials := a.permissionDenials
    activeLeases := a.activeLeases
    auditChainHead := a.auditChainHead
    activeProviderId := a.activeProviderId
    moduleStates := a.moduleStates
    astraveilVersion := a.version }

namespace SnapshotManager

/-- The loop of `create`: `removeAt(0)` while there are more than `maxSnapshots`; `none` where it
throws, because none is left. -/
def evict (maxSnapshots : Int32) : List SecuritySnapshot → Option (List SecuritySnapshot)
  | [] => if 0 > maxSnapshots.toInt then none else some []
  | oldest :: rest =>
      if ((oldest :: rest).length : ℤ) > maxSnapshots.toInt then evict maxSnapshots rest
      else some (oldest :: rest)

/-- `create`; `none` where it throws, with all snapshots removed. -/
def create (s : SnapshotManager) (uuid : JString) (nowMs : Int64) (a : CreateArgs) :
    SnapshotManager × Option SecuritySnapshot :=
  let snapshot := a.snapshot uuid nowMs
  match evict s.maxSnapshots (s.snapshots ++ [snapshot]) with
  | some kept => ({ s with snapshots := kept }, some snapshot)
  | none => ({ s with snapshots := [] }, none)

/-- `delete`. -/
def delete (s : SnapshotManager) (snapshotId : JString) : SnapshotManager × Bool :=
  ({ s with snapshots := s.snapshots.filter fun x => x.snapshotId != snapshotId },
    s.snapshots.any fun x => x.snapshotId == snapshotId)

/-- What can happen to a `SnapshotManager`. -/
inductive Op
  | create (uuid : JString) (nowMs : Int64) (args : CreateArgs)
  | delete (snapshotId : JString)
  | importJson (jsonStr : JString)
  | setMaxSnapshots (value : Int32)

section Import

-- `decodeFromString`, with `none` where it throws
variable (decode : JString → Option (List SecuritySnapshot))

/-- `import`. -/
def importJson (s : SnapshotManager) (jsonStr : JString) : SnapshotManager × ℕ :=
  match decode jsonStr with
  | some imported => ({ s with snapshots := imported }, imported.length)
  | none => (s, 0)

/-- The state after an operation. -/
def step (s : SnapshotManager) : Op → SnapshotManager
  | .create uuid nowMs args => (s.create uuid nowMs args).1
  | .delete snapshotId => (s.delete snapshotId).1
  | .importJson jsonStr => (s.importJson decode jsonStr).1
  | .setMaxSnapshots value => { s with maxSnapshots := value }

/-- The snapshots added and not deleted since, the newest last. -/
def addedStep (added : List SecuritySnapshot) : Op → List SecuritySnapshot
  | .create uuid nowMs args => added ++ [args.snapshot uuid nowMs]
  | .delete snapshotId => added.filter fun x => x.snapshotId != snapshotId
  | .importJson jsonStr => (decode jsonStr).getD added
  | .setMaxSnapshots _ => added

/-- There are at most `max(1, maxSnapshots)` snapshots. -/
def Bounded (s : SnapshotManager) : Prop :=
  (s.snapshots.length : ℤ) ≤ max 1 s.maxSnapshots.toInt

/-- A `create` returns a snapshot that can be got, and it and an import leave not too many. -/
def Retained (s : SnapshotManager) : Op → Prop
  | .create uuid nowMs args =>
      ∃ snapshot, (s.create uuid nowMs args).2 = some snapshot ∧
        (s.create uuid nowMs args).1.get snapshot.snapshotId = some snapshot ∧
        (s.create uuid nowMs args).1.Bounded
  | .importJson jsonStr => (s.importJson decode jsonStr).1.Bounded
  | _ => True

/-- The id of a new snapshot is new. -/
def FreshId (s : SnapshotManager) : Op → Prop
  | .create uuid _ _ => ∀ x ∈ s.snapshots, x.snapshotId ≠ uuid
  | _ => True

/-- A `create` finds a positive limit, and an import does not go beyond it. -/
def LimitOk (s : SnapshotManager) : Op → Prop
  | .create _ _ _ => 1 ≤ s.maxSnapshots.toInt
  | .importJson jsonStr =>
      (((decode jsonStr).getD s.snapshots).length : ℤ) ≤ max 1 s.maxSnapshots.toInt
  | _ => True

/-! ### The eviction -/

/-- The newest snapshots are kept; the loop throws for a negative limit. -/
theorem evict_eq (limit : Int32) (l : List SecuritySnapshot) :
    evict limit l =
      if limit.toInt < 0 then none else some (l.drop (l.length - limit.toInt.toNat)) := by
  induction l with
  | nil => simp [evict]
  | cons oldest rest ih =>
    rw [evict]
    by_cases hover : ((oldest :: rest).length : ℤ) > limit.toInt
    · rw [if_pos hover, ih]
      rw [List.length_cons] at hover
      by_cases hneg : limit.toInt < 0
      · rw [if_pos hneg, if_pos hneg]
      · have hcount : (oldest :: rest).length - limit.toInt.toNat =
            (rest.length - limit.toInt.toNat) + 1 := by
          rw [List.length_cons]
          push_cast at hover
          omega
        rw [if_neg hneg, if_neg hneg, hcount, List.drop_succ_cons]
    · have hnone : (oldest :: rest).length - limit.toInt.toNat = 0 := by omega
      rw [if_neg hover, if_neg (by omega), hnone, List.drop_zero]

/-- What `create` does with a new snapshot. -/
theorem create_eq (s : SnapshotManager) (uuid : JString) (nowMs : Int64) (a : CreateArgs) :
    s.create uuid nowMs a =
      if s.maxSnapshots.toInt < 0 then ({ s with snapshots := [] }, none)
      else
        ({ s with
            snapshots := (s.snapshots ++ [a.snapshot uuid nowMs]).drop
              (s.snapshots.length + 1 - s.maxSnapshots.toInt.toNat) },
          some (a.snapshot uuid nowMs)) := by
  simp only [create, evict_eq, List.length_append, List.length_singleton]
  split_ifs <;> rfl

/-- The snapshots after a `create` are the newest of those before it and the new one. -/
theorem create_snapshots_suffix (s : SnapshotManager) (uuid : JString) (nowMs : Int64)
    (a : CreateArgs) :
    (s.create uuid nowMs a).1.snapshots <:+ s.snapshots ++ [a.snapshot uuid nowMs] := by
  rw [create_eq]
  split_ifs
  · exact List.nil_suffix
  · exact List.drop_suffix _ _

/-- What is stored are the snapshots added last. -/
theorem snapshots_suffix_added (ops : List Op) {s : SnapshotManager}
    {added : List SecuritySnapshot} (h : s.snapshots <:+ added) :
    (run (step decode) s ops).snapshots <:+ run (addedStep decode) added ops := by
  induction ops generalizing s added with
  | nil => exact h
  | cons op ops ih =>
    refine ih ?_
    cases op with
    | create uuid nowMs args =>
      obtain ⟨front, rfl⟩ := h
      refine (create_snapshots_suffix s uuid nowMs args).trans ⟨front, ?_⟩
      rw [← List.append_assoc]
      rfl
    | delete snapshotId => exact h.filter _
    | importJson jsonStr =>
      show (s.importJson decode jsonStr).1.snapshots <:+ (decode jsonStr).getD added
      unfold importJson
      cases decode jsonStr with
      | none => exact h
      | some imported => exact List.suffix_rfl
    | setMaxSnapshots value => exact h

/-- Where a `create` keeps what it returns. -/
theorem retained_create_iff {s : SnapshotManager} {uuid : JString} {nowMs : Int64}
    {a : CreateArgs} (hfresh : ∀ x ∈ s.snapshots, x.snapshotId ≠ uuid) :
    s.Retained decode (.create uuid nowMs a) ↔ 1 ≤ s.maxSnapshots.toInt := by
  unfold Retained
  simp only [create_eq]
  split_ifs with hneg
  · simp
    omega
  · simp only [Option.some.injEq, exists_eq_left']
    constructor
    · rintro ⟨hget, -⟩
      by_contra hlimit
      have hzero : s.maxSnapshots.toInt.toNat = 0 := by omega
      rw [get, hzero, Nat.sub_zero, List.drop_eq_nil_of_le (by simp)] at hget
      cases hget
    · intro hlimit
      rw [List.drop_append_of_le_length (by omega)]
      constructor
      · have hother : (s.snapshots.drop (s.snapshots.length + 1 - s.maxSnapshots.toInt.toNat)).find?
            (fun x => x.snapshotId == (a.snapshot uuid nowMs).snapshotId) = none := by
          rw [List.find?_eq_none]
          intro x hx
          simpa [CreateArgs.snapshot] using hfresh x (List.mem_of_mem_drop hx)
        rw [get, List.find?_append, hother, Option.none_or]
        exact List.find?_cons_of_pos (beq_self_eq_true _)
      · simp only [Bounded, List.length_append, List.length_drop, List.length_singleton]
        omega

/-- Where an operation respects the limit. -/
theorem retained_iff {s : SnapshotManager} {op : Op} (hfresh : s.FreshId op) :
    s.Retained decode op ↔ s.LimitOk decode op := by
  cases op with
  | create uuid nowMs args => exact retained_create_iff decode hfresh
  | delete snapshotId => exact Iff.rfl
  | importJson jsonStr =>
    show (s.importJson decode jsonStr).1.Bounded ↔
      (((decode jsonStr).getD s.snapshots).length : ℤ) ≤ max 1 s.maxSnapshots.toInt
    unfold importJson
    cases decode jsonStr <;> exact Iff.rfl
  | setMaxSnapshots value => exact Iff.rfl

/-- **In a run with new ids, every `create` returns a snapshot that is kept and every `create` and
every import leaves at most `max(1, maxSnapshots)` snapshots, those added last, exactly when every
`create` finds a positive limit and no import goes beyond it.** -/
theorem retention_iff (ops : List Op) (hfresh : Along (step decode) FreshId {} ops) :
    (∀ pre op post, ops = pre ++ op :: post →
      (run (step decode) {} pre).Retained decode op ∧
        (run (step decode) {} (pre ++ [op])).snapshots <:+
          run (addedStep decode) [] (pre ++ [op])) ↔
      Along (step decode) (LimitOk decode) {} ops := by
  rw [← along_congr_on (I := fun _ => True) (c := FreshId) (p := Retained decode)
    (fun s op _ hop => retained_iff decode hop) (fun _ _ _ _ _ => trivial) trivial hfresh,
    along_iff]
  constructor
  · intro h pre op post hcut
    exact (h pre op post hcut).1
  · intro h pre op post hcut
    exact ⟨h pre op post hcut, snapshots_suffix_added decode _ List.suffix_rfl⟩

end Import

/-! ### A snapshot of nothing -/

/-- The parameters for an empty security state. -/
def noArgs : CreateArgs :=
  { name := ofString "Before lockdown", reason := [], permissionGrants := ∅, permissionDenials := ∅
    activeLeases := [], auditChainHead := [], activeProviderId := [], moduleStates := ∅
    version := [] }

/-- A `create` with the limit set to `n` before. -/
def createUnder (n : Int32) : List Op := [.setMaxSnapshots n, .create (ofString "a") 0 noArgs]

theorem freshId_createUnder (n : Int32) :
    Along (step fun _ => none) FreshId {} (createUnder n) :=
  ⟨trivial, by simp [FreshId, step], trivial⟩

/-- Under a limit of one a snapshot is kept. -/
theorem retention_limit_one :
    Along (step fun _ => none) FreshId {} (createUnder 1) ∧
      ∀ pre op post, createUnder 1 = pre ++ op :: post →
        (run (step fun _ => none) {} pre).Retained (fun _ => none) op ∧
          (run (step fun _ => none) {} (pre ++ [op])).snapshots <:+
            run (addedStep fun _ => none) [] (pre ++ [op]) :=
  ⟨freshId_createUnder 1,
    (retention_iff (fun _ => none) (createUnder 1) (freshId_createUnder 1)).2
      ⟨trivial, show 1 ≤ (1 : Int32).toInt by decide, trivial⟩⟩

/-- Under a negative limit `create` throws. -/
theorem create_throws :
    Along (step fun _ => none) FreshId {} (createUnder (-1)) ∧
      ¬ ∀ pre op post, createUnder (-1) = pre ++ op :: post →
        (run (step fun _ => none) {} pre).Retained (fun _ => none) op := by
  refine ⟨freshId_createUnder (-1), fun h => ?_⟩
  obtain ⟨snapshot, hreturned, -⟩ :=
    h [.setMaxSnapshots (-1)] (.create (ofString "a") 0 noArgs) [] rfl
  have hnone : (create { maxSnapshots := -1 } (ofString "a") 0 noArgs).2 = none := rfl
  exact Option.some_ne_none _ (hreturned.symm.trans hnone)

end SnapshotManager

end AstraVeil.Core
