import AstraVeil.Core.LeaseManager

/-!
# The daemon's copy of the leases

`daemon/src/security/lease_tracker.cpp`: what the daemon knows of the leases that the app's
`LeaseManager` has given out.  The table here holds fewer fields, it asks for the permanent lease
explicitly, and it has its own sweeper.  Every operation reads the clock once, under the mutex; the
reading is an argument.  The daemon compares the texts as UTF-8 and the app as UTF-16, which makes
no difference for texts that can be sent at all.

* `hasActiveLease_of_synced`: the app and the daemon give the same answer on the same leases;
* `answers_filter`: the sweepers, of either side and whenever they run, change no answer;
* `agree`: both together.
-/

namespace AstraVeil.Daemon

open Utf16 Finmaps AstraVeil.Core

/-- `LeaseEntry`. -/
structure LeaseEntry where
  leaseId : JString
  moduleId : JString
  capability : JString
  expiresAtMs : Int64
  revoked : Bool
  deriving DecidableEq

namespace LeaseEntry

/-- The condition on an entry in `hasActiveLease` and in `activeCount`. -/
def isActive (e : LeaseEntry) (now : Int64) : Bool :=
  !e.revoked && (decide (e.expiresAtMs = Int64.maxValue) || decide (now < e.expiresAtMs))

/-- The condition on an entry in `sweep`. -/
def isExpired (e : LeaseEntry) (now : Int64) : Bool :=
  !e.revoked && decide (e.expiresAtMs ≠ Int64.maxValue) && decide (now ≥ e.expiresAtMs)

end LeaseEntry

/-- `LeaseTracker`: the entries by id. -/
abbrev LeaseTracker := Map JString LeaseEntry

namespace LeaseTracker

/-- `upsert`. -/
def upsert (t : LeaseTracker) (leaseId moduleId capability : JString) (expiresAtMs : Int64)
    (revoked : Bool) : LeaseTracker :=
  t.insert leaseId ⟨leaseId, moduleId, capability, expiresAtMs, revoked⟩

/-- `hasActiveLease`. -/
def hasActiveLease (t : LeaseTracker) (moduleId capability : JString) (now : Int64) : Bool :=
  t.entries.any fun e =>
    decide (e.2.moduleId = moduleId) && decide (e.2.capability = capability) && e.2.isActive now

/-- `sweep`. -/
def sweep (t : LeaseTracker) (now : Int64) : LeaseTracker :=
  collect (fun _ e => some (if e.isExpired now then { e with revoked := true } else e)) t

theorem lookup_sweep (t : LeaseTracker) (now : Int64) (leaseId : JString) :
    (t.sweep now).lookup leaseId =
      (t.lookup leaseId).map fun e =>
        if e.isExpired now then { e with revoked := true } else e := by
  rw [sweep, lookup_collect]
  cases t.lookup leaseId <;> rfl

end LeaseTracker

/-- The two tables. -/
structure Leases where
  manager : LeaseManager
  tracker : LeaseTracker

namespace Leases

/-- A lease put into both tables: `leases[lease.leaseId] = lease` on one side, `upsert` with the
lease's values on the other. -/
def put (s : Leases) (l : CapabilityLease) : Leases where
  manager := s.manager.insert l.leaseId l
  tracker := s.tracker.upsert l.leaseId l.moduleId l.capability l.expiresAtMs l.revoked

/-- Both tables, filled with the same leases. -/
def ofLeases (leases : List CapabilityLease) : Leases := leases.foldl put ⟨∅, ∅⟩

/-- What happens to the tables: a query to both sides, or a round of one of the sweepers. -/
inductive Event
  | hasActiveLease (moduleId capability : JString)
  | sweepManager
  | sweepTracker

/-- Not a sweep. -/
def Event.isQuery : Event → Bool
  | .hasActiveLease .. => true
  | _ => false

/-- The answers of the app and of the daemon to the queries, in order, each event at the time its
clock reads. -/
def answers (s : Leases) : List (Int64 × Event) → List (Bool × Bool)
  | [] => []
  | (now, .hasActiveLease moduleId capability) :: as =>
      (s.manager.hasActiveLease moduleId capability now,
        s.tracker.hasActiveLease moduleId capability now) :: answers s as
  | (now, .sweepManager) :: as => answers { s with manager := s.manager.sweep now } as
  | (now, .sweepTracker) :: as => answers { s with tracker := s.tracker.sweep now } as

/-! ### The same leases on both sides -/

/-- What the daemon keeps of a lease. -/
def entryOf (l : CapabilityLease) : LeaseEntry :=
  ⟨l.leaseId, l.moduleId, l.capability, l.expiresAtMs, l.revoked⟩

/-- The tracker has the entries of the manager's leases. -/
def Synced (s : Leases) : Prop :=
  ∀ leaseId, s.tracker.lookup leaseId = (s.manager.lookup leaseId).map entryOf

theorem synced_put {s : Leases} (h : s.Synced) (l : CapabilityLease) : (s.put l).Synced := by
  intro leaseId
  by_cases hid : leaseId = l.leaseId
  · subst hid
    simp [put, LeaseTracker.upsert, entryOf]
  · simpa [put, LeaseTracker.upsert, AList.lookup_insert_ne hid] using h leaseId

theorem synced_ofLeases (leases : List CapabilityLease) : (ofLeases leases).Synced := by
  have hempty : Synced ⟨∅, ∅⟩ := fun _ => rfl
  have hput : ∀ s l, Synced s → Synced (put s l) := fun _ l h => synced_put h l
  exact Runs.run_invariant hput hempty leases

/-- Before the end of time the explicit test for the permanent lease adds nothing. -/
theorem isActive_entryOf (l : CapabilityLease) {now : Int64} (hnow : now < Int64.maxValue) :
    (entryOf l).isActive now = l.isActive now := by
  unfold LeaseEntry.isActive CapabilityLease.isActive entryOf
  by_cases hmax : l.expiresAtMs = Int64.maxValue
  · simp [hmax, hnow]
  · simp only [hmax, decide_false, Bool.false_or]

/-- The search of the manager looks for such a lease. -/
def grants (moduleId capability : JString) (now : Int64) (l : CapabilityLease) : Bool :=
  decide (l.moduleId = moduleId) && decide (l.capability = capability) && l.isActive now

/-- The search of the tracker looks for such an entry. -/
def entryGrants (moduleId capability : JString) (now : Int64) (e : LeaseEntry) : Bool :=
  decide (e.moduleId = moduleId) && decide (e.capability = capability) && e.isActive now

theorem hasActiveLease_of_synced {s : Leases} (h : s.Synced) (moduleId capability : JString)
    {now : Int64} (hnow : now < Int64.maxValue) :
    s.manager.hasActiveLease moduleId capability now =
      s.tracker.hasActiveLease moduleId capability now := by
  refine any_entries_congr (p := grants moduleId capability now)
    (q := entryGrants moduleId capability now) fun leaseId => ?_
  rw [h leaseId, Option.map_map]
  refine Option.map_congr fun l _ => ?_
  rw [Function.comp_apply, entryGrants, isActive_entryOf l hnow]
  rfl

/-! ### Sweeping -/

/-- Sweeping marks only leases that have run out, and these were not active any more. -/
theorem isActive_swept (l : CapabilityLease) {t now : Int64} (ht : t ≤ now) :
    (if LeaseManager.isExpired t l then { l with revoked := true } else l).isActive now =
      l.isActive now := by
  split_ifs with hexp
  · simp only [LeaseManager.isExpired, Bool.and_eq_true, decide_eq_true_eq] at hexp
    have hout : l.expiresAtMs ≤ now := Int64.le_trans hexp.2 ht
    simp [CapabilityLease.isActive, hout]
  · rfl

theorem entry_isActive_swept (e : LeaseEntry) {t now : Int64} (ht : t ≤ now) :
    (if e.isExpired t then { e with revoked := true } else e).isActive now = e.isActive now := by
  split_ifs with hexp
  · simp only [LeaseEntry.isExpired, Bool.and_eq_true, decide_eq_true_eq] at hexp
    have hout : e.expiresAtMs ≤ now := Int64.le_trans hexp.2 ht
    simp [LeaseEntry.isActive, hout, hexp.1.2]
  · rfl

theorem manager_hasActiveLease_sweep (s : LeaseManager) (moduleId capability : JString)
    {t now : Int64} (ht : t ≤ now) :
    (s.sweep t).hasActiveLease moduleId capability now =
      s.hasActiveLease moduleId capability now := by
  refine any_entries_congr (p := grants moduleId capability now)
    (q := grants moduleId capability now) fun leaseId => ?_
  rw [LeaseManager.lookup_sweep, Option.map_map]
  refine Option.map_congr fun l _ => ?_
  rw [Function.comp_apply, grants, isActive_swept l ht, grants]
  split_ifs <;> rfl

theorem tracker_hasActiveLease_sweep (s : LeaseTracker) (moduleId capability : JString)
    {t now : Int64} (ht : t ≤ now) :
    (s.sweep t).hasActiveLease moduleId capability now =
      s.hasActiveLease moduleId capability now := by
  refine any_entries_congr (p := entryGrants moduleId capability now)
    (q := entryGrants moduleId capability now) fun leaseId => ?_
  rw [LeaseTracker.lookup_sweep, Option.map_map]
  refine Option.map_congr fun e _ => ?_
  rw [Function.comp_apply, entryGrants, entry_isActive_swept e ht, entryGrants]
  split_ifs <;> rfl

/-- Both sides answer all queries at the time alike. -/
def AlikeAt (now : Int64) (s s' : Leases) : Prop :=
  ∀ moduleId capability,
    s.manager.hasActiveLease moduleId capability now =
        s'.manager.hasActiveLease moduleId capability now ∧
      s.tracker.hasActiveLease moduleId capability now =
        s'.tracker.hasActiveLease moduleId capability now

/-- The sweeps of a history can be left out of it. -/
theorem answers_filter {s s' : Leases} {as : List (Int64 × Event)}
    (hclock : as.Pairwise fun a b => a.1 ≤ b.1) (h : ∀ a ∈ as, AlikeAt a.1 s s') :
    answers s as = answers s' (as.filter fun a => a.2.isQuery) := by
  induction as generalizing s with
  | nil => rfl
  | cons a as ih =>
    obtain ⟨now, e⟩ := a
    rw [List.pairwise_cons] at hclock
    rw [List.forall_mem_cons] at h
    obtain ⟨hlater, hclock⟩ := hclock
    obtain ⟨hnow, h⟩ := h
    cases e with
    | hasActiveLease moduleId capability =>
      obtain ⟨hm, ht⟩ := hnow moduleId capability
      simp only at hm ht
      simp only [answers, List.filter_cons, Event.isQuery, if_true, hm, ht, ih hclock h]
    | sweepManager =>
      -- the tables differ from here on, but not in any answer that is still to come
      refine ih hclock fun b hb m c => ⟨?_, (h b hb m c).2⟩
      exact (manager_hasActiveLease_sweep s.manager m c (hlater b hb)).trans (h b hb m c).1
    | sweepTracker =>
      refine ih hclock fun b hb m c => ⟨(h b hb m c).1, ?_⟩
      exact (tracker_hasActiveLease_sweep s.tracker m c (hlater b hb)).trans (h b hb m c).2

/-- **The app and the daemon agree on leases**: filled with the same leases they give the same
answer at every time, and whichever sweeps come in between, the answers are those without them. -/
theorem agree (leases : List CapabilityLease) :
    (∀ moduleId capability (now : Int64), now < Int64.maxValue →
      (ofLeases leases).manager.hasActiveLease moduleId capability now =
        (ofLeases leases).tracker.hasActiveLease moduleId capability now) ∧
      ∀ as : List (Int64 × Event), as.Pairwise (fun a b => a.1 ≤ b.1) →
        answers (ofLeases leases) as =
          answers (ofLeases leases) (as.filter fun a => a.2.isQuery) := by
  constructor
  · intro moduleId capability now hnow
    exact hasActiveLease_of_synced (synced_ofLeases leases) moduleId capability hnow
  · intro as hclock
    exact answers_filter hclock fun _ _ _ _ => ⟨rfl, rfl⟩

/-- A permanent lease, and one that runs out at 10. -/
def twoLeases : List CapabilityLease :=
  [⟨[1], [7], [8], 0, Int64.maxValue, true, 3, 0, false, []⟩,
    ⟨[2], [7], [9], 0, 10, true, 3, 0, false, []⟩]

/-- Queries just before and just at the expiry, with sweeps around them. -/
def sweptQueries : List (Int64 × Leases.Event) :=
  [(4, .sweepManager), (9, .hasActiveLease [7] [9]), (10, .sweepTracker),
    (10, .hasActiveLease [7] [9]), (10, .sweepManager), (11, .hasActiveLease [7] [8])]

/-- The short lease is there until it runs out, the permanent one after that. -/
theorem agree_twoLeases :
    (ofLeases twoLeases).manager.hasActiveLease [7] [8] 11 =
        (ofLeases twoLeases).tracker.hasActiveLease [7] [8] 11 ∧
      answers (ofLeases twoLeases) sweptQueries =
        answers (ofLeases twoLeases) (sweptQueries.filter fun a => a.2.isQuery) ∧
      answers (ofLeases twoLeases) sweptQueries = [(true, true), (false, false), (true, true)] :=
  ⟨(agree twoLeases).1 [7] [8] 11 (by decide), (agree twoLeases).2 sweptQueries (by decide),
    by decide⟩

end Leases

end AstraVeil.Daemon
