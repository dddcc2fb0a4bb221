import AstraVeil.Lib.Runs
import AstraVeil.Lib.Finmap
import AstraVeil.Lib.Utf16

/-!
# Capability leases

`core/capability/lease/LeaseManager.kt` and `CapabilityLease.kt`: leases by their id, each with an
expiry time and a flag that revocation and the sweeper set.  Every operation runs under the mutex
and reads the clock at most once for the leases; the reading is part of the operation, and so is the
id that `UUID.randomUUID()` gives to a new lease.  The events are for display only and are left
out; the counter of active leases is added in `ActiveCount`.

* `dead_step`, `dead_run`: what is expired or revoked stays so, unless a lease is renewed behind its
  expiry;
* `staysDead_iff`: the runs in which no lease comes back are exactly those without such a renewal.
-/

namespace AstraVeil.Core

open Utf16 Finmaps

/-- `CapabilityLease`. -/
structure CapabilityLease where
  leaseId : JString
  moduleId : JString
  capability : JString
  grantedAtMs : Int64
  expiresAtMs : Int64
  renewable : Bool
  maxRenewals : Int32
  renewalCount : Int32
  revoked : Bool
  reason : JString
  deriving DecidableEq

namespace CapabilityLease

/-- `isActive`. -/
def isActive (l : CapabilityLease) (nowMs : Int64) : Bool :=
  !l.revoked && decide (nowMs < l.expiresAtMs)

/-- `canRenew`. -/
def canRenew (l : CapabilityLease) : Bool :=
  l.renewable && decide (l.renewalCount < l.maxRenewals) && !l.revoked

/-- A lease that can be renewed is not revoked. -/
theorem revoked_eq_false_of_canRenew {l : CapabilityLease} (h : l.canRenew = true) :
    l.revoked = false := by
  simp only [canRenew, Bool.and_eq_true] at h
  simpa using h.2

/-- `renew`; `none` where `require` throws. -/
def renew (l : CapabilityLease) (additionalMs nowMs : Int64) : Option CapabilityLease :=
  if l.canRenew then
    some { l with
      grantedAtMs := nowMs
      expiresAtMs := nowMs + additionalMs
      renewalCount := l.renewalCount + 1 }
  else none

/-- `revoke`. -/
def revoke (l : CapabilityLease) : CapabilityLease := { l with revoked := true }

/-- `DURATION_PERMANENT`. -/
def durationPermanent : Int64 := Int64.maxValue

end CapabilityLease

/-- `LeaseManager`: the leases by id. -/
abbrev LeaseManager := Map JString CapabilityLease

namespace LeaseManager

/-- `issue`, with the new id. -/
def issue (s : LeaseManager) (now : Int64) (uuid moduleId capability : JString)
    (durationMs : Int64) (renewable : Bool) (maxRenewals : Int32) (reason : JString) :
    LeaseManager × CapabilityLease :=
  let lease : CapabilityLease :=
    { leaseId := uuid, moduleId := moduleId, capability := capability, grantedAtMs := now
      expiresAtMs := if durationMs = CapabilityLease.durationPermanent then Int64.maxValue
        else now + durationMs
      renewable := renewable, maxRenewals := maxRenewals, renewalCount := 0, revoked := false
      reason := reason }
  (s.insert uuid lease, lease)

/-- `renew`. -/
def renew (s : LeaseManager) (now : Int64) (leaseId : JString) (additionalMs : Int64) :
    LeaseManager × Option CapabilityLease :=
  match s.lookup leaseId with
  | none => (s, none)
  | some existing =>
      if existing.canRenew = false then (s, none)
      else
        match existing.renew additionalMs now with
        | none => (s, none)
        | some renewed => (s.insert leaseId renewed, some renewed)

/-- `revoke`. -/
def revoke (s : LeaseManager) (leaseId : JString) : LeaseManager × Bool :=
  match s.lookup leaseId with
  | none => (s, false)
  | some existing => (s.insert leaseId existing.revoke, true)

/-- The leases that `sweep` takes for expired. -/
def isExpired (now : Int64) (l : CapabilityLease) : Bool :=
  !l.revoked && decide (l.expiresAtMs ≠ Int64.maxValue) && decide (now ≥ l.expiresAtMs)

/-- `sweep`. -/
def sweep (s : LeaseManager) (now : Int64) : LeaseManager :=
  collect (fun _ l => some (if isExpired now l then { l with revoked := true } else l)) s

/-- `hasActiveLease`. -/
def hasActiveLease (s : LeaseManager) (moduleId capability : JString) (now : Int64) : Bool :=
  s.entries.any fun e =>
    decide (e.2.moduleId = moduleId) && decide (e.2.capability = capability) && e.2.isActive now

/-! ### Runs -/

/-- The operations. -/
inductive Op
  | issue (uuid moduleId capability : JString) (durationMs : Int64) (renewable : Bool)
      (maxRenewals : Int32) (reason : JString)
  | renew (leaseId : JString) (additionalMs : Int64)
  | revoke (leaseId : JString)
  | sweep

/-- One operation, at the time it reads. -/
def step (s : LeaseManager) (a : Int64 × Op) : LeaseManager :=
  match a.2 with
  | .issue uuid moduleId capability durationMs renewable maxRenewals reason =>
      (s.issue a.1 uuid moduleId capability durationMs renewable maxRenewals reason).1
  | .renew leaseId additionalMs => (s.renew a.1 leaseId additionalMs).1
  | .revoke leaseId => (s.revoke leaseId).1
  | .sweep => s.sweep a.1

/-- The readings of the clock between two points in time do not decrease. -/
def Clocked (t : Int64) : List (Int64 × Op) → Int64 → Prop
  | [], t' => t ≤ t'
  | a :: as, t' => t ≤ a.1 ∧ Clocked a.1 as t'

instance decidableClocked : ∀ t as t', Decidable (Clocked t as t')
  | t, [], t' => inferInstanceAs (Decidable (t ≤ t'))
  | t, a :: as, t' =>
      have := decidableClocked a.1 as t'
      inferInstanceAs (Decidable (t ≤ a.1 ∧ Clocked a.1 as t'))

/-- `UUID.randomUUID()` gives an id that no lease has. -/
def Fresh (s : LeaseManager) (a : Int64 × Op) : Prop :=
  match a.2 with
  | .issue uuid .. => uuid ∉ s
  | _ => True

/-- A renewal that does something comes before the lease expires, or gives no time: the new expiry,
in 64 bits, is not behind the time of the renewal. -/
def RenewsInTime (s : LeaseManager) (a : Int64 × Op) : Prop :=
  match a.2 with
  | .renew leaseId additionalMs => ∀ l, s.lookup leaseId = some l → l.canRenew = true →
      a.1 < l.expiresAtMs ∨ ¬ a.1 < a.1 + additionalMs
  | _ => True

/-- The lease is active. -/
def Active (s : LeaseManager) (leaseId : JString) (now : Int64) : Prop :=
  ∃ l, s.lookup leaseId = some l ∧ l.isActive now = true

/-- The lease was issued and is no longer active. -/
def Dead (s : LeaseManager) (leaseId : JString) (now : Int64) : Prop :=
  ∃ l, s.lookup leaseId = some l ∧ l.isActive now = false

/-- Some lease for the module and the capability is issued. -/
def Issues (moduleId capability : JString) (a : Int64 × Op) : Prop :=
  match a.2 with
  | .issue _ m c .. => m = moduleId ∧ c = capability
  | _ => False

/-- From every point of a run to every later one: a dead lease is dead, and a capability that had no
active lease has one only if it was issued in between. -/
def StaysDead (t₀ : Int64) (as : List (Int64 × Op)) (t₁ : Int64) : Prop :=
  ∀ pre mid post t t', as = pre ++ (mid ++ post) → Clocked t₀ pre t → Clocked t mid t' →
    Clocked t' post t₁ →
    let s := Runs.run step ∅ pre
    let s' := Runs.run step ∅ (pre ++ mid)
    (∀ leaseId, s.Dead leaseId t → ¬ s'.Active leaseId t') ∧
      ∀ moduleId capability, s.hasActiveLease moduleId capability t = false →
        s'.hasActiveLease moduleId capability t' = true → ∃ a ∈ mid, Issues moduleId capability a

/-! ### What one operation does to a lease -/

theorem lookup_sweep (s : LeaseManager) (now : Int64) (leaseId : JString) :
    (s.sweep now).lookup leaseId =
      (s.lookup leaseId).map fun l =>
        if isExpired now l then { l with revoked := true } else l := by
  rw [sweep, lookup_collect]
  cases s.lookup leaseId <;> rfl

/-- A renewal leaves everything as it is, or gives one lease that can be renewed its new expiry. -/
theorem renew_cases (s : LeaseManager) (now : Int64) (leaseId : JString) (additionalMs : Int64) :
    (s.renew now leaseId additionalMs).1 = s ∨
      ∃ l l', s.lookup leaseId = some l ∧ l.canRenew = true ∧
        l'.expiresAtMs = now + additionalMs ∧ l'.moduleId = l.moduleId ∧
        l'.capability = l.capability ∧ l'.revoked = l.revoked ∧
        (s.renew now leaseId additionalMs).1 = s.insert leaseId l' := by
  unfold renew
  cases hl : s.lookup leaseId with
  | none => exact Or.inl rfl
  | some l =>
    cases hc : l.canRenew with
    | false => simp [hc]
    | true =>
      right
      simp only [hc, Bool.true_eq_false, if_false, CapabilityLease.renew, if_true]
      exact ⟨l, { l with
        grantedAtMs := now
        expiresAtMs := now + additionalMs
        renewalCount := l.renewalCount + 1 }, rfl, hc, rfl, rfl, rfl, rfl, rfl⟩

theorem isActive_eq_false {l : CapabilityLease} {now : Int64} :
    l.isActive now = false ↔ l.revoked = true ∨ l.expiresAtMs ≤ now := by
  unfold CapabilityLease.isActive
  cases l.revoked <;> simp

theorem dead_mono {s : LeaseManager} {leaseId : JString} {t t' : Int64} (h : s.Dead leaseId t)
    (ht : t ≤ t') : s.Dead leaseId t' := by
  obtain ⟨l, hl, hd⟩ := h
  refine ⟨l, hl, isActive_eq_false.2 ?_⟩
  exact (isActive_eq_false.1 hd).imp_right fun he => Int64.le_trans he ht

theorem not_active_of_dead {s : LeaseManager} {leaseId : JString} {t : Int64}
    (h : s.Dead leaseId t) : ¬ s.Active leaseId t := by
  rintro ⟨l', hl', ha⟩
  obtain ⟨l, hl, hd⟩ := h
  rw [hl] at hl'
  obtain rfl := Option.some.inj hl'
  rw [hd] at ha
  cases ha

/-- The step lemma. -/
theorem dead_step {s : LeaseManager} {a : Int64 × Op} {leaseId : JString}
    (h : s.Dead leaseId a.1) (hfresh : Fresh s a) (hrenew : RenewsInTime s a) :
    (step s a).Dead leaseId a.1 := by
  obtain ⟨now, op⟩ := a
  obtain ⟨l, hl, hd⟩ := h
  cases op with
  | issue uuid m c d r n reason =>
    have hne : leaseId ≠ uuid := by
      rintro rfl
      exact hfresh (mem_iff_exists.2 ⟨l, hl⟩)
    exact ⟨l, (AList.lookup_insert_ne hne).trans hl, hd⟩
  | renew id' add =>
    rcases renew_cases s now id' add with heq | ⟨k, k', hk, hcan, hexp, -, -, -, heq⟩
    · exact ⟨l, (congrArg (AList.lookup leaseId) heq).trans hl, hd⟩
    · have hstep : step s (now, .renew id' add) = s.insert id' k' := heq
      rw [hstep]
      by_cases hid : leaseId = id'
      · subst hid
        rw [hl] at hk
        obtain rfl := Option.some.inj hk
        refine ⟨k', AList.lookup_insert _, isActive_eq_false.2 (Or.inr ?_)⟩
        -- the lease is not revoked, so it is dead because it has expired
        have hrev := CapabilityLease.revoked_eq_false_of_canRenew hcan
        have hle : l.expiresAtMs ≤ now := by
          rcases isActive_eq_false.1 hd with h | h
          · rw [hrev] at h
            cases h
          · exact h
        rcases hrenew l hl hcan with hlt | hno
        · exact absurd hlt (Int64.not_lt.2 hle)
        · rw [hexp]
          exact Int64.not_lt.1 hno
      · exact ⟨l, (AList.lookup_insert_ne hid).trans hl, hd⟩
  | revoke id' =>
    simp only [step, revoke]
    cases hk : s.lookup id' with
    | none => exact ⟨l, hl, hd⟩
    | some k =>
      by_cases hid : leaseId = id'
      · subst hid
        exact ⟨_, AList.lookup_insert _, isActive_eq_false.2 (Or.inl rfl)⟩
      · exact ⟨l, (AList.lookup_insert_ne hid).trans hl, hd⟩
  | sweep =>
    refine ⟨_, (lookup_sweep s now leaseId).trans (by rw [hl]; rfl), ?_⟩
    beta_reduce
    split_ifs
    · exact isActive_eq_false.2 (Or.inl rfl)
    · exact hd

/-- What was there after an operation was there before, or has just been issued. -/
theorem lookup_step {s : LeaseManager} {a : Int64 × Op} {leaseId : JString} {l' : CapabilityLease}
    (h : (step s a).lookup leaseId = some l') :
    (∃ l, s.lookup leaseId = some l ∧ l.moduleId = l'.moduleId ∧ l.capability = l'.capability) ∨
      Issues l'.moduleId l'.capability a := by
  obtain ⟨now, op⟩ := a
  cases op with
  | issue uuid m c d r n reason =>
    by_cases hid : leaseId = uuid
    · subst hid
      obtain rfl := Option.some.inj ((AList.lookup_insert _).symm.trans h)
      exact Or.inr ⟨rfl, rfl⟩
    · exact Or.inl ⟨l', (AList.lookup_insert_ne hid).symm.trans h, rfl, rfl⟩
  | renew id' add =>
    left
    rcases renew_cases s now id' add with heq | ⟨k, k', hk, -, -, hm, hc, -, heq⟩
    · exact ⟨l', (congrArg (AList.lookup leaseId) heq).symm.trans h, rfl, rfl⟩
    · have hstep : step s (now, .renew id' add) = s.insert id' k' := heq
      rw [hstep] at h
      by_cases hid : leaseId = id'
      · subst hid
        obtain rfl := Option.some.inj ((AList.lookup_insert _).symm.trans h)
        exact ⟨k, hk, hm.symm, hc.symm⟩
      · exact ⟨l', (AList.lookup_insert_ne hid).symm.trans h, rfl, rfl⟩
  | revoke id' =>
    left
    simp only [step, revoke] at h
    cases hk : s.lookup id' with
    | none =>
      rw [hk] at h
      exact ⟨l', h, rfl, rfl⟩
    | some k =>
      rw [hk] at h
      by_cases hid : leaseId = id'
      · subst hid
        obtain rfl := Option.some.inj ((AList.lookup_insert _).symm.trans h)
        exact ⟨k, hk, rfl, rfl⟩
      · exact ⟨l', (AList.lookup_insert_ne hid).symm.trans h, rfl, rfl⟩
  | sweep =>
    left
    have h' := (lookup_sweep s now leaseId).symm.trans h
    obtain ⟨l, hl, rfl⟩ := Option.map_eq_some_iff.1 h'
    refine ⟨l, hl, ?_, ?_⟩ <;> split_ifs <;> rfl

/-! ### Whole runs -/

/-- The run lemma. -/
theorem dead_run {s : LeaseManager} {t t' : Int64} {as : List (Int64 × Op)} {leaseId : JString}
    (h : s.Dead leaseId t) (hclock : Clocked t as t') (hfresh : Runs.Along step Fresh s as)
    (hrenew : Runs.Along step RenewsInTime s as) : (Runs.run step s as).Dead leaseId t' := by
  induction as generalizing s t with
  | nil => exact dead_mono h hclock
  | cons a as ih =>
    exact ih (dead_step (dead_mono h hclock.1) hfresh.1 hrenew.1) hclock.2 hfresh.2 hrenew.2

theorem lookup_run {s : LeaseManager} {as : List (Int64 × Op)} {leaseId : JString}
    {l' : CapabilityLease} (h : (Runs.run step s as).lookup leaseId = some l') :
    (∃ l, s.lookup leaseId = some l ∧ l.moduleId = l'.moduleId ∧ l.capability = l'.capability) ∨
      ∃ a ∈ as, Issues l'.moduleId l'.capability a := by
  induction as generalizing s with
  | nil => exact Or.inl ⟨l', h, rfl, rfl⟩
  | cons a as ih =>
    rcases ih h with ⟨l, hl, hm, hc⟩ | ⟨b, hb, hi⟩
    · rcases lookup_step hl with ⟨k, hk, hkm, hkc⟩ | hi
      · exact Or.inl ⟨k, hk, hkm.trans hm, hkc.trans hc⟩
      · rw [hm, hc] at hi
        exact Or.inr ⟨a, List.mem_cons_self, hi⟩
    · exact Or.inr ⟨b, List.mem_cons_of_mem _ hb, hi⟩

theorem hasActiveLease_iff {s : LeaseManager} {moduleId capability : JString} {now : Int64} :
    s.hasActiveLease moduleId capability now = true ↔
      ∃ leaseId l, s.lookup leaseId = some l ∧ l.moduleId = moduleId ∧
        l.capability = capability ∧ l.isActive now = true := by
  rw [hasActiveLease, any_entries_iff (p := fun l : CapabilityLease =>
    decide (l.moduleId = moduleId) && decide (l.capability = capability) && l.isActive now)]
  simp only [Bool.and_eq_true, decide_eq_true_eq, and_assoc]

theorem clocked_split {t t' : Int64} {pre post : List (Int64 × Op)} {a : Int64 × Op}
    (h : Clocked t (pre ++ a :: post) t') : Clocked t pre a.1 ∧ Clocked a.1 post t' := by
  induction pre generalizing t with
  | nil => exact h
  | cons b pre ih =>
    obtain ⟨hb, h⟩ := h
    obtain ⟨hpre, hpost⟩ := ih h
    exact ⟨⟨hb, hpre⟩, hpost⟩

/-- **Expired and revoked leases stay dead in exactly the runs that renew in time.** -/
theorem staysDead_iff (t₀ t₁ : Int64) (as : List (Int64 × Op)) (hclock : Clocked t₀ as t₁)
    (hfresh : Runs.Along step Fresh ∅ as) :
    StaysDead t₀ as t₁ ↔ Runs.Along step RenewsInTime ∅ as := by
  constructor
  · intro h
    rw [Runs.along_iff]
    rintro pre ⟨now, op⟩ post rfl
    cases op with
    | renew leaseId additionalMs =>
      intro l hl hcan
      by_contra hlate
      obtain ⟨hexp, hlonger⟩ := not_or.1 hlate
      obtain ⟨hpre, hpost⟩ := clocked_split hclock
      have hdead : (Runs.run step ∅ pre).Dead leaseId now :=
        ⟨l, hl, isActive_eq_false.2 (Or.inr (Int64.not_lt.1 hexp))⟩
      refine (h pre [(now, .renew leaseId additionalMs)] post now now rfl hpre
        ⟨Int64.le_refl now, Int64.le_refl now⟩ hpost).1 leaseId hdead ?_
      have hrev := CapabilityLease.revoked_eq_false_of_canRenew hcan
      refine ⟨{ l with grantedAtMs := now, expiresAtMs := now + additionalMs
                       renewalCount := l.renewalCount + 1 }, ?_, ?_⟩
      · rw [Runs.run_append, Runs.run_cons, Runs.run_nil]
        simp only [step, renew, hl, hcan, Bool.true_eq_false, if_false, CapabilityLease.renew,
          if_true, AList.lookup_insert]
      · simpa [CapabilityLease.isActive, hrev] using hlonger
    | _ => trivial
  · intro hrenew pre mid post t t' has _ hmid _
    subst has
    rw [Runs.along_append, Runs.along_append] at hfresh hrenew
    have hdead : ∀ leaseId, (Runs.run step ∅ pre).Dead leaseId t →
        (Runs.run step ∅ (pre ++ mid)).Dead leaseId t' := by
      intro leaseId h
      rw [Runs.run_append]
      exact dead_run h hmid hfresh.2.1 hrenew.2.1
    refine ⟨fun leaseId h => not_active_of_dead (hdead leaseId h), ?_⟩
    intro moduleId capability hno hyes
    obtain ⟨leaseId, l', hl', rfl, rfl, hact⟩ := hasActiveLease_iff.1 hyes
    rw [Runs.run_append] at hl'
    rcases lookup_run hl' with ⟨l, hl, hm, hc⟩ | hissued
    · exfalso
      cases hal : l.isActive t with
      | true => exact absurd (hasActiveLease_iff.2 ⟨leaseId, l, hl, hm, hc, hal⟩) (by simp [hno])
      | false =>
        refine not_active_of_dead (hdead leaseId ⟨l, hl, hal⟩) ⟨l', ?_, hact⟩
        rw [Runs.run_append]
        exact hl'
    · exact hissued

/-- A lease of five minutes is issued. -/
def sampleIssue : Int64 × Op :=
  (1722556800000, .issue (ofString "0e9d2a51-7d0c-4d6b-9a55-3f1b6f0f7c11")
    (ofString "com.test.mod") (ofString "shell") 300000 true 3 [])

/-- It is renewed for five minutes at the given time. -/
def sampleRenew (now : Int64) : Int64 × Op :=
  (now, .renew (ofString "0e9d2a51-7d0c-4d6b-9a55-3f1b6f0f7c11") 300000)

/-- Renewed after one minute, and swept after twenty. -/
theorem staysDead_sampleIssue :
    StaysDead 1722556800000 [sampleIssue, sampleRenew 1722556860000, (1722558000000, .sweep)]
      1722558000000 := by
  refine (staysDead_iff _ _ _ ?_ ?_).2 ?_
  · decide
  · exact ⟨AList.notMem_empty _, trivial, trivial, trivial⟩
  · refine ⟨trivial, ?_, trivial, trivial⟩
    intro l hl _
    obtain rfl := Option.some.inj ((AList.lookup_insert _).symm.trans hl)
    exact Or.inl (by decide)

/-- Renewed after ten minutes, when it has expired and has not been swept yet. -/
theorem revived_sampleIssue :
    ¬ StaysDead 1722556800000 [sampleIssue, sampleRenew 1722557400000] 1722557400000 := by
  intro h
  have hcut := (h [sampleIssue] [sampleRenew 1722557400000] [] 1722557400000 1722557400000 rfl
    (by decide) (by decide) (by decide)).1 (ofString "0e9d2a51-7d0c-4d6b-9a55-3f1b6f0f7c11")
  refine hcut ⟨_, AList.lookup_insert _, by decide⟩ ?_
  exact ⟨_, AList.lookup_insert _, by decide⟩

end LeaseManager

end AstraVeil.Core
