import AstraVeil.Core.LeaseManager

/-!
# Expiry times of leases

The two places of `core/capability/lease` that compute an expiry add 64-bit numbers; only `issue`
treats the permanent duration apart.

* `toInt_add`: the sum of a clock reading and a duration, where it overflows and where not;
* `expiresRight_issue_iff`, `expiresRight_renew_iff`: when the results of the two calls are right;
* `countsBounded_step_iff`: when no lease is renewed more often than it may be;
* `expiresRight_run_iff`: the runs in which all this holds throughout.
-/

namespace AstraVeil.Core

open Utf16 Finmaps Runs

namespace LeaseManager

/-- A lease with this expiry that was given the duration `d` at the time `now` is active, expires
after that duration, cut at `Long.MAX_VALUE`, and not before `now`. -/
def ExpiresRight (now d : Int64) (l : CapabilityLease) : Prop :=
  l.isActive now = true ∧ l.expiresAtMs.toInt = min (now.toInt + d.toInt) (2 ^ 63 - 1) ∧
    now ≤ l.expiresAtMs

/-- The lease that a call with a positive duration returns has the right expiry. -/
def ResultRight (s : LeaseManager) (a : Int64 × Op) : Prop :=
  match a.2 with
  | .issue uuid moduleId capability durationMs renewable maxRenewals reason =>
      0 ≤ a.1 → 0 < durationMs → ExpiresRight a.1 durationMs
        (s.issue a.1 uuid moduleId capability durationMs renewable maxRenewals reason).2
  | .renew leaseId additionalMs =>
      0 ≤ a.1 → 0 < additionalMs → ∀ l, (s.renew a.1 leaseId additionalMs).2 = some l →
        ExpiresRight a.1 additionalMs l
  | _ => True

/-- No lease has been renewed more often than it may be. -/
def CountsBounded (s : LeaseManager) : Prop :=
  ∀ leaseId l, s.lookup leaseId = some l → l.renewalCount ≤ l.maxRenewals

/-- The sum of the clock and a duration that is used fits into 64 bits, unless a permanent lease
is issued before the end of time. -/
def SumFits (s : LeaseManager) (a : Int64 × Op) : Prop :=
  match a.2 with
  | .issue _ _ _ durationMs _ _ _ =>
      0 ≤ a.1 → 0 < durationMs → a.1.toInt + durationMs.toInt < 2 ^ 63 ∨
        durationMs = CapabilityLease.durationPermanent ∧ a.1 ≠ Int64.maxValue
  | .renew leaseId additionalMs =>
      0 ≤ a.1 → 0 < additionalMs → (∃ l, s.lookup leaseId = some l ∧ l.canRenew = true) →
        a.1.toInt + additionalMs.toInt < 2 ^ 63
  | _ => True

/-- No lease is issued with a negative number of renewals. -/
def RenewalsNonneg (a : Int64 × Op) : Prop :=
  match a.2 with
  | .issue _ _ _ _ _ maxRenewals _ => 0 ≤ maxRenewals
  | _ => True

/-! ### The sum -/

theorem toInt_add {now d : Int64} (h0 : 0 ≤ now) (hd : 0 < d) :
    (now + d).toInt = if now.toInt + d.toInt < 2 ^ 63 then now.toInt + d.toInt
      else now.toInt + d.toInt - 2 ^ 64 := by
  rw [Int64.le_iff_toInt_le] at h0
  rw [Int64.lt_iff_toInt_lt] at hd
  have h1 := now.toInt_lt
  have h2 := d.toInt_lt
  rw [Int64.toInt_add, Int.bmod_def]
  simp only [Int64.toInt_zero] at h0 hd
  split_ifs <;> omega

theorem expiresRight_iff {now d : Int64} {l : CapabilityLease} (hrev : l.revoked = false) :
    ExpiresRight now d l ↔ now.toInt < l.expiresAtMs.toInt ∧
      l.expiresAtMs.toInt = min (now.toInt + d.toInt) (2 ^ 63 - 1) := by
  have hactive : l.isActive now = true ↔ now.toInt < l.expiresAtMs.toInt := by
    simp [CapabilityLease.isActive, hrev, Int64.lt_iff_toInt_lt]
  unfold ExpiresRight
  rw [hactive, Int64.le_iff_toInt_le]
  constructor
  · rintro ⟨h1, h2, -⟩
    exact ⟨h1, h2⟩
  · rintro ⟨h1, h2⟩
    exact ⟨h1, h2, by omega⟩

/-- The sum is the right expiry exactly when it fits into 64 bits. -/
theorem expiresRight_add_iff {now d : Int64} (h0 : 0 ≤ now) (hd : 0 < d) {l : CapabilityLease}
    (hl : l.expiresAtMs = now + d) (hrev : l.revoked = false) :
    ExpiresRight now d l ↔ now.toInt + d.toInt < 2 ^ 63 := by
  have hpos : 0 < d.toInt := by simpa using Int64.lt_iff_toInt_lt.1 hd
  have h1 := now.toInt_lt
  have h2 := d.toInt_lt
  rw [expiresRight_iff hrev, hl, toInt_add h0 hd]
  split_ifs with hfits
  · exact iff_of_true ⟨by omega, by omega⟩ hfits
  · exact iff_of_false (fun h => by omega) hfits

/-- A new permanent lease needs no sum. -/
theorem expiresRight_permanent_iff {now : Int64} (h0 : 0 ≤ now) {l : CapabilityLease}
    (hl : l.expiresAtMs = Int64.maxValue) (hrev : l.revoked = false) :
    ExpiresRight now CapabilityLease.durationPermanent l ↔ now ≠ Int64.maxValue := by
  have hpos : 0 ≤ now.toInt := by simpa using Int64.le_iff_toInt_le.1 h0
  have h1 := now.toInt_lt
  rw [expiresRight_iff hrev, hl, CapabilityLease.durationPermanent, Int64.toInt_maxValue,
    ne_eq, ← Int64.toInt_inj, Int64.toInt_maxValue]
  omega

/-! ### The calls -/

theorem expiresRight_issue_iff (s : LeaseManager) {now d : Int64} (h0 : 0 ≤ now) (hd : 0 < d)
    (uuid m c : JString) (r : Bool) (n : Int32) (reason : JString) :
    ExpiresRight now d (s.issue now uuid m c d r n reason).2 ↔
      now.toInt + d.toInt < 2 ^ 63 ∨
        d = CapabilityLease.durationPermanent ∧ now ≠ Int64.maxValue := by
  by_cases hperm : d = CapabilityLease.durationPermanent
  · subst hperm
    rw [expiresRight_permanent_iff h0 (by simp [issue]) rfl]
    simp only [true_and, iff_or_self]
    -- at the end of time no sum fits
    rintro hfits rfl
    rw [CapabilityLease.durationPermanent, Int64.toInt_maxValue] at hfits
    omega
  · rw [expiresRight_add_iff h0 hd (by simp [issue, hperm]) rfl]
    simp [hperm]

theorem renew_eq_some_iff {s : LeaseManager} {now d : Int64} {leaseId : JString}
    {l' : CapabilityLease} :
    (s.renew now leaseId d).2 = some l' ↔
      ∃ l, s.lookup leaseId = some l ∧ l.canRenew = true ∧ l.renew d now = some l' := by
  unfold renew
  cases hl : s.lookup leaseId with
  | none => simp
  | some l =>
    cases hc : l.canRenew <;> simp [hc, CapabilityLease.renew]

theorem expiresRight_renew_iff (s : LeaseManager) {now d : Int64} (h0 : 0 ≤ now) (hd : 0 < d)
    (leaseId : JString) :
    (∀ l, (s.renew now leaseId d).2 = some l → ExpiresRight now d l) ↔
      ((∃ l, s.lookup leaseId = some l ∧ l.canRenew = true) →
        now.toInt + d.toInt < 2 ^ 63) := by
  have hright : ∀ l l' : CapabilityLease, l.canRenew = true → l.renew d now = some l' →
      (ExpiresRight now d l' ↔ now.toInt + d.toInt < 2 ^ 63) := by
    intro l l' hcan hl'
    rw [CapabilityLease.renew, if_pos hcan] at hl'
    obtain rfl := Option.some.inj hl'
    have hrev : l.revoked = false := CapabilityLease.revoked_eq_false_of_canRenew hcan
    exact expiresRight_add_iff h0 hd rfl hrev
  simp only [renew_eq_some_iff]
  constructor
  · rintro h ⟨l, hl, hcan⟩
    have hl' : l.renew d now = some _ := if_pos hcan
    exact (hright l _ hcan hl').1 (h _ ⟨l, hl, hcan, hl'⟩)
  · rintro h l' ⟨l, hl, hcan, hl'⟩
    exact (hright l l' hcan hl').2 (h ⟨l, hl, hcan⟩)

theorem resultRight_iff (s : LeaseManager) (a : Int64 × Op) : ResultRight s a ↔ SumFits s a := by
  obtain ⟨now, op⟩ := a
  cases op with
  | issue uuid m c d r n reason =>
    exact forall_congr' fun h0 => forall_congr' fun hd =>
      expiresRight_issue_iff s h0 hd uuid m c r n reason
  | renew leaseId d =>
    exact forall_congr' fun h0 => forall_congr' fun hd => expiresRight_renew_iff s h0 hd leaseId
  | revoke leaseId => exact Iff.rfl
  | sweep => exact Iff.rfl

/-! ### Renewals -/

/-- Writing one lease keeps the bounds exactly when its own bound holds. -/
theorem countsBounded_insert_iff {s : LeaseManager} (hs : CountsBounded s) (leaseId : JString)
    (l : CapabilityLease) :
    CountsBounded (s.insert leaseId l) ↔ l.renewalCount ≤ l.maxRenewals := by
  constructor
  · intro h
    exact h leaseId l (AList.lookup_insert _)
  · intro h leaseId' l' hl'
    by_cases hid : leaseId' = leaseId
    · subst hid
      obtain rfl := Option.some.inj ((AList.lookup_insert _).symm.trans hl')
      exact h
    · exact hs leaseId' l' ((AList.lookup_insert_ne hid).symm.trans hl')

theorem succ_le_of_canRenew {l : CapabilityLease} (h : l.canRenew = true) :
    l.renewalCount + 1 ≤ l.maxRenewals := by
  simp only [CapabilityLease.canRenew, Bool.and_eq_true, decide_eq_true_eq] at h
  have hlt := Int32.lt_iff_toInt_lt.1 h.1.2
  have h1 := l.maxRenewals.toInt_lt
  have h2 := l.renewalCount.le_toInt
  rw [Int32.le_iff_toInt_le, Int32.toInt_add, Int32.toInt_one, Int.bmod_eq_of_le]
  · omega
  · omega
  · omega

theorem countsBounded_step_iff {s : LeaseManager} (hs : CountsBounded s) (a : Int64 × Op) :
    CountsBounded (step s a) ↔ RenewalsNonneg a := by
  obtain ⟨now, op⟩ := a
  cases op with
  | issue uuid m c d r n reason => exact countsBounded_insert_iff hs uuid _
  | renew leaseId d =>
    refine iff_of_true ?_ trivial
    simp only [step, renew]
    cases hl : s.lookup leaseId with
    | none => exact hs
    | some l =>
      cases hcan : l.canRenew with
      | false => simpa [hcan] using hs
      | true =>
        simp only [hcan, Bool.true_eq_false, if_false, CapabilityLease.renew, if_true]
        exact (countsBounded_insert_iff hs leaseId _).2 (succ_le_of_canRenew hcan)
  | revoke leaseId =>
    refine iff_of_true ?_ trivial
    simp only [step, revoke]
    cases hl : s.lookup leaseId with
    | none => exact hs
    | some l => exact (countsBounded_insert_iff hs leaseId _).2 (hs leaseId l hl)
  | sweep =>
    refine iff_of_true (fun leaseId l' hl' => ?_) trivial
    obtain ⟨l, hl, rfl⟩ := Option.map_eq_some_iff.1 ((lookup_sweep s now leaseId).symm.trans hl')
    have hbound := hs leaseId l hl
    split_ifs <;> exact hbound

/-! ### Whole runs -/

/-- **In a run, every issued or renewed lease with a positive duration is active, expires after
that duration, cut at `Long.MAX_VALUE`, and no lease is renewed more often than it may be, exactly
when no sum that is used overflows and no lease is issued with a negative number of renewals.** -/
theorem expiresRight_run_iff (as : List (Int64 × Op)) :
    (∀ pre a post, as = pre ++ a :: post →
        CountsBounded (run step ∅ (pre ++ [a])) ∧ ResultRight (run step ∅ pre) a) ↔
      Along step (fun s a => RenewalsNonneg a ∧ SumFits s a) ∅ as := by
  have hempty : CountsBounded ∅ := by
    intro leaseId l hl
    rw [AList.lookup_empty] at hl
    cases hl
  refine (along_iff_cuts (fun s a hs => ?_) hempty).symm
  rw [countsBounded_step_iff hs, resultRight_iff]

/-- The lease of five minutes is made permanent after one minute. -/
def sampleRenewPermanent : Int64 × Op :=
  (1722556860000, .renew (ofString "0e9d2a51-7d0c-4d6b-9a55-3f1b6f0f7c11")
    CapabilityLease.durationPermanent)

/-- A lease that is renewed for good has expired. -/
theorem not_expiresRight_renewPermanent :
    ¬ ∀ as pre a post, as = pre ++ a :: post →
      CountsBounded (run step ∅ (pre ++ [a])) ∧ ResultRight (run step ∅ pre) a := by
  intro h
  have hright := (h [sampleIssue, sampleRenewPermanent] [sampleIssue] sampleRenewPermanent []
    rfl).2
  have hfits := (resultRight_iff _ _).1 hright (by decide) (by decide)
    ⟨_, AList.lookup_insert _, by decide⟩
  revert hfits
  decide

end LeaseManager

end AstraVeil.Core
