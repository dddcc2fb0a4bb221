import AstraVeil.Core.LeaseManager

/-!
# The counter of active leases

`activeCount` of `core/capability/lease/LeaseManager.kt` is refreshed by `issue`, `revoke` and a
sweep that finds something, each time with a clock reading of its own; `renew` leaves it as it is.

* `countActive_eq_add_ranOut`: what became of the leases that were counted last;
* `countActive_renewed`: what a renewal does to the number of active leases;
* `counterRight_run_iff`: the runs in which the counter is right after every change of the table.
-/

namespace AstraVeil.Core

open Utf16 Finmaps Runs

namespace LeaseManager

/-- `countActive`, at the clock reading `now`. -/
def countActive (s : LeaseManager) (now : Int64) : ℕ :=
  total (fun l : CapabilityLease => (l.isActive now).toNat) s

/-- The manager with its counter.  `countedAt` is no part of the program: the time of the last call
that changed the table or refreshed the counter. -/
structure Counted where
  leases : LeaseManager
  activeCount : ℕ
  countedAt : Int64

/-- A call: the clock is read before and, by `countActive`, after the table is changed. -/
structure Call where
  now : Int64
  later : Int64
  op : Op

/-- The last reading of the call that matters: `renew` makes only one. -/
def Call.reading (c : Call) : Int64 :=
  match c.op with
  | .renew .. => c.now
  | _ => c.later

/-- `_activeCount.value = countActive()` after the table has become `leases`. -/
def refreshed (leases : LeaseManager) (later : Int64) : Counted :=
  { leases := leases, activeCount := leases.countActive later, countedAt := later }

/-- One call. -/
def stepCounted (s : Counted) (c : Call) : Counted :=
  match c.op with
  | .issue uuid moduleId capability durationMs renewable maxRenewals reason =>
      refreshed (s.leases.issue c.now uuid moduleId capability durationMs renewable maxRenewals
        reason).1 c.later
  | .renew leaseId additionalMs =>
      match s.leases.renew c.now leaseId additionalMs with
      | (_, none) => s
      | (leases, some _) => { s with leases := leases, countedAt := c.now }
  | .revoke leaseId =>
      match s.leases.revoke leaseId with
      | (_, false) => s
      | (leases, true) => refreshed leases c.later
  | .sweep =>
      if s.leases.entries.any (fun e => isExpired c.now e.2) then
        refreshed (s.leases.sweep c.now) c.later
      else s

/-- A new manager. -/
def start (t₀ : Int64) : Counted := ⟨∅, 0, t₀⟩

/-- The readings of the calls do not decrease. -/
def Ordered (t : Int64) : List Call → Prop
  | [] => True
  | c :: cs => t ≤ c.now ∧ c.now ≤ c.later ∧ Ordered c.later cs

/-- The table after the call is another one. -/
def Changes (s : Counted) (c : Call) : Prop :=
  ∃ leaseId, (stepCounted s c).leases.lookup leaseId ≠ s.leases.lookup leaseId

/-- If the call changes the table, the counter is the number of active leases then. -/
def CounterRight (s : Counted) (c : Call) : Prop :=
  Changes s c →
    (stepCounted s c).activeCount = (stepCounted s c).leases.countActive c.reading

/-- The leases that have run out between the last count and `now`. -/
def Counted.ranOut (s : Counted) (now : Int64) : ℕ :=
  total (fun l : CapabilityLease => (l.isActive s.countedAt && !l.isActive now).toNat) s.leases

/-- A renewal that does something makes up for the leases that have run out since the last count:
none if it extends an active lease or gives no time to an expired one, one if it revives a lease;
and it does not end an active lease. -/
def RenewalMakesUp (s : Counted) (c : Call) : Prop :=
  match c.op with
  | .renew leaseId additionalMs => ∀ l, s.leases.lookup leaseId = some l → l.canRenew = true →
      if c.now < c.now + additionalMs then
        s.ranOut c.now = if l.isActive c.now then 0 else 1
      else s.ranOut c.now = 0 ∧ l.isActive c.now = false
  | _ => True

/-! ### Counting -/

theorem isActive_antitone {l : CapabilityLease} {t t' : Int64} (ht : t ≤ t')
    (h : l.isActive t' = true) : l.isActive t = true := by
  by_contra hno
  rw [Bool.not_eq_true, isActive_eq_false] at hno
  have hdead : l.isActive t' = false :=
    isActive_eq_false.2 (hno.imp_right fun he => Int64.le_trans he ht)
  rw [hdead] at h
  cases h

/-- The leases that were counted are active or have run out. -/
theorem countActive_eq_add_ranOut (s : Counted) {now : Int64} (h : s.countedAt ≤ now) :
    s.leases.countActive s.countedAt = s.leases.countActive now + s.ranOut now := by
  unfold countActive Counted.ranOut total
  rw [← List.sum_map_add]
  congr 1
  refine List.map_congr_left fun e _ => ?_
  cases hnow : e.2.isActive now with
  | false => simp [hnow]
  | true => simp [hnow, isActive_antitone h hnow]

/-- The counter is the number of leases that were active at the last count. -/
def Refreshed (s : Counted) : Prop := s.activeCount = s.leases.countActive s.countedAt

/-- A renewal does nothing, or writes one lease and leaves the counter. -/
theorem stepCounted_renew_cases (s : Counted) (now later : Int64) (leaseId : JString)
    (additionalMs : Int64) :
    (stepCounted s ⟨now, later, .renew leaseId additionalMs⟩ = s ∧
        ∀ l, s.leases.lookup leaseId = some l → l.canRenew = false) ∨
      ∃ l l', s.leases.lookup leaseId = some l ∧ l.canRenew = true ∧ l' ≠ l ∧
        (l'.isActive now = true ↔ now < now + additionalMs) ∧
        stepCounted s ⟨now, later, .renew leaseId additionalMs⟩ =
          { s with leases := s.leases.insert leaseId l', countedAt := now } := by
  cases hl : s.leases.lookup leaseId with
  | none => exact Or.inl ⟨by simp [stepCounted, renew, hl], by simp⟩
  | some l =>
    cases hcan : l.canRenew with
    | false =>
      refine Or.inl ⟨by simp [stepCounted, renew, hl, hcan], ?_⟩
      rintro _ ⟨⟩
      exact hcan
    | true =>
      refine Or.inr ⟨l, { l with grantedAtMs := now, expiresAtMs := now + additionalMs,
                                 renewalCount := l.renewalCount + 1 }, rfl, hcan, ?_, ?_, ?_⟩
      · -- the number of renewals differs
        intro heq
        have hcount := congrArg CapabilityLease.renewalCount heq
        simp at hcount
      · simp [CapabilityLease.isActive, CapabilityLease.revoked_eq_false_of_canRenew hcan]
      · simp only [stepCounted, renew, hl, hcan, Bool.true_eq_false, if_false,
          CapabilityLease.renew, if_true]

/-- The other calls do nothing, or count anew. -/
theorem stepCounted_other_cases (s : Counted) {c : Call} (h : ∀ id d, c.op ≠ .renew id d) :
    c.reading = c.later ∧
      (stepCounted s c = s ∨ ∃ leases, stepCounted s c = refreshed leases c.later) := by
  obtain ⟨now, later, op⟩ := c
  cases op with
  | issue uuid m cap d r n reason => exact ⟨rfl, Or.inr ⟨_, rfl⟩⟩
  | renew leaseId d => exact absurd rfl (h leaseId d)
  | revoke leaseId =>
    refine ⟨rfl, ?_⟩
    cases hl : s.leases.lookup leaseId with
    | none => exact Or.inl (by simp [stepCounted, revoke, hl])
    | some l => exact Or.inr ⟨s.leases.insert leaseId l.revoke, by simp [stepCounted, revoke, hl]⟩
  | sweep =>
    refine ⟨rfl, ?_⟩
    simp only [stepCounted]
    split_ifs
    · exact Or.inr ⟨_, rfl⟩
    · exact Or.inl rfl

/-- A renewal replaces one lease in the count. -/
theorem countActive_renewed {s : LeaseManager} {leaseId : JString} {l : CapabilityLease}
    (hl : s.lookup leaseId = some l) (l' : CapabilityLease) (now : Int64) :
    countActive (s.insert leaseId l') now + (l.isActive now).toNat =
      s.countActive now + (l'.isActive now).toNat := by
  have h := total_insert (fun l : CapabilityLease => (l.isActive now).toNat) s leaseId l'
  rw [hl] at h
  exact h

/-! ### One call -/

/-- A renewal that does something, seen from a right counter. -/
theorem refreshed_renewed_iff {s : Counted} (hs : Refreshed s) {now : Int64}
    (hclock : s.countedAt ≤ now) {leaseId : JString} {l l' : CapabilityLease} {d : Int64}
    (hl : s.leases.lookup leaseId = some l) (hl' : l'.isActive now = true ↔ now < now + d) :
    s.activeCount = countActive (s.leases.insert leaseId l') now ↔
      if now < now + d then s.ranOut now = if l.isActive now then 0 else 1
      else s.ranOut now = 0 ∧ l.isActive now = false := by
  have hcount := countActive_eq_add_ranOut s hclock
  have hsum := countActive_renewed hl l' now
  rw [show s.activeCount = _ from hs, hcount]
  split_ifs with hlonger hactive
  · rw [hactive, hl'.2 hlonger] at hsum
    simp only [Bool.toNat_true] at hsum
    omega
  · rw [Bool.eq_false_of_not_eq_true hactive, hl'.2 hlonger] at hsum
    simp only [Bool.toNat_true, Bool.toNat_false] at hsum
    omega
  · rw [Bool.eq_false_of_not_eq_true fun h => hlonger (hl'.1 h)] at hsum
    cases hactive : l.isActive now <;> rw [hactive] at hsum <;>
      simp only [Bool.toNat_true, Bool.toNat_false] at hsum <;> simp <;> omega

theorem renewalMakesUp_of_other {s : Counted} {c : Call} (h : ∀ id d, c.op ≠ .renew id d) :
    RenewalMakesUp s c := by
  obtain ⟨now, later, op⟩ := c
  cases op with
  | renew leaseId d => exact absurd rfl (h leaseId d)
  | _ => trivial

theorem not_changes_of_eq {s : Counted} {c : Call} (h : stepCounted s c = s) : ¬ Changes s c := by
  rintro ⟨leaseId, hne⟩
  exact hne (by rw [h])

/-- The step lemma: what makes the counter right, and that it stays so. -/
theorem counterRight_iff {s : Counted} (hs : Refreshed s) {c : Call}
    (hclock : s.countedAt ≤ c.now) :
    (CounterRight s c ↔ RenewalMakesUp s c) ∧
      (RenewalMakesUp s c → Refreshed (stepCounted s c)) := by
  by_cases hop : ∃ id d, c.op = .renew id d
  · obtain ⟨now, later, op⟩ := c
    obtain ⟨leaseId, d, rfl⟩ : ∃ id d, op = .renew id d := hop
    rcases stepCounted_renew_cases s now later leaseId d with
      ⟨hsame, hno⟩ | ⟨l, l', hl, hcan, hne, hactive, heq⟩
    · have hok : RenewalMakesUp s ⟨now, later, .renew leaseId d⟩ := by
        intro l hl hcan
        rw [hno l hl] at hcan
        cases hcan
      refine ⟨iff_of_true (fun h => absurd h (not_changes_of_eq hsame)) hok, fun _ => ?_⟩
      rw [hsame]
      exact hs
    · have hchanges : Changes s ⟨now, later, .renew leaseId d⟩ := by
        refine ⟨leaseId, ?_⟩
        rw [heq, hl]
        show AList.lookup leaseId (s.leases.insert leaseId l') ≠ some l
        rw [AList.lookup_insert]
        exact fun h => hne (Option.some.inj h)
      have hright := refreshed_renewed_iff hs hclock hl hactive
      refine ⟨⟨fun h k hk _ => ?_, fun h _ => ?_⟩, fun h => ?_⟩
      · obtain rfl := Option.some.inj (hl.symm.trans hk)
        have hcounter := h hchanges
        rw [heq] at hcounter
        exact hright.1 hcounter
      · rw [heq]
        exact hright.2 (h l hl hcan)
      · rw [heq]
        exact hright.2 (h l hl hcan)
  · have hother : ∀ id d, c.op ≠ .renew id d := fun id d h => hop ⟨id, d, h⟩
    obtain ⟨hreading, hsame | ⟨leases, heq⟩⟩ := stepCounted_other_cases s hother
    · refine ⟨iff_of_true (fun h => absurd h (not_changes_of_eq hsame))
        (renewalMakesUp_of_other hother), fun _ => ?_⟩
      rw [hsame]
      exact hs
    · refine ⟨iff_of_true (fun _ => ?_) (renewalMakesUp_of_other hother), fun _ => heq ▸ rfl⟩
      rw [heq, hreading]
      rfl

/-! ### Whole runs -/

theorem countedAt_step_le {s : Counted} {c : Call} (h1 : s.countedAt ≤ c.now)
    (h2 : c.now ≤ c.later) : (stepCounted s c).countedAt ≤ c.later := by
  by_cases hop : ∃ id d, c.op = .renew id d
  · obtain ⟨now, later, op⟩ := c
    obtain ⟨leaseId, d, rfl⟩ : ∃ id d, op = .renew id d := hop
    rcases stepCounted_renew_cases s now later leaseId d with ⟨hsame, -⟩ | ⟨l, l', -, -, -, -, heq⟩
    · rw [hsame]
      exact Int64.le_trans h1 h2
    · rw [heq]
      exact h2
  · obtain ⟨-, hsame | ⟨leases, heq⟩⟩ :=
      stepCounted_other_cases s (fun id d h => hop ⟨id, d, h⟩)
    · rw [hsame]
      exact Int64.le_trans h1 h2
    · rw [heq]
      exact Int64.le_refl _

theorem along_ordered {s : Counted} {t : Int64} {calls : List Call} (h : Ordered t calls)
    (hs : s.countedAt ≤ t) : Along stepCounted (fun s c => s.countedAt ≤ c.now) s calls := by
  induction calls generalizing s t with
  | nil => trivial
  | cons c cs ih =>
    obtain ⟨h1, h2, hrest⟩ := h
    exact ⟨Int64.le_trans hs h1, ih hrest (countedAt_step_le (Int64.le_trans hs h1) h2)⟩

/-- **With clock readings that do not decrease, the counter is right after every call that changes
the table exactly when every renewal makes up for the leases that have run out since the last
count.** -/
theorem counterRight_run_iff (t₀ : Int64) (calls : List Call) (hclock : Ordered t₀ calls) :
    (∀ pre c post, calls = pre ++ c :: post →
        CounterRight (run stepCounted (start t₀) pre) c) ↔
      Along stepCounted RenewalMakesUp (start t₀) calls := by
  rw [← along_iff]
  exact along_congr_on (I := Refreshed) (fun s c hs hc => (counterRight_iff hs hc).1)
    (fun s c hs hc hok => (counterRight_iff hs hc).2 hok) rfl
    (along_ordered hclock (Int64.le_refl _))

/-- A call during which the clock does not move. -/
def once (a : Int64 × Op) : Call := ⟨a.1, a.1, a.2⟩

/-- A second lease, of one minute. -/
def sampleShort : Int64 × Op :=
  (1722556800000, .issue (ofString "5b8c3f0e-2a4d-4f55-8c1e-6d7f3a9b0e22")
    (ofString "com.test.mod") (ofString "overlayfs") 60000 true 3 [])

/-- One lease, renewed after one minute. -/
theorem counterRight_sampleIssue :
    Ordered 1722556800000 [once sampleIssue, once (sampleRenew 1722556860000)] ∧
      ∀ pre c post, [once sampleIssue, once (sampleRenew 1722556860000)] = pre ++ c :: post →
        CounterRight (run stepCounted (start 1722556800000) pre) c := by
  have hclock : Ordered 1722556800000 [once sampleIssue, once (sampleRenew 1722556860000)] :=
    ⟨by decide, by decide, by decide, by decide, trivial⟩
  refine ⟨hclock, (counterRight_run_iff _ _ hclock).2 ⟨trivial, ?_, trivial⟩⟩
  intro l hl _
  obtain rfl := Option.some.inj ((AList.lookup_insert _).symm.trans hl)
  decide

/-- Two leases: the renewal of one after the other has run out leaves the counter at two. -/
theorem not_counterRight_sampleShort :
    ¬ ∀ calls, Ordered 1722556800000 calls → ∀ pre c post, calls = pre ++ c :: post →
      CounterRight (run stepCounted (start 1722556800000) pre) c := by
  intro h
  have hright := h [once sampleIssue, once sampleShort, once (sampleRenew 1722556920000)]
    ⟨by decide, by decide, by decide, by decide, by decide, by decide, trivial⟩
    [once sampleIssue, once sampleShort] _ [] rfl
  have hchanges : Changes (run stepCounted (start 1722556800000)
      [once sampleIssue, once sampleShort]) (once (sampleRenew 1722556920000)) :=
    ⟨ofString "0e9d2a51-7d0c-4d6b-9a55-3f1b6f0f7c11", by decide +kernel⟩
  exact absurd (hright hchanges) (by decide +kernel)

end LeaseManager

end AstraVeil.Core
