import AstraVeil.Lib.Calendar
import AstraVeil.Lib.Utf16

/-!
# Temporal windows

`core/capability/temporal/TemporalWindow.kt`: a capability is active in the minutes after those
that match a cron expression.  Time is counted in minutes from the start of 1970, in local time
without daylight-saving shifts; a `Calendar` is such a number.

* `isActive_iff`: the backwards scan finds the matches of the last `durationMinutes` minutes, the
  first of them included;
* `scan_eq_some`, `scan_eq_none`: the forwards scan finds the next match;
* `nextActivation_spec`: how the two scans go together;
* `openExactly_iff`: when a window is open for its duration only;
* `isActive_eq_false_of_range`: a window with a field outside its range never opens.
-/

namespace AstraVeil.Core

open Utf16

/-- `TemporalWindow`.  A negative field stands for any value. -/
structure TemporalWindow where
  capability : JString
  cronMinute : Int32 := -1
  cronHour : Int32 := -1
  cronDayOfMonth : Int32 := -1
  cronMonth : Int32 := -1
  cronDayOfWeek : Int32 := -1
  durationMinutes : Int32 := 60
  enabled : Bool := true

namespace TemporalWindow

/-- `matchesField`. -/
def matchesField (cron : Int32) (actual : ℤ) : Bool :=
  decide (cron.toInt < 0) || decide (cron.toInt = actual)

/-- `matchesCron`. -/
def matchesCron (w : TemporalWindow) (cal : ℤ) : Bool :=
  let minute := cal % 60
  let hour := cal / 60 % 24
  let date := Calendar.civil (cal / 1440)
  let dow := Calendar.dayOfWeek (cal / 1440)
  matchesField w.cronMinute minute && matchesField w.cronHour hour &&
    matchesField w.cronDayOfMonth date.day && matchesField w.cronMonth date.month &&
    matchesField w.cronDayOfWeek dow

/-- `isActive`. -/
def isActive (w : TemporalWindow) (cal : ℤ) : Bool :=
  if !w.enabled then false
  else if w.matchesCron cal then true
  else (List.range w.durationMinutes.toInt.toNat).any fun i => w.matchesCron (cal - (i + 1))

/-- The loop of `nextActivation`. -/
def scan (w : TemporalWindow) : ℕ → ℤ → Option ℤ
  | 0, _ => none
  | rounds + 1, cal => if w.matchesCron cal then some cal else w.scan rounds (cal + 1)

/-- `maxIterations`. -/
def maxIterations : ℕ := 366 * 24 * 60

/-- `nextActivation`. -/
def nextActivation (w : TemporalWindow) (start : ℤ) : Option ℤ :=
  w.scan maxIterations (start + 1)

/-- At the time `t` the window is open exactly when some matching minute is less than
`durationMinutes` minutes old. -/
def OpenExactly (w : TemporalWindow) (t : ℤ) : Prop :=
  w.isActive t = true ↔
    ∃ m, w.matchesCron m = true ∧ m ≤ t ∧ t < m + w.durationMinutes.toInt

variable {w : TemporalWindow}

/-! ### The scans -/

theorem isActive_iff (he : w.enabled = true) (hd : 0 ≤ w.durationMinutes.toInt) (t : ℤ) :
    w.isActive t = true ↔
      ∃ m, w.matchesCron m = true ∧ t - w.durationMinutes.toInt ≤ m ∧ m ≤ t := by
  unfold isActive
  rw [he, Bool.not_true, if_neg Bool.false_ne_true]
  split_ifs with hnow
  · exact iff_of_true rfl ⟨t, hnow, by omega, le_rfl⟩
  · simp only [List.any_eq_true, List.mem_range]
    constructor
    · rintro ⟨i, hi, hm⟩
      exact ⟨_, hm, by omega, by omega⟩
    · rintro ⟨m, hm, h1, h2⟩
      have hne : m ≠ t := fun h => hnow (h ▸ hm)
      refine ⟨(t - m - 1).toNat, by omega, ?_⟩
      rwa [show t - (((t - m - 1).toNat : ℤ) + 1) = m by omega]

theorem isActive_eq_false_iff (he : w.enabled = true) (hd : 0 ≤ w.durationMinutes.toInt) (t : ℤ) :
    w.isActive t = false ↔
      ∀ m, t - w.durationMinutes.toInt ≤ m → m ≤ t → w.matchesCron m = false := by
  rw [← Bool.not_eq_true, isActive_iff he hd]
  constructor
  · intro h m h1 h2
    rw [← Bool.not_eq_true]
    exact fun hm => h ⟨m, hm, h1, h2⟩
  · rintro h ⟨m, hm, h1, h2⟩
    rw [h m h1 h2] at hm
    cases hm

theorem scan_eq_some {rounds : ℕ} {cal n : ℤ} (h : w.scan rounds cal = some n) :
    w.matchesCron n = true ∧ cal ≤ n ∧ ∀ m, cal ≤ m → m < n → w.matchesCron m = false := by
  induction rounds generalizing cal with
  | zero => cases h
  | succ rounds ih =>
    unfold scan at h
    split_ifs at h with hmatch
    · obtain rfl := Option.some.inj h
      exact ⟨hmatch, le_rfl, fun m h1 h2 => by omega⟩
    · obtain ⟨hn, hle, hbefore⟩ := ih h
      refine ⟨hn, by omega, fun m h1 h2 => ?_⟩
      rcases eq_or_lt_of_le h1 with rfl | h1
      · exact Bool.eq_false_of_not_eq_true hmatch
      · exact hbefore m (by omega) h2

theorem scan_eq_none {rounds : ℕ} {cal : ℤ} (h : w.scan rounds cal = none) :
    ∀ m, cal ≤ m → m < cal + rounds → w.matchesCron m = false := by
  induction rounds generalizing cal with
  | zero =>
    intro m h1 h2
    omega
  | succ rounds ih =>
    unfold scan at h
    split_ifs at h with hmatch
    intro m h1 h2
    rcases eq_or_lt_of_le h1 with rfl | h1
    · exact Bool.eq_false_of_not_eq_true hmatch
    · exact ih h m (by omega) (by push_cast at h2; omega)

/-- **From an inactive time on, a window stays closed up to its next activation and is open for
its duration from there; if there is none, it stays closed for 366 days.** -/
theorem nextActivation_spec (w : TemporalWindow) (he : w.enabled = true)
    (hd : 0 ≤ w.durationMinutes.toInt) (t : ℤ) (h : w.isActive t = false) :
    (∀ n, w.nextActivation t = some n →
      t < n ∧ (∀ m, t < m → m < n → w.isActive m = false) ∧
        ∀ m, n ≤ m → m ≤ n + w.durationMinutes.toInt - 1 → w.isActive m = true) ∧
    (w.nextActivation t = none →
      ∀ m, t < m → m ≤ t + 366 * 24 * 60 → w.isActive m = false) := by
  rw [isActive_eq_false_iff he hd] at h
  constructor
  · intro n hn
    obtain ⟨hmatch, hle, hbefore⟩ := scan_eq_some hn
    refine ⟨by omega, fun m h1 h2 => ?_, fun m h1 h2 => ?_⟩
    · -- the minutes seen from `m` are seen from `t` or lie before `n`
      rw [isActive_eq_false_iff he hd]
      intro k hk1 hk2
      by_cases hk : k ≤ t
      · exact h k (by omega) hk
      · exact hbefore k (by omega) (by omega)
    · exact (isActive_iff he hd m).2 ⟨n, hmatch, by omega, h1⟩
  · intro hnone m h1 h2
    have hnever := scan_eq_none hnone
    rw [isActive_eq_false_iff he hd]
    intro k hk1 hk2
    by_cases hk : k ≤ t
    · exact h k (by omega) hk
    · exact hnever k (by omega) (by simp only [maxIterations]; omega)

/-! ### The length of a window -/

/-- The minute that the scan looks at in its last round is the one too many. -/
theorem openExactly_iff_of_enabled (he : w.enabled = true) (hd : 0 ≤ w.durationMinutes.toInt)
    (t : ℤ) :
    w.OpenExactly t ↔
      (w.matchesCron (t - w.durationMinutes.toInt) = true →
        ∃ m, t - w.durationMinutes.toInt < m ∧ m ≤ t ∧ w.matchesCron m = true) := by
  unfold OpenExactly
  rw [isActive_iff he hd]
  constructor
  · intro h hfirst
    obtain ⟨m, hm, h1, h2⟩ := h.1 ⟨_, hfirst, le_rfl, by omega⟩
    exact ⟨m, by omega, h1, hm⟩
  · intro h
    constructor
    · rintro ⟨m, hm, h1, h2⟩
      by_cases hfirst : m = t - w.durationMinutes.toInt
      · obtain ⟨k, hk1, hk2, hk⟩ := h (hfirst ▸ hm)
        exact ⟨k, hk, hk2, by omega⟩
      · exact ⟨m, hm, h2, by omega⟩
    · rintro ⟨m, hm, h1, h2⟩
      exact ⟨m, hm, by omega, h1⟩

/-- **A window is open at `t` for the right reason exactly when the minute `durationMinutes` before
`t` does not match, or a later one up to `t` does.  So it is open for its duration throughout
exactly when every matching minute is followed by another within the duration.** -/
theorem openExactly_iff (w : TemporalWindow) (he : w.enabled = true)
    (hd : 1 ≤ w.durationMinutes.toInt) :
    (∀ t, w.OpenExactly t ↔
      (w.matchesCron (t - w.durationMinutes.toInt) = true →
        ∃ m, t - w.durationMinutes.toInt < m ∧ m ≤ t ∧ w.matchesCron m = true)) ∧
    ((∀ t, w.OpenExactly t) ↔
      ∀ m, w.matchesCron m = true →
        ∃ k, m < k ∧ k ≤ m + w.durationMinutes.toInt ∧ w.matchesCron k = true) := by
  have hat := fun t => openExactly_iff_of_enabled he (by omega) t
  refine ⟨hat, ?_⟩
  constructor
  · intro h m hm
    obtain ⟨k, hk1, hk2, hk⟩ := (hat (m + w.durationMinutes.toInt)).1 (h _)
      (by rwa [add_sub_cancel_right])
    exact ⟨k, by omega, hk2, hk⟩
  · intro h t
    refine (hat t).2 fun hfirst => ?_
    obtain ⟨k, hk1, hk2, hk⟩ := h _ hfirst
    exact ⟨k, hk1, by omega, hk⟩

/-! ### Fields outside their range -/

theorem matchesCron_iff {cal : ℤ} :
    w.matchesCron cal = true ↔
      (w.cronMinute.toInt < 0 ∨ w.cronMinute.toInt = cal % 60) ∧
      (w.cronHour.toInt < 0 ∨ w.cronHour.toInt = cal / 60 % 24) ∧
      (w.cronDayOfMonth.toInt < 0 ∨
        w.cronDayOfMonth.toInt = (Calendar.civil (cal / 1440)).day) ∧
      (w.cronMonth.toInt < 0 ∨ w.cronMonth.toInt = (Calendar.civil (cal / 1440)).month) ∧
      (w.cronDayOfWeek.toInt < 0 ∨
        w.cronDayOfWeek.toInt = Calendar.dayOfWeek (cal / 1440)) := by
  simp [matchesCron, matchesField, and_assoc]

/-- A window with a field beyond its last value never opens. -/
theorem isActive_eq_false_of_range
    (h : 59 < w.cronMinute.toInt ∨ 23 < w.cronHour.toInt ∨ w.cronDayOfMonth.toInt = 0 ∨
      31 < w.cronDayOfMonth.toInt ∨ w.cronMonth.toInt = 0 ∨ 12 < w.cronMonth.toInt ∨
      6 < w.cronDayOfWeek.toInt) (t : ℤ) : w.isActive t = false := by
  have hnever : ∀ m, w.matchesCron m = false := by
    intro m
    rw [← Bool.not_eq_true, matchesCron_iff]
    rintro ⟨h1, h2, h3, h4, h5⟩
    have hday := Calendar.day_mem (m / 1440)
    have hmonth := Calendar.month_mem (m / 1440)
    unfold Calendar.dayOfWeek at h5
    omega
  unfold isActive
  simp [hnever]

/-! ### Two in the morning -/

/-- `"0 2 * * *"` with 120 minutes, the window of the documentation. -/
def nightly : TemporalWindow :=
  { capability := ofString "file_write", cronMinute := 0, cronHour := 2, durationMinutes := 120 }

/-- `"* * * * *"` with the default of 60 minutes. -/
def everyMinute : TemporalWindow := { capability := ofString "file_write" }

theorem matchesCron_nightly {cal : ℤ} :
    nightly.matchesCron cal = true ↔ cal % 60 = 0 ∧ cal / 60 % 24 = 2 := by
  have hminute : nightly.cronMinute.toInt = 0 := by decide
  have hhour : nightly.cronHour.toInt = 2 := by decide
  have hday : nightly.cronDayOfMonth.toInt < 0 := by decide
  have hmonth : nightly.cronMonth.toInt < 0 := by decide
  have hweek : nightly.cronDayOfWeek.toInt < 0 := by decide
  rw [matchesCron_iff, hminute, hhour]
  constructor
  · rintro ⟨h1, h2, -⟩
    omega
  · rintro ⟨h1, h2⟩
    exact ⟨Or.inr h1.symm, Or.inr h2.symm, Or.inl hday, Or.inl hmonth, Or.inl hweek⟩

/-- The first minute of 1970 is outside the window, and two o'clock is its next activation. -/
theorem nextActivation_nightly :
    nightly.nextActivation 0 = some 120 ∧ (∀ m, 0 < m → m < 120 → nightly.isActive m = false) ∧
      ∀ m, 120 ≤ m → m ≤ 120 + 120 - 1 → nightly.isActive m = true := by
  have hnext : nightly.nextActivation 0 = some 120 := by decide +kernel
  have hspec := (nextActivation_spec nightly rfl (by decide) 0 (by decide)).1 120 hnext
  exact ⟨hnext, hspec.2.1, hspec.2.2⟩

/-- The documented window is open at four o'clock, 120 minutes after two. -/
theorem not_openExactly_nightly : ¬ ∀ t, nightly.OpenExactly t := by
  intro h
  obtain ⟨m, h1, h2, hm⟩ := (openExactly_iff_of_enabled rfl (by decide) 240).1 (h 240)
    (matchesCron_nightly.2 (by decide))
  rw [matchesCron_nightly] at hm
  have hd : nightly.durationMinutes.toInt = 120 := by decide
  omega

/-- A window that opens every minute is open for its duration throughout. -/
theorem openExactly_everyMinute :
    1 ≤ everyMinute.durationMinutes.toInt ∧ ∀ t, everyMinute.OpenExactly t := by
  refine ⟨by decide, (openExactly_iff everyMinute rfl (by decide)).2.2 fun m _ => ?_⟩
  refine ⟨m + 1, by omega, ?_, ?_⟩
  · have hd : everyMinute.durationMinutes.toInt = 60 := by decide
    omega
  · exact matchesCron_iff.2 ⟨Or.inl (by decide), Or.inl (by decide), Or.inl (by decide),
      Or.inl (by decide), Or.inl (by decide)⟩

end TemporalWindow

end AstraVeil.Core
