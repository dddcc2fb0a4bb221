import Mathlib.Tactic

/-!
# Fixed-window rate limiters

A limiter keeps the start of a window and the number of events it has let pass in it; an event that
comes when the window is over opens a new one.  The state also records the times of the events that
have passed, those of the current window apart from those of earlier windows.  The age of a window
is computed by `elapsed`, which need not be the difference when the clock goes back.

* `Within`: no interval of the width of a window has more passes than the limit;
* `Windowed`, `windowed_check`: what start and count say about the recorded times;
* `within_check_iff`: one more event keeps the limit on all intervals exactly when it leaves room
  for the passes of earlier windows that are not yet old (`LeavesRoom`);
* `paced_check`: whatever comes, no interval has more passes than two windows;
* `leavesRoom_of_rested`: the limit itself holds where a window opens only when every pass is old.
-/

namespace FixedWindow

/-- A limiter, with the times of what has passed. -/
structure State where
  start : ℕ
  count : ℕ
  current : List ℕ
  earlier : List ℕ

/-- The times of all passes. -/
def State.passed (s : State) : List ℕ := s.current ++ s.earlier

variable (elapsed : ℕ → ℕ → ℕ) (width limit : ℕ)

/-- The window is over at the time `now`. -/
def Opens (s : State) (now : ℕ) : Prop := width ≤ elapsed s.start now

instance (s : State) (now : ℕ) : Decidable (Opens elapsed width s now) :=
  inferInstanceAs (Decidable (_ ≤ _))

/-- An event at the time `now` passes. -/
def Passes (s : State) (now : ℕ) : Prop := Opens elapsed width s now ∨ s.count < limit

instance (s : State) (now : ℕ) : Decidable (Passes elapsed width limit s now) :=
  inferInstanceAs (Decidable (_ ∨ _))

/-- The limiter after an event at the time `now`. -/
def check (s : State) (now : ℕ) : State :=
  if Opens elapsed width s now then
    { start := now, count := 1, current := [now], earlier := s.current ++ s.earlier }
  else if s.count < limit then
    { s with count := s.count + 1, current := now :: s.current }
  else s

/-- Every interval of the width of a window has at most `limit` passes. -/
def Within (s : State) : Prop :=
  ∀ a, s.passed.countP (fun t => decide (a ≤ t ∧ t < a + width)) ≤ limit

/-- The times that are less than `width` old. -/
def young (now : ℕ) (times : List ℕ) : ℕ := times.countP fun t => decide (now < t + width)

/-- If an event at the time `now` passes, the young passes of the windows before the one it falls
in, and those it finds in its own window, are fewer than the limit. -/
def LeavesRoom (s : State) (now : ℕ) : Prop :=
  Passes elapsed width limit s now →
    if Opens elapsed width s now then young width now (s.current ++ s.earlier) < limit
    else s.count + young width now s.earlier < limit

instance (s : State) (now : ℕ) : Decidable (LeavesRoom elapsed width limit s now) :=
  inferInstanceAs (Decidable (Passes elapsed width limit s now → if Opens elapsed width s now then
    young width now (s.current ++ s.earlier) < limit else
    s.count + young width now s.earlier < limit))

/-- The count is the number of passes in the window, and nothing lies in the future. -/
structure Windowed (s : State) (clock : ℕ) : Prop where
  count : s.count = s.current.length
  inside : ∀ t ∈ s.current, s.start ≤ t
  start : s.start ≤ clock
  past : ∀ t ∈ s.passed, t ≤ clock

variable {elapsed width limit}
variable {s : State} {clock now : ℕ}

/-! ### One event -/

theorem passed_check (s : State) (now : ℕ) :
    (check elapsed width limit s now).passed =
      if Passes elapsed width limit s now then now :: s.passed else s.passed := by
  unfold check Passes
  by_cases hopens : Opens elapsed width s now
  · simp [hopens, State.passed]
  · by_cases hfull : s.count < limit
    · simp [hopens, hfull, State.passed]
    · simp [hopens, hfull]

theorem Windowed.mono (h : Windowed s clock) (hle : clock ≤ now) : Windowed s now :=
  ⟨h.count, h.inside, h.start.trans hle, fun t ht => (h.past t ht).trans hle⟩

theorem windowed_check (h : Windowed s clock) (hle : clock ≤ now) :
    Windowed (check elapsed width limit s now) now := by
  have hpast : ∀ t ∈ (check elapsed width limit s now).passed, t ≤ now := by
    intro t ht
    rw [passed_check] at ht
    split_ifs at ht with hpass
    · rcases List.mem_cons.1 ht with rfl | ht
      · exact le_rfl
      · exact (h.past t ht).trans hle
    · exact (h.past t ht).trans hle
  refine ⟨?_, ?_, ?_, hpast⟩ <;> unfold check <;> split_ifs with hopens hfull
  · rfl
  · simp [h.count]
  · exact h.count
  · simp
  · intro t ht
    rcases List.mem_cons.1 ht with rfl | ht
    · exact h.start.trans hle
    · exact h.inside t ht
  · exact h.inside
  · exact le_rfl
  · exact h.start.trans hle
  · exact h.start.trans hle

/-- The passes of a window that is not over are young. -/
theorem young_current (helapsed : elapsed s.start now = now - s.start) (h : Windowed s clock)
    (hle : clock ≤ now) (hopens : ¬ Opens elapsed width s now) :
    young width now s.current = s.count := by
  have hstart : s.start ≤ now := h.start.trans hle
  unfold Opens at hopens
  rw [helapsed] at hopens
  rw [young, h.count, List.countP_eq_length]
  intro t ht
  have hin := h.inside t ht
  exact decide_eq_true (by omega)

/-- A list of times up to `now` with `now` in front stays within the limit exactly when fewer than
the limit were young. -/
theorem within_cons_iff {times : List ℕ} (hwidth : 0 < width) (hpast : ∀ t ∈ times, t ≤ now)
    (hwithin : ∀ a, times.countP (fun t => decide (a ≤ t ∧ t < a + width)) ≤ limit) :
    (∀ a, (now :: times).countP (fun t => decide (a ≤ t ∧ t < a + width)) ≤ limit) ↔
      young width now times < limit := by
  simp only [List.countP_cons, decide_eq_true_eq]
  constructor
  · intro h
    -- the interval that ends right after `now` has all the young ones
    have hlast := h (now + 1 - width)
    rw [if_pos (by omega)] at hlast
    refine Nat.lt_of_lt_of_le (Nat.lt_succ_of_le ?_) hlast
    refine List.countP_mono_left fun t ht hyoung => ?_
    rw [decide_eq_true_eq] at hyoung ⊢
    have := hpast t ht
    omega
  · intro h a
    split_ifs with hin
    · have hle : times.countP (fun t => decide (a ≤ t ∧ t < a + width)) ≤
          young width now times := by
        refine List.countP_mono_left fun t _ ht => ?_
        rw [decide_eq_true_eq] at ht ⊢
        omega
      omega
    · exact hwithin a

/-- The step lemma. -/
theorem within_check_iff (hwidth : 0 < width) (helapsed : elapsed s.start now = now - s.start)
    (h : Windowed s clock) (hle : clock ≤ now) (hwithin : Within width limit s) :
    Within width limit (check elapsed width limit s now) ↔
      LeavesRoom elapsed width limit s now := by
  unfold Within LeavesRoom
  rw [passed_check]
  by_cases hpass : Passes elapsed width limit s now
  · simp only [hpass, if_true, true_imp_iff]
    rw [within_cons_iff hwidth (fun t ht => (h.past t ht).trans hle) hwithin]
    split_ifs with hopens
    · exact Iff.rfl
    · have hsum : young width now s.passed = s.count + young width now s.earlier := by
        rw [← young_current helapsed h hle hopens, State.passed, young, List.countP_append]
        rfl
      rw [hsum]
  · simp only [hpass, if_false, false_imp_iff, iff_true]
    exact hwithin

/-! ### Two windows in a row -/

/-- An interval of the width of a window meets at most two windows, each of which let at most
`limit` events pass. -/
structure Paced (width limit : ℕ) (s : State) : Prop where
  full : s.count ≤ limit
  before : ∀ t ∈ s.earlier, t ≤ s.start
  straddle : ∀ a, s.start < a + width → s.earlier.countP (fun t => decide (a ≤ t)) ≤ limit
  twice : ∀ a, s.passed.countP (fun t => decide (a ≤ t ∧ t < a + width)) ≤ 2 * limit

theorem paced_check (hlimit : 0 < limit) (helapsed : elapsed s.start now = now - s.start)
    (h : Windowed s clock) (hle : clock ≤ now) (hp : Paced width limit s) :
    Paced width limit (check elapsed width limit s now) := by
  have hpast : ∀ t ∈ s.passed, t ≤ now := fun t ht => (h.past t ht).trans hle
  have hcurrent : ∀ p : ℕ → Bool, s.current.countP p ≤ limit := fun p =>
    List.countP_le_length.trans (h.count ▸ hp.full)
  unfold check
  split_ifs with hopens hroom
  · -- the window is over: its passes are all that an interval with `now` has of the past
    have hlast : ∀ a, now < a + width →
        (s.current ++ s.earlier).countP (fun t => decide (a ≤ t)) ≤ limit := by
      intro a ha
      have hearlier : s.earlier.countP (fun t => decide (a ≤ t)) = 0 := by
        rw [List.countP_eq_zero]
        intro t ht
        have hbefore := hp.before t ht
        have hstart : s.start ≤ now := h.start.trans hle
        unfold Opens at hopens
        rw [helapsed] at hopens
        simp only [decide_eq_true_eq]
        omega
      rw [List.countP_append, hearlier, Nat.add_zero]
      exact hcurrent _
    refine ⟨hlimit, hpast, hlast, fun a => ?_⟩
    change (now :: s.passed).countP _ ≤ 2 * limit
    simp only [List.countP_cons, decide_eq_true_eq]
    split_ifs with hin
    · have hle : s.passed.countP (fun t => decide (a ≤ t ∧ t < a + width)) ≤ limit := by
        refine (List.countP_mono_left fun t _ ht => ?_).trans (hlast a hin.2)
        rw [decide_eq_true_eq] at ht ⊢
        exact ht.1
      omega
    · exact hp.twice a
  · refine ⟨hroom, hp.before, hp.straddle, fun a => ?_⟩
    change (now :: s.passed).countP _ ≤ 2 * limit
    simp only [List.countP_cons, decide_eq_true_eq]
    split_ifs with hin
    · have hstart : s.start < a + width := lt_of_le_of_lt (h.start.trans hle) hin.2
      have hearlier : s.earlier.countP (fun t => decide (a ≤ t ∧ t < a + width)) ≤ limit := by
        refine (List.countP_mono_left fun t _ ht => ?_).trans (hp.straddle a hstart)
        rw [decide_eq_true_eq] at ht ⊢
        exact ht.1
      have hfew : s.current.countP (fun t => decide (a ≤ t ∧ t < a + width)) ≤ s.count :=
        List.countP_le_length.trans h.count.ge
      rw [State.passed, List.countP_append]
      omega
    · exact hp.twice a
  · exact hp

/-! ### Windows that open when every pass is old -/

/-- A window opens only when every pass is old. -/
def Rested (elapsed : ℕ → ℕ → ℕ) (width : ℕ) (s : State) (now : ℕ) : Prop :=
  Opens elapsed width s now → ∀ t ∈ s.passed, t + width ≤ now

/-- The passes of earlier windows were old when the current one opened. -/
def Apart (width : ℕ) (s : State) : Prop := ∀ t ∈ s.earlier, t + width ≤ s.start

theorem apart_check (h : Apart width s) (hr : Rested elapsed width s now) :
    Apart width (check elapsed width limit s now) := by
  unfold check
  split_ifs with hopens hroom
  · exact hr hopens
  · exact h
  · exact h

theorem leavesRoom_of_rested (hlimit : 0 < limit) (h : Windowed s clock) (hle : clock ≤ now)
    (hapart : Apart width s) (hr : Rested elapsed width s now) :
    LeavesRoom elapsed width limit s now := by
  have hold : ∀ times : List ℕ, (∀ t ∈ times, t + width ≤ now) → young width now times = 0 := by
    intro times htimes
    rw [young, List.countP_eq_zero]
    intro t ht
    have := htimes t ht
    simp only [decide_eq_true_eq]
    omega
  intro hpass
  split_ifs with hopens
  · exact (hold _ (hr hopens)).trans_lt hlimit
  · rw [hold _ fun t ht => (hapart t ht).trans (h.start.trans hle), Nat.add_zero]
    exact hpass.resolve_left hopens

end FixedWindow
