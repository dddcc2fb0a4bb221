import Mathlib.Tactic

/-!
# The Gregorian calendar

Days and minutes are counted from the start of 1970, local time without shifts.  The years of the
conversion start in March, so that the leap day is the last day of its year.

* `Split`: a day number cut into cycles of 400, 100 and 4 years, years and days;
* `marchYear_of_split`, `exists_split`: the conversion computes the one such cut;
* `civil_zero`, `civil_succ`: the dates start at 1970-01-01 and follow each other;
* `month_mem`, `day_mem`: their ranges.
-/

namespace Calendar

/-- A date, January being month 1. -/
structure Date where
  year : ℤ
  month : ℤ
  day : ℤ
  deriving DecidableEq

/-- Leap years. -/
def IsLeap (y : ℤ) : Prop := y % 4 = 0 ∧ (y % 100 ≠ 0 ∨ y % 400 = 0)

instance (y : ℤ) : Decidable (IsLeap y) := inferInstanceAs (Decidable (_ ∧ _))

/-- The length of a month. -/
def daysInMonth (y m : ℤ) : ℤ :=
  if m = 2 then if IsLeap y then 29 else 28
  else if m = 4 ∨ m = 6 ∨ m = 9 ∨ m = 11 then 30 else 31

/-- The day after a date. -/
def Date.next (d : Date) : Date :=
  if d.day < daysInMonth d.year d.month then { d with day := d.day + 1 }
  else if d.month < 12 then { d with month := d.month + 1, day := 1 }
  else ⟨d.year + 1, 1, 1⟩

/-- The year from March of a day number, and the day in it. -/
def marchYear (n : ℤ) : ℤ × ℤ :=
  let z := n + 719468
  let century := min 3 (z % 146097 / 36524)
  let inCentury := z % 146097 - 36524 * century
  let year := min 3 (inCentury % 1461 / 365)
  (400 * (z / 146097) + 100 * century + 4 * (inCentury / 1461) + year,
    inCentury % 1461 - 365 * year)

/-- A day of the month `k`, counted from March, of a year from March. -/
def ofMonth (year k day : ℤ) : Date where
  year := if k < 10 then year else year + 1
  month := if k < 10 then k + 3 else k - 9
  day := day

/-- The days of a year from March before its month `k`. -/
def daysBefore (k : ℤ) : ℤ := (153 * k + 2) / 5

/-- The date of a day in a year from March. -/
def ofMarch (year day : ℤ) : Date :=
  let k := (5 * day + 2) / 153
  ofMonth year k (day - daysBefore k + 1)

/-- The date of a day number. -/
def civil (n : ℤ) : Date := ofMarch (marchYear n).1 (marchYear n).2

/-- The day of the week, Sunday being 0. -/
def dayOfWeek (n : ℤ) : ℤ := (n + 4) % 7

/-! ### Cycles -/

/-- The day number `n` cut into cycles.  Only the last of four years has the day 365, and the last
of 25 cycles of four years has it only in the last century. -/
structure Split (n era century cycle year day : ℤ) : Prop where
  sum : n + 719468 = 146097 * era + 36524 * century + 1461 * cycle + 365 * year + day
  century_mem : 0 ≤ century ∧ century ≤ 3
  cycle_mem : 0 ≤ cycle ∧ cycle ≤ 24
  year_mem : 0 ≤ year ∧ year ≤ 3
  day_mem : 0 ≤ day ∧ day ≤ 365
  leap : day = 365 → year = 3 ∧ (cycle ≠ 24 ∨ century = 3)

variable {n era century cycle year day : ℤ}

/-- The conversion finds the cut. -/
theorem marchYear_of_split (h : Split n era century cycle year day) :
    marchYear n = (400 * era + 100 * century + 4 * cycle + year, day) := by
  obtain ⟨hsum, hc, hq, hy, hd, hleap⟩ := h
  have hquad : 0 ≤ 365 * year + day ∧ 365 * year + day ≤ 1460 := by
    by_cases hday : day = 365
    · have := (hleap hday).1
      omega
    · omega
  have hcent : 0 ≤ 1461 * cycle + (365 * year + day) ∧
      1461 * cycle + (365 * year + day) ≤ 36524 ∧
      (1461 * cycle + (365 * year + day) = 36524 → century = 3) := by
    by_cases hday : day = 365
    · have := hleap hday
      omega
    · omega
  have hera : (n + 719468) / 146097 = era := by omega
  have hdoe : (n + 719468) % 146097 = 36524 * century + (1461 * cycle + (365 * year + day)) := by
    omega
  have hcentury : min 3 ((n + 719468) % 146097 / 36524) = century := by
    rw [hdoe]
    omega
  have hdoc : (n + 719468) % 146097 - 36524 * century = 1461 * cycle + (365 * year + day) := by
    rw [hdoe]
    omega
  have hcycle : (1461 * cycle + (365 * year + day)) / 1461 = cycle := by omega
  have hdoq : (1461 * cycle + (365 * year + day)) % 1461 = 365 * year + day := by omega
  have hyear : min 3 ((365 * year + day) / 365) = year := by omega
  unfold marchYear
  simp only [hera, hcentury, hdoc, hcycle, hdoq, hyear, Prod.mk.injEq, true_and]
  omega

theorem exists_split (n : ℤ) :
    ∃ era century cycle year day, Split n era century cycle year day := by
  obtain ⟨e, he⟩ : ∃ e, e = (n + 719468) % 146097 := ⟨_, rfl⟩
  obtain ⟨c, hc⟩ : ∃ c, c = min 3 (e / 36524) := ⟨_, rfl⟩
  obtain ⟨q, hq⟩ : ∃ q, q = (e - 36524 * c) / 1461 := ⟨_, rfl⟩
  obtain ⟨f, hf⟩ : ∃ f, f = e - 36524 * c - 1461 * q := ⟨_, rfl⟩
  obtain ⟨y, hy⟩ : ∃ y, y = min 3 (f / 365) := ⟨_, rfl⟩
  have hc' : 0 ≤ c ∧ c ≤ 3 ∧ 0 ≤ e - 36524 * c ∧ e - 36524 * c ≤ 36524 ∧
      (e - 36524 * c = 36524 → c = 3) := by omega
  have hq' : 0 ≤ q ∧ q ≤ 24 ∧ 0 ≤ f ∧ f ≤ 1460 ∧ (f = 1460 → q ≠ 24 ∨ c = 3) := by omega
  have hy' : 0 ≤ y ∧ y ≤ 3 ∧ 0 ≤ f - 365 * y ∧ f - 365 * y ≤ 365 ∧
      (f - 365 * y = 365 → y = 3) := by omega
  exact ⟨(n + 719468) / 146097, c, q, y, f - 365 * y, by omega, by omega, by omega, by omega,
    by omega, fun h => by omega⟩

/-- A day of a year from March is its last one exactly when it is the 364th or, before the March
of a leap year, the 365th. -/
theorem marchYear_succ (n : ℤ) :
    (0 ≤ (marchYear n).2 ∧ (marchYear n).2 ≤ 365) ∧ marchYear (n + 1) =
      if (marchYear n).2 < 364 ∨ ((marchYear n).2 = 364 ∧ IsLeap ((marchYear n).1 + 1)) then
        ((marchYear n).1, (marchYear n).2 + 1)
      else ((marchYear n).1 + 1, 0) := by
  obtain ⟨e, c, q, y, d, h⟩ := exists_split n
  rw [marchYear_of_split h]
  obtain ⟨hsum, hc, hq, hy, hd, hleap⟩ := h
  have hisleap : IsLeap (400 * e + 100 * c + 4 * q + y + 1) ↔ y = 3 ∧ (q ≠ 24 ∨ c = 3) := by
    unfold IsLeap
    constructor
    · rintro ⟨h1, h2⟩
      omega
    · rintro ⟨h1, h2⟩
      omega
  refine ⟨hd, ?_⟩
  show marchYear (n + 1) = if d < 364 ∨ (d = 364 ∧ IsLeap (400 * e + 100 * c + 4 * q + y + 1)) then
    (400 * e + 100 * c + 4 * q + y, d + 1) else (400 * e + 100 * c + 4 * q + y + 1, 0)
  simp only [hisleap]
  split_ifs with hin
  · -- another day of the same year
    exact marchYear_of_split ⟨by omega, hc, hq, hy, by omega, fun h365 => by omega⟩
  · -- the first day of the next year, which may start a cycle, a century or an era
    by_cases h1 : y < 3
    · rw [marchYear_of_split (⟨by omega, hc, hq, by omega, by omega, by omega⟩ :
        Split (n + 1) e c q (y + 1) 0)]
      simp only [Prod.mk.injEq, and_true]
      omega
    · by_cases h2 : q < 24
      · rw [marchYear_of_split (⟨by omega, hc, by omega, by omega, by omega, by omega⟩ :
          Split (n + 1) e c (q + 1) 0 0)]
        simp only [Prod.mk.injEq, and_true]
        omega
      · by_cases h3 : c < 3
        · rw [marchYear_of_split (⟨by omega, by omega, by omega, by omega, by omega, by omega⟩ :
            Split (n + 1) e (c + 1) 0 0 0)]
          simp only [Prod.mk.injEq, and_true]
          omega
        · rw [marchYear_of_split (⟨by omega, by omega, by omega, by omega, by omega, by omega⟩ :
            Split (n + 1) (e + 1) 0 0 0 0)]
          simp only [Prod.mk.injEq, and_true]
          omega

/-! ### Dates -/

theorem next_ofMonth (year day : ℤ) {k : ℤ} (h0 : 0 ≤ k) (h1 : k ≤ 10) :
    (ofMonth year k day).next =
      if day < daysBefore (k + 1) - daysBefore k then ofMonth year k (day + 1)
      else ofMonth year (k + 1) 1 := by
  interval_cases k <;> simp [ofMonth, Date.next, daysInMonth, daysBefore]

theorem next_february (year day : ℤ) :
    (ofMonth year 11 day).next =
      if day < (if IsLeap (year + 1) then 29 else 28) then ofMonth year 11 (day + 1)
      else ofMonth (year + 1) 0 1 := by
  simp [ofMonth, Date.next, daysInMonth]

/-- The day after a day that is not the last of its year from March. -/
theorem ofMarch_succ {year day : ℤ} (h0 : 0 ≤ day)
    (h : day < 364 ∨ (day = 364 ∧ IsLeap (year + 1))) :
    ofMarch year (day + 1) = (ofMarch year day).next := by
  obtain ⟨k, hk⟩ : ∃ k, (5 * day + 2) / 153 = k := ⟨_, rfl⟩
  have hk0 : 0 ≤ k := by omega
  unfold ofMarch
  simp only [hk]
  by_cases hfeb : k = 11
  · -- February: whether the 28th is its last day depends on the year
    have hsame : (5 * (day + 1) + 2) / 153 = 11 := by omega
    subst hfeb
    have hlen : day - daysBefore 11 + 1 < if IsLeap (year + 1) then 29 else 28 := by
      have hstart : daysBefore 11 = 337 := by decide
      split_ifs with h29
      · omega
      · have := h.resolve_right fun hl => h29 hl.2
        omega
    rw [hsame, next_february, if_pos hlen]
    congr 1
    omega
  · have hmonth : ((5 * (day + 1) + 2) / 153 = k ∧ day + 1 < daysBefore (k + 1)) ∨
        (5 * (day + 1) + 2) / 153 = k + 1 ∧ day + 1 = daysBefore (k + 1) := by
      unfold daysBefore
      omega
    rw [next_ofMonth _ _ hk0 (by omega)]
    rcases hmonth with ⟨hsame, hin⟩ | ⟨hnew, hlast⟩
    · rw [hsame, if_pos (by omega)]
      congr 1
      omega
    · rw [hnew, if_neg (by omega)]
      congr 1
      omega

/-- The day after the last day of February. -/
theorem ofMarch_last {year day : ℤ} (h1 : 364 ≤ day) (h2 : day ≤ 365)
    (h : ¬ (day = 364 ∧ IsLeap (year + 1))) :
    ofMarch (year + 1) 0 = (ofMarch year day).next := by
  have hk : (5 * day + 2) / 153 = 11 := by omega
  have hstart : daysBefore 11 = 337 := by decide
  have hlen : ¬ day - daysBefore 11 + 1 < if IsLeap (year + 1) then 29 else 28 := by
    split_ifs with h29
    · have : day ≠ 364 := fun h364 => h ⟨h364, h29⟩
      omega
    · omega
  unfold ofMarch
  simp only [hk]
  rw [next_february, if_neg hlen]
  simp [daysBefore]

theorem civil_zero : civil 0 = ⟨1970, 1, 1⟩ := by decide

/-- The dates follow each other. -/
theorem civil_succ (n : ℤ) : civil (n + 1) = (civil n).next := by
  obtain ⟨⟨h0, h1⟩, hsucc⟩ := marchYear_succ n
  unfold civil
  rw [hsucc]
  split_ifs with hin
  · exact ofMarch_succ h0 hin
  · rw [not_or] at hin
    exact ofMarch_last (by omega) h1 hin.2

theorem month_mem (n : ℤ) : 1 ≤ (civil n).month ∧ (civil n).month ≤ 12 := by
  obtain ⟨h0, h1⟩ := (marchYear_succ n).1
  unfold civil ofMarch ofMonth
  simp only
  split_ifs <;> omega

theorem day_mem (n : ℤ) : 1 ≤ (civil n).day ∧ (civil n).day ≤ 31 := by
  obtain ⟨h0, h1⟩ := (marchYear_succ n).1
  unfold civil ofMarch ofMonth daysBefore
  simp only
  omega

end Calendar
