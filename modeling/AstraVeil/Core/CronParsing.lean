import AstraVeil.Core.TemporalWindow
import AstraVeil.Lib.KotlinNumbers

/-!
# From cron expressions to temporal windows

`TemporalWindow.fromCron` splits a cron expression at its white space and reads five fields.  A
field that is no number becomes `-1`, which stands for any value.

* `matchesCron_fromCron`: the minutes that a window read from a cron expression opens in;
* `fieldClosed_parseField_iff`: the fields that are read as they are written;
* `failClosed_iff`: the cron expressions that are rejected or read as they are written.
-/

namespace AstraVeil.Core

open KotlinString Utf16

namespace TemporalWindow

/-- What `\s` stands for. -/
def isSpace (u : UInt16) : Bool :=
  let n := u.toNat
  decide (n = 0x20 ∨ (0x09 ≤ n ∧ n ≤ 0x0D))

/-- The pieces of a text between its runs of white space.  The first piece starts with `field`;
`inRun` says that the text follows white space. -/
def splitFrom (inRun : Bool) (field : JString) : JString → List JString
  | [] => [field]
  | u :: s =>
      if isSpace u then
        if inRun then splitFrom true field s else field :: splitFrom true [] s
      else splitFrom false (field ++ [u]) s

/-- `split("\\s+".toRegex())`. -/
def splitSpaces (s : JString) : List JString := splitFrom false [] s

/-- The fields of a cron expression. -/
def cronFields (cron : JString) : List JString := splitSpaces (trim cron)

/-- The field for any value. -/
def star : JString := ofString "*"

/-- `parseField`. -/
def parseField (s : JString) : Int32 :=
  if s = star then -1 else (toIntOrNull s).getD (-1)

/-- `fromCron`; the error is the message of the exception. -/
def fromCron (capability cron : JString) (durationMinutes : Int32 := 60) :
    Except JString TemporalWindow :=
  match cronFields cron with
  | [minute, hour, dayOfMonth, month, dayOfWeek] =>
      .ok
        { capability
          cronMinute := parseField minute
          cronHour := parseField hour
          cronDayOfMonth := parseField dayOfMonth
          cronMonth := parseField month
          cronDayOfWeek := parseField dayOfWeek
          durationMinutes }
  | fields =>
      .error (ofString "Cron must have exactly 5 fields (got " ++ decimal fields.length ++
        ofString "): '" ++ cron ++ ofString "'")

/-- There are five fields. -/
theorem fromCron_eq_ok_iff {capability cron : JString} {duration : Int32} {w : TemporalWindow} :
    fromCron capability cron duration = .ok w ↔
      ∃ minute hour dayOfMonth month dayOfWeek,
        cronFields cron = [minute, hour, dayOfMonth, month, dayOfWeek] ∧
        w = { capability
              cronMinute := parseField minute
              cronHour := parseField hour
              cronDayOfMonth := parseField dayOfMonth
              cronMonth := parseField month
              cronDayOfWeek := parseField dayOfWeek
              durationMinutes := duration } := by
  unfold fromCron
  split
  · next minute hour dayOfMonth month dayOfWeek heq =>
    constructor
    · intro h
      exact ⟨minute, hour, dayOfMonth, month, dayOfWeek, heq, (Except.ok.inj h).symm⟩
    · rintro ⟨_, _, _, _, _, hfields, rfl⟩
      obtain ⟨rfl, rfl, rfl, rfl, rfl⟩ : _ ∧ _ ∧ _ ∧ _ ∧ _ := by
        simpa using heq.symm.trans hfields
      rfl
  · next hne =>
    refine iff_of_false (by simp) ?_
    rintro ⟨minute, hour, dayOfMonth, month, dayOfWeek, hfields, -⟩
    exact hne _ _ _ _ _ hfields

/-! ### One field -/

theorem toIntOrNull_star : toIntOrNull star = none := by decide

theorem parseField_eq (s : JString) : parseField s = (toIntOrNull s).getD (-1) := by
  unfold parseField
  split_ifs with h
  · rw [h, toIntOrNull_star]
    rfl
  · rfl

/-- The values that a field lets through: all of them, unless it is a number. -/
theorem matchesField_parseField {s : JString} {actual : ℤ} :
    matchesField (parseField s) actual = true ↔
      ∀ z, toIntOrNull s = some z → z.toInt < 0 ∨ z.toInt = actual := by
  rw [parseField_eq, matchesField]
  cases toIntOrNull s with
  | none => simp
  | some z => simp

/-- **A window read from a cron expression opens in the minutes that no field which is a number
excludes.** -/
theorem matchesCron_fromCron {capability cron : JString} {duration : Int32} {w : TemporalWindow}
    (h : fromCron capability cron duration = .ok w) (cal : ℤ) :
    w.matchesCron cal = true ↔
      List.Forall₂ (fun s actual => ∀ z, toIntOrNull s = some z → z.toInt < 0 ∨ z.toInt = actual)
        (cronFields cron)
        [cal % 60, cal / 60 % 24, (Calendar.civil (cal / 1440)).day,
          (Calendar.civil (cal / 1440)).month, Calendar.dayOfWeek (cal / 1440)] := by
  obtain ⟨minute, hour, dayOfMonth, month, dayOfWeek, hfields, rfl⟩ := fromCron_eq_ok_iff.1 h
  rw [hfields]
  simp only [matchesCron, Bool.and_eq_true, matchesField_parseField, and_assoc,
    List.forall₂_cons, List.Forall₂.nil, and_true]

/-- The value read from a field is the wildcard for `*`, and else the number written there, which
is in the range of the field. -/
def FieldClosed (lo hi : ℤ) (s : JString) (value : Int32) : Prop :=
  (value.toInt < 0 ∧ s = star) ∨
    (toIntegerOrNull s = some value.toInt ∧ lo ≤ value.toInt ∧ value.toInt ≤ hi)

/-- A field is `*` or a number in its range. -/
def FieldOk (lo hi : ℤ) (s : JString) : Prop :=
  s = star ∨ ∃ z, toIntegerOrNull s = some z ∧ lo ≤ z ∧ z ≤ hi

/-- The fields that are read as they are written. -/
theorem fieldClosed_parseField_iff {lo hi : ℤ} (hlo : 0 ≤ lo) (hhi : hi < 2 ^ 31) {s : JString} :
    FieldClosed lo hi s (parseField s) ↔ FieldOk lo hi s := by
  constructor
  · rintro (⟨-, hstar⟩ | hnumber)
    · exact Or.inl hstar
    · exact Or.inr ⟨_, hnumber⟩
  · rintro (rfl | ⟨z, hz, hle, hge⟩)
    · exact Or.inl ⟨by decide, rfl⟩
    · have hread : (parseField s).toInt = z := by
        rw [parseField_eq, toIntOrNull, hz, Option.bind_some, if_pos (by omega), Option.getD_some,
          Int32.toInt_ofInt_of_le (by omega) (by omega)]
      exact Or.inr (by rw [hread]; exact ⟨hz, hle, hge⟩)

/-! ### The whole expression -/

/-- A returned window is read from five fields, each as it is written. -/
def FailClosed (capability cron : JString) (duration : Int32) : Prop :=
  ∀ w, fromCron capability cron duration = .ok w →
    ∃ minute hour dayOfMonth month dayOfWeek,
      cronFields cron = [minute, hour, dayOfMonth, month, dayOfWeek] ∧
      FieldClosed 0 59 minute w.cronMinute ∧ FieldClosed 0 23 hour w.cronHour ∧
      FieldClosed 1 31 dayOfMonth w.cronDayOfMonth ∧ FieldClosed 1 12 month w.cronMonth ∧
      FieldClosed 0 6 dayOfWeek w.cronDayOfWeek

/-- A cron expression of the supported form: each field is `*` or a number in its range. -/
def Supported (cron : JString) : Prop :=
  ∃ minute hour dayOfMonth month dayOfWeek,
    cronFields cron = [minute, hour, dayOfMonth, month, dayOfWeek] ∧
    FieldOk 0 59 minute ∧ FieldOk 0 23 hour ∧ FieldOk 1 31 dayOfMonth ∧ FieldOk 1 12 month ∧
    FieldOk 0 6 dayOfWeek

/-- **Reading a cron expression is fail-closed for the supported expressions and for those without
five fields, and for no others.** -/
theorem failClosed_iff (capability cron : JString) (duration : Int32) :
    FailClosed capability cron duration ↔ (cronFields cron).length ≠ 5 ∨ Supported cron := by
  have hfields : ∀ {minute hour dayOfMonth month dayOfWeek},
      (FieldClosed 0 59 minute (parseField minute) ∧ FieldClosed 0 23 hour (parseField hour) ∧
        FieldClosed 1 31 dayOfMonth (parseField dayOfMonth) ∧
        FieldClosed 1 12 month (parseField month) ∧
        FieldClosed 0 6 dayOfWeek (parseField dayOfWeek)) ↔
      FieldOk 0 59 minute ∧ FieldOk 0 23 hour ∧ FieldOk 1 31 dayOfMonth ∧ FieldOk 1 12 month ∧
        FieldOk 0 6 dayOfWeek := by
    intro minute hour dayOfMonth month dayOfWeek
    rw [fieldClosed_parseField_iff (by omega) (by omega),
      fieldClosed_parseField_iff (by omega) (by omega),
      fieldClosed_parseField_iff (by omega) (by omega),
      fieldClosed_parseField_iff (by omega) (by omega),
      fieldClosed_parseField_iff (by omega) (by omega)]
  constructor
  · intro h
    by_cases hlen : (cronFields cron).length = 5
    · obtain ⟨minute, rest, hcron⟩ := List.exists_cons_of_length_eq_add_one hlen
      obtain ⟨hour, dayOfMonth, month, dayOfWeek, rfl⟩ : ∃ a b c d, rest = [a, b, c, d] :=
        List.length_eq_four.1 (by simpa [hcron] using hlen)
      have hok : fromCron capability cron duration = .ok _ :=
        fromCron_eq_ok_iff.2 ⟨minute, hour, dayOfMonth, month, dayOfWeek, hcron, rfl⟩
      obtain ⟨minute, hour, dayOfMonth, month, dayOfWeek, hcron', hclosed⟩ := h _ hok
      obtain ⟨rfl, rfl, rfl, rfl, rfl⟩ : _ ∧ _ ∧ _ ∧ _ ∧ _ := by
        simpa using hcron.symm.trans hcron'
      exact Or.inr ⟨_, _, _, _, _, hcron, hfields.1 hclosed⟩
    · exact Or.inl hlen
  · rintro h w hw
    obtain ⟨minute, hour, dayOfMonth, month, dayOfWeek, hcron, rfl⟩ := fromCron_eq_ok_iff.1 hw
    rcases h with hlen | ⟨_, _, _, _, _, hcron', hok⟩
    · exact absurd (by rw [hcron]; rfl) hlen
    · obtain ⟨rfl, rfl, rfl, rfl, rfl⟩ : _ ∧ _ ∧ _ ∧ _ ∧ _ := by
        simpa using hcron.symm.trans hcron'
      exact ⟨_, _, _, _, _, hcron, hfields.2 hok⟩

/-- A range of hours is read as any hour. -/
theorem not_failClosed_range :
    ¬ FailClosed (ofString "file_write") (ofString "0 2-4 * * *") 60 := by
  have hcron : cronFields (ofString "0 2-4 * * *") =
      [ofString "0", ofString "2-4", star, star, star] := by
    decide +kernel
  intro h
  obtain ⟨_, hour, _, _, _, hcron', -, hclosed, -⟩ :=
    h _ (fromCron_eq_ok_iff.2 ⟨_, _, _, _, _, hcron, rfl⟩)
  obtain ⟨-, rfl, -⟩ : _ ∧ _ ∧ _ := by
    simpa using hcron.symm.trans hcron'
  rcases hclosed with ⟨-, hstar⟩ | ⟨hnumber, -⟩
  · exact absurd hstar (by decide)
  · exact absurd hnumber (by decide)

end TemporalWindow

end AstraVeil.Core
