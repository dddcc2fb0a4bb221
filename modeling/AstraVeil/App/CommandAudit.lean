import AstraVeil.App.TrustedSession
import AstraVeil.Core.AuditImport
import AstraVeil.Lib.JsonLines
import AstraVeil.Lib.KotlinNumbers

/-!
# The audit file of interactive commands

`core/execution/CommandAuditLogger.kt`: records are appended to one file, a line of JSON each, by
however many loggers are open on it, and `recent` reads back the commands.  The decoder of the JSON
library is a parameter that reads what the encoder writes and refuses a record without a command.

* `mend_recordText`: a record that goes through the file is the record with its strings mended;
* `recent_records`: `recent` after any number of records;
* `reads_decodeText`: a decoder as the library documents it.
-/

namespace AstraVeil.App

open Utf16 KotlinString JsonLines Runs
open AstraVeil.Core.AuditChain (utf16Units)

namespace CommandAuditLogger

/-- A truth value. -/
def boolText (b : Bool) : JString := utf16Units.lit (if b then "true" else "false")

/-- `json.encodeToString` of a command; `number` prints the comma behind it. -/
def commandText (e : CommandAuditEntry) : JString :=
  utf16Units.lit "\x7b\"timestamp\":" ++ (utf16Units.number e.timestamp.toInt ++
    (utf16Units.lit "\"sessionId\":" ++ (utf16Units.quote e.sessionId ++
    (utf16Units.lit ",\"source\":" ++ (utf16Units.quote e.source ++
    (utf16Units.lit ",\"backend\":" ++ (utf16Units.quote e.backend ++
    (utf16Units.lit ",\"command\":" ++ (utf16Units.quote e.command ++
    (utf16Units.lit ",\"exitCode\":" ++ (utf16Units.number e.exitCode.toInt ++
    (utf16Units.lit "\"success\":" ++ (boolText e.success ++
    (utf16Units.lit ",\"timedOut\":" ++ (boolText e.timedOut ++
    (utf16Units.lit ",\"outputPreview\":" ++ (utf16Units.quote e.outputPreview ++
      utf16Units.lit "\x7d")))))))))))))))))

/-- `json.encodeToString` of an event of a session. -/
def sessionText (e : SessionEvent) : JString :=
  utf16Units.lit "\x7b\"timestamp\":" ++ (utf16Units.number e.timestamp.toInt ++
    (utf16Units.lit "\"sessionId\":" ++ (utf16Units.quote e.sessionId ++
    (utf16Units.lit ",\"source\":" ++ (utf16Units.quote e.source ++
    (utf16Units.lit ",\"event\":" ++ (utf16Units.quote e.event ++
      utf16Units.lit "\x7d")))))))

def recordText : AuditRecord → JString
  | .command entry => commandText entry
  | .session event => sessionText event

/-- `appendText`: the characters that the bytes of the text are read back as. -/
def append (auditFile : JString) (record : AuditRecord) : JString :=
  auditFile ++ mend (recordText record ++ [0x0A])

/-- `takeLast`. -/
def takeLast {α : Type} (limit : ℕ) (l : List α) : List α := l.drop (l.length - limit)

def recent (decode : JString → Option CommandAuditEntry) (auditFile : Option JString)
    (limit : ℕ) : List CommandAuditEntry :=
  match auditFile with
  | none => []
  | some file => takeLast limit ((JsonLines.readLines file).filterMap decode)

/-- A string field after it went through the file. -/
def mendEntry (e : CommandAuditEntry) : CommandAuditEntry :=
  { e with
    sessionId := mend e.sessionId
    source := mend e.source
    backend := mend e.backend
    command := mend e.command
    outputPreview := mend e.outputPreview }

def mendEvent (e : SessionEvent) : SessionEvent :=
  ⟨e.timestamp, mend e.sessionId, mend e.source, mend e.event⟩

def mendRecord : AuditRecord → AuditRecord
  | .command entry => .command (mendEntry entry)
  | .session event => .session (mendEvent event)

/-- The command of a record. -/
def entryOf : AuditRecord → Option CommandAuditEntry
  | .command entry => some entry
  | .session _ => none

/-! ### A record in the file -/

theorem code_utf16Units (u : UInt16) : utf16Units.code u = u.toNat := rfl

theorem plain_number (z : ℤ) : Plain (utf16Units.number z) := by
  refine plain_of_ascii fun v hv => ?_
  rcases List.mem_append.1 hv with hv | hv
  · obtain ⟨c, hc, rfl⟩ := List.mem_map.1 hv
    have hlt : c.toNat < 0x80 := by
      rcases Digits.mem_intDigits hc with rfl | hd
      · decide
      · have := (isDigit_range hd).2
        omega
    exact (utf16Units.code_ascii c.toNat hlt).trans_lt hlt
  · rw [List.mem_singleton.1 hv]
    decide

theorem singleLine_number (z : ℤ) : SingleLine (utf16Units.number z) := by
  intro v hv
  rcases List.mem_append.1 hv with hv | hv
  · obtain ⟨c, hc, rfl⟩ := List.mem_map.1 hv
    have hrange : 0x2D ≤ c.toNat ∧ c.toNat < 0x80 := by
      rcases Digits.mem_intDigits hc with rfl | hd
      · decide
      · have := isDigit_range hd
        omega
    have hcode : (utf16Units.ascii c.toNat).toNat = c.toNat := utf16Units.code_ascii _ hrange.2
    constructor <;> intro heq <;> rw [heq] at hcode <;> revert hcode <;> simp <;> omega
  · rw [List.mem_singleton.1 hv]
    decide

theorem mend_lit_append {text : String} (h : Plain (utf16Units.lit text)) (y : JString) :
    mend (utf16Units.lit text ++ y) = utf16Units.lit text ++ mend y := mend_append_of_plain h y

theorem mend_number_append (z : ℤ) (y : JString) :
    mend (utf16Units.number z ++ y) = utf16Units.number z ++ mend y :=
  mend_append_of_plain (plain_number z) y

theorem mend_boolText_append (b : Bool) (y : JString) :
    mend (boolText b ++ y) = boolText b ++ mend y := by
  cases b <;> exact mend_append_of_plain (by decide) y

/-- A record in the file is the record with its strings mended. -/
theorem mend_recordText (record : AuditRecord) (y : JString) :
    mend (recordText record ++ y) = recordText (mendRecord record) ++ mend y := by
  cases record with
  | command e =>
    simp (disch := decide) only [recordText, mendRecord, mendEntry, commandText, List.append_assoc,
      mend_lit_append, mend_number_append, mend_boolText_append,
      mend_quote_append code_utf16Units]
  | session e =>
    simp (disch := decide) only [recordText, mendRecord, mendEvent, sessionText, List.append_assoc,
      mend_lit_append, mend_number_append, mend_quote_append code_utf16Units]

theorem singleLine_boolText (b : Bool) : SingleLine (boolText b) := by cases b <;> decide

theorem singleLine_recordText (record : AuditRecord) : SingleLine (recordText record) := by
  have hquote := singleLine_quote code_utf16Units
  have hlits : ∀ text ∈ ["\x7b\"timestamp\":", "\"sessionId\":", ",\"source\":",
      ",\"backend\":", ",\"command\":", ",\"exitCode\":", "\"success\":", ",\"timedOut\":",
      ",\"outputPreview\":", ",\"event\":", "\x7d"], SingleLine (utf16Units.lit text) := by
    decide
  cases record with
  | command e =>
    simp only [recordText, commandText, singleLine_append, hquote, singleLine_number,
      singleLine_boolText, true_and]
    simp only [List.forall_mem_cons] at hlits
    simp [hlits]
  | session e =>
    simp only [recordText, sessionText, singleLine_append, hquote, singleLine_number, true_and]
    simp only [List.forall_mem_cons] at hlits
    simp [hlits]

/-- The file holds the lines of the mended records. -/
theorem foldl_append (file : JString) (records : List AuditRecord) :
    records.foldl append file =
      file ++ (records.map fun r => recordText (mendRecord r)).flatMap fun l => l ++ [0x0A] := by
  have hbreak : mend [0x0A] = [0x0A] := by decide
  induction records generalizing file with
  | nil => simp
  | cons record records ih =>
    rw [List.foldl_cons, ih, append, mend_recordText, hbreak, List.map_cons, List.flatMap_cons,
      List.append_assoc]

/-! ### Reading the commands back -/

/-- The decoder reads what the encoder writes, and refuses a record that has no command. -/
structure Reads (decode : JString → Option CommandAuditEntry) : Prop where
  command : ∀ e, decode (commandText e) = some e
  session : ∀ e, decode (sessionText e) = none

theorem Reads.decode_recordText {decode : JString → Option CommandAuditEntry} (h : Reads decode)
    (record : AuditRecord) : decode (recordText record) = entryOf record := by
  cases record with
  | command e => exact h.command e
  | session e => exact h.session e

theorem entryOf_mendRecord (record : AuditRecord) :
    entryOf (mendRecord record) = (entryOf record).map mendEntry := by cases record <;> rfl

/-- **`recent`.** After any number of records the last commands come back, in order, with an
unpaired surrogate in a string turned into a question mark and nothing else changed. -/
theorem recent_records {decode : JString → Option CommandAuditEntry} (h : Reads decode)
    (records : List AuditRecord) (limit : ℕ) :
    recent decode (some (records.foldl append [])) limit =
      takeLast limit ((records.filterMap entryOf).map mendEntry) := by
  have hlines : ∀ l ∈ records.map fun r => recordText (mendRecord r), SingleLine l := by
    intro l hl
    obtain ⟨r, -, rfl⟩ := List.mem_map.1 hl
    exact singleLine_recordText _
  rw [recent, foldl_append, List.nil_append, readLines_flatMap hlines, List.filterMap_map,
    List.map_filterMap]
  congr 1
  refine List.filterMap_congr fun r _ => ?_
  rw [Function.comp_apply, h.decode_recordText, entryOf_mendRecord]

/-- What a command loses in the file. -/
theorem mendEntry_eq_iff (e : CommandAuditEntry) :
    mendEntry e = e ↔ mend e.sessionId = e.sessionId ∧ mend e.source = e.source ∧
      mend e.backend = e.backend ∧ mend e.command = e.command ∧
      mend e.outputPreview = e.outputPreview := by
  obtain ⟨t, i, s, b, c, x, ok, late, p⟩ := e
  simp [mendEntry]

/-! ### A decoder -/

theorem delimited_boolText : JsonText.Delimited boolText := by
  have htrue : boolText true = [0x74, 0x72, 0x75, 0x65] := rfl
  have hfalse : boolText false = [0x66, 0x61, 0x6C, 0x73, 0x65] := rfl
  intro a b x y h
  cases a <;> cases b <;> simp [htrue, hfalse] at h <;> exact ⟨rfl, h⟩

theorem recordText_injective : Function.Injective recordText := by
  have hquote : JsonText.Delimited utf16Units.quote := JsonText.Units.delimited_quote
  have hnumber : JsonText.Delimited utf16Units.number := JsonText.delimited_number
  have hbool := delimited_boolText
  have hkinds : ∀ x y : JString, utf16Units.lit ",\"backend\":" ++ x ≠
      utf16Units.lit ",\"event\":" ++ y := by
    intro x y h
    have hbackend : (utf16Units.lit ",\"backend\":" ++ x)[2]? = some 0x62 := rfl
    have hevent : (utf16Units.lit ",\"event\":" ++ y)[2]? = some 0x65 := rfl
    rw [h, hevent] at hbackend
    exact absurd hbackend (by decide)
  intro a b h
  cases a with
  | command a =>
    cases b with
    | command b =>
      simp only [recordText, commandText] at h
      obtain ⟨h1, h⟩ := hnumber _ _ _ _ (List.append_cancel_left h)
      obtain ⟨h2, h⟩ := hquote _ _ _ _ (List.append_cancel_left h)
      obtain ⟨h3, h⟩ := hquote _ _ _ _ (List.append_cancel_left h)
      obtain ⟨h4, h⟩ := hquote _ _ _ _ (List.append_cancel_left h)
      obtain ⟨h5, h⟩ := hquote _ _ _ _ (List.append_cancel_left h)
      obtain ⟨h6, h⟩ := hnumber _ _ _ _ (List.append_cancel_left h)
      obtain ⟨h7, h⟩ := hbool _ _ _ _ (List.append_cancel_left h)
      obtain ⟨h8, h⟩ := hbool _ _ _ _ (List.append_cancel_left h)
      obtain ⟨h9, -⟩ := hquote _ _ _ _ (List.append_cancel_left h)
      obtain ⟨t, i, s, b, c, x, ok, late, p⟩ := a
      simp only [Int64.toInt_inj, Int32.toInt_inj] at h1 h2 h3 h4 h5 h6 h7 h8 h9
      subst h1 h2 h3 h4 h5 h6 h7 h8 h9
      rfl
    | session b =>
      simp only [recordText, commandText, sessionText] at h
      obtain ⟨-, h⟩ := hnumber _ _ _ _ (List.append_cancel_left h)
      obtain ⟨-, h⟩ := hquote _ _ _ _ (List.append_cancel_left h)
      obtain ⟨-, h⟩ := hquote _ _ _ _ (List.append_cancel_left h)
      exact absurd h (hkinds _ _)
  | session a =>
    cases b with
    | command b =>
      simp only [recordText, commandText, sessionText] at h
      obtain ⟨-, h⟩ := hnumber _ _ _ _ (List.append_cancel_left h)
      obtain ⟨-, h⟩ := hquote _ _ _ _ (List.append_cancel_left h)
      obtain ⟨-, h⟩ := hquote _ _ _ _ (List.append_cancel_left h)
      exact absurd h.symm (hkinds _ _)
    | session b =>
      simp only [recordText, sessionText] at h
      obtain ⟨h1, h⟩ := hnumber _ _ _ _ (List.append_cancel_left h)
      obtain ⟨h2, h⟩ := hquote _ _ _ _ (List.append_cancel_left h)
      obtain ⟨h3, h⟩ := hquote _ _ _ _ (List.append_cancel_left h)
      obtain ⟨h4, -⟩ := hquote _ _ _ _ (List.append_cancel_left h)
      obtain ⟨t, i, s, e⟩ := a
      simp only [Int64.toInt_inj] at h1 h2 h3 h4
      subst h1 h2 h3 h4
      rfl

/-- `json.decodeFromString`, on the texts that `encodeToString` writes. -/
noncomputable def decodeText (line : JString) : Option CommandAuditEntry :=
  (Function.partialInv recordText line).bind entryOf

theorem reads_decodeText : Reads decodeText where
  command e := by
    rw [decodeText, show commandText e = recordText (.command e) from rfl,
      Function.partialInv_left recordText_injective]
    rfl
  session e := by
    rw [decodeText, show sessionText e = recordText (.session e) from rfl,
      Function.partialInv_left recordText_injective]
    rfl

/-- A command whose preview was cut inside a character. -/
def cutEntry : CommandAuditEntry where
  timestamp := 12
  sessionId := ofString "s1"
  source := ofString "TERMINAL"
  backend := ofString "magisk"
  command := ofString "echo"
  exitCode := 0
  success := true
  timedOut := false
  outputPreview := [0xD83D]

def closedEvent : SessionEvent := ⟨13, ofString "s1", ofString "TERMINAL", ofString "CLOSED"⟩

theorem recent_records_cut :
    recent decodeText (some ([.command cutEntry, .session closedEvent].foldl append [])) 100 =
      [{ cutEntry with outputPreview := ofString "?" }] := by
  rw [recent_records reads_decodeText]
  decide +kernel

end CommandAuditLogger

end AstraVeil.App
