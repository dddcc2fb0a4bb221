import AstraVeil.Lib.JsonParse

/-!
# The JSON codec of the daemon

`json_codec.cpp`: the structured execute request and the response builders.  A builder gives `none`
where `dump` throws; the parser of requests catches every exception.

* `clean_assign_iff`: an object is printed when its values can be;
* `makeErrorResponse_iff`, `makeExecResponse_iff`, `makeAuditArray_iff` and so on: when a builder
  answers, and that it answers with a JSON text.
-/

namespace AstraVeil.Daemon

open Json
open Utf16 (ascii)
open Utf8 (Valid)

/-! ### Execute requests -/

/-- `ExecReq`. -/
structure ExecReq where
  moduleId : List UInt8
  capability : List UInt8
  riskLevel : ℕ
  approved : Bool
  caller : List UInt8
  command : List UInt8
  deriving DecidableEq

/-- The lines that `std::getline` returns until the end of the stream. -/
def getlines : List UInt8 → List (List UInt8)
  | [] => []
  | c :: t =>
      if c = 0x0A then [] :: getlines t
      else
        match getlines t with
        | [] => [[c]]
        | l :: ls => (c :: l) :: ls

/-- `static_cast<int>` of an integer. -/
def toInt32 (z : ℤ) : ℤ := z.bmod (2 ^ 32)

section Codec

variable {F : Type} (fl : FloatText F)

/-- `j.value(key, std::string{})`; `none` is a `type_error`. -/
def valueString (key : List UInt8) (ms : Members F) : Option (List UInt8) :=
  match find key ms with
  | none => some []
  | some (.string s) => some s
  | some _ => none

/-- `j.value(key, fallback)` with an `int`: numbers and booleans are converted. -/
def valueInt (key : List UInt8) (fallback : ℤ) (ms : Members F) : Option ℤ :=
  match find key ms with
  | none => some fallback
  | some (.unsigned n) => some (toInt32 n)
  | some (.integer i) => some (toInt32 i)
  | some (.float x) => some (fl.toInt x)
  | some (.boolean b) => some (if b then 1 else 0)
  | some _ => none

/-- `j.value(key, false)`. -/
def valueBool (key : List UInt8) (ms : Members F) : Option Bool :=
  match find key ms with
  | none => some false
  | some (.boolean b) => some b
  | some _ => none

/-- The fail-safe range of risk levels. -/
def clampRisk (risk : ℤ) : ℕ := (if risk < 0 then 100 else if risk > 100 then 100 else risk).toNat

/-- The fields of an execute request. -/
def readExecReq (ms : Members F) : Option ExecReq := do
  let moduleId ← valueString (ascii "moduleId") ms
  let capability ← valueString (ascii "capability") ms
  let caller ← valueString (ascii "caller") ms
  let command ← valueString (ascii "command") ms
  let risk ← valueInt fl (ascii "riskLevel") 100 ms
  let approved ← valueBool (ascii "approved") ms
  some ⟨moduleId, capability, clampRisk risk, approved, caller, command⟩

/-- `parse_execute_request`; `none` is the answer `false`. -/
def parseExecuteRequest (body : List UInt8) : Option ExecReq :=
  match parse fl body with
  | some (.object ms) =>
    match readExecReq fl ms with
    | some out =>
        if out.command = [] ∨ out.moduleId = [] ∨ out.capability = [] ∨ out.caller = [] then none
        else some out
    | none => none
  | _ => none

/-! ### Response builders -/

/-- Assignments `j[key] = value` to a new object. -/
def assign (l : List (String × Value F)) : Value F :=
  .object (l.foldl (fun ms m => insert (ascii m.1) m.2 ms) [])

/-- `make_exec_response`. -/
def makeExecResponse (success : Bool) (exitCode : ℤ) (stdout stderr : List UInt8) :
    Option (List UInt8) :=
  dump fl (assign [("success", .boolean success), ("exit_code", .integer exitCode),
    ("stdout", .string stdout), ("stderr", .string stderr)])

/-- `make_error_response`. -/
def makeErrorResponse (error reason : List UInt8) : Option (List UInt8) :=
  dump fl (assign [("error", .string error), ("reason", .string reason)])

/-- An element of the audit array: the value of the line or, if it has none, the line itself. -/
def auditElement (line : List UInt8) : Value F := (parse fl line).getD (.string line)

/-- `make_audit_array`. -/
def makeAuditArray (rawLines : List UInt8) : Option (List UInt8) :=
  dump fl (.array (((getlines rawLines).filter (· ≠ [])).map (auditElement fl)))

/-- `make_ping_response`. -/
def makePingResponse (version : List UInt8) (uptimeMs : ℤ) : Option (List UInt8) :=
  dump fl (assign [("status", .string (ascii "ok")), ("version", .string version),
    ("uptime_ms", .integer uptimeMs)])

/-- `CapabilityInfo`. -/
structure CapabilityInfo where
  available : Bool
  source : List UInt8

/-- `make_capability_response`. -/
def makeCapabilityResponse (caps : List (String × CapabilityInfo)) : Option (List UInt8) :=
  dump fl (assign [("capabilities", assign (caps.map fun c =>
      (c.1, assign [("available", .boolean c.2.available), ("source", .string c.2.source)]))),
    ("count", .unsigned caps.length)])

/-- `ProviderInfo`. -/
structure ProviderInfo where
  id : List UInt8
  name : List UInt8
  detected : Bool
  available : Bool
  version : List UInt8
  source : List UInt8

/-- A provider of the response. -/
def providerJson (p : ProviderInfo) : Value F :=
  assign [("id", .string p.id), ("name", .string p.name), ("detected", .boolean p.detected),
    ("available", .boolean p.available), ("version", .string p.version),
    ("source", .string p.source)]

/-- `make_providers_response`. -/
def makeProvidersResponse (providers : List ProviderInfo) : Option (List UInt8) :=
  dump fl (assign [("providers", .array (providers.map providerJson)),
    ("count", .unsigned providers.length)])

/-! ### When the builders answer -/

/-- Different names in well-formed UTF-8. -/
def Names (names : List String) : Prop :=
  (names.map ascii).Nodup ∧ ∀ n ∈ names, Valid (ascii n)

instance (names : List String) : Decidable (Names names) := inferInstanceAs (Decidable (_ ∧ _))

theorem clean_foldl_insert {l : List (String × Value F)} {ms : Members F}
    (hl : Names (l.map Prod.fst)) (hms : ∀ m ∈ l, ∀ m' ∈ ms, m'.1 ≠ ascii m.1) :
    Clean (.object (l.foldl (fun ms m => insert (ascii m.1) m.2 ms) ms)) ↔
      Clean (.object ms) ∧ ∀ m ∈ l, Clean m.2 := by
  induction l generalizing ms with
  | nil => simp
  | cons m l ih =>
    obtain ⟨hnodup, hvalid⟩ := hl
    rw [List.map_cons, List.map_cons, List.nodup_cons] at hnodup
    obtain ⟨hm, hnodup⟩ := hnodup
    obtain ⟨hvm, hvl⟩ := List.forall_mem_cons.1 hvalid
    obtain ⟨hms₀, hms⟩ := List.forall_mem_cons.1 hms
    have hms' : ∀ n ∈ l, ∀ m' ∈ insert (ascii m.1) m.2 ms, m'.1 ≠ ascii n.1 := by
      intro n hn m' hm'
      rcases mem_insert hm' with rfl | hm'
      · intro heq
        exact hm (List.mem_map.2 ⟨n.1, List.mem_map_of_mem hn, heq.symm⟩)
      · exact hms n hn m' hm'
    rw [List.foldl_cons, ih ⟨hnodup, hvl⟩ hms', clean_insert_iff hms₀, List.forall_mem_cons]
    tauto

/-- An object made by assignments to different names is clean when its values are. -/
theorem clean_assign_iff {l : List (String × Value F)} (hl : Names (l.map Prod.fst)) :
    Clean (assign l) ↔ ∀ m ∈ l, Clean m.2 := by
  rw [assign, clean_foldl_insert hl fun _ _ _ h => absurd h List.not_mem_nil]
  exact and_iff_right (clean_of_strings rfl)

@[simp] theorem clean_boolean (b : Bool) : Clean (.boolean b : Value F) := clean_of_strings rfl

@[simp] theorem clean_integer (i : ℤ) : Clean (.integer i : Value F) := clean_of_strings rfl

@[simp] theorem clean_unsigned (n : ℕ) : Clean (.unsigned n : Value F) := clean_of_strings rfl

@[simp] theorem clean_string_iff {s : List UInt8} : Clean (.string s : Value F) ↔ Valid s :=
  List.forall_mem_singleton

theorem clean_array_iff {vs : List (Value F)} : Clean (.array vs) ↔ ∀ v ∈ vs, Clean v := by
  induction vs with
  | nil => exact iff_of_true (clean_of_strings rfl) fun _ h => absurd h List.not_mem_nil
  | cons v vs ih =>
    rw [List.forall_mem_cons, ← ih, Clean, strings, stringsElements, List.forall_mem_append]
    rfl

theorem makeExecResponse_iff (success : Bool) (exitCode : ℤ) (stdout stderr : List UInt8) :
    Printed (makeExecResponse fl success exitCode stdout stderr) ↔
      Valid stdout ∧ Valid stderr := by
  have hnames : Names ["success", "exit_code", "stdout", "stderr"] := by decide
  rw [makeExecResponse, printed_dump_iff, clean_assign_iff (by exact hnames)]
  simp

theorem makeErrorResponse_iff (error reason : List UInt8) :
    Printed (makeErrorResponse fl error reason) ↔ Valid error ∧ Valid reason := by
  have hnames : Names ["error", "reason"] := by decide
  rw [makeErrorResponse, printed_dump_iff, clean_assign_iff (by exact hnames)]
  simp

theorem makePingResponse_iff (version : List UInt8) (uptimeMs : ℤ) :
    Printed (makePingResponse fl version uptimeMs) ↔ Valid version := by
  have hnames : Names ["status", "version", "uptime_ms"] := by decide
  have hok : Valid (ascii "ok") := by decide
  rw [makePingResponse, printed_dump_iff, clean_assign_iff (by exact hnames)]
  simp [hok]

theorem makeCapabilityResponse_iff {caps : List (String × CapabilityInfo)}
    (hcaps : Names (caps.map Prod.fst)) :
    Printed (makeCapabilityResponse fl caps) ↔ ∀ c ∈ caps, Valid c.2.source := by
  have hnames : Names ["capabilities", "count"] := by decide
  have hentry : Names ["available", "source"] := by decide
  rw [makeCapabilityResponse, printed_dump_iff, clean_assign_iff (by exact hnames)]
  simp only [List.forall_mem_cons, List.not_mem_nil, IsEmpty.forall_iff, implies_true, and_true,
    clean_unsigned]
  rw [clean_assign_iff (by rw [List.map_map]; exact hcaps), List.forall_mem_map]
  refine forall₂_congr fun c _ => ?_
  rw [clean_assign_iff (by exact hentry)]
  simp

theorem clean_providerJson (p : ProviderInfo) : Clean (providerJson p : Value F) ↔
    Valid p.id ∧ Valid p.name ∧ Valid p.version ∧ Valid p.source := by
  have hnames : Names ["id", "name", "detected", "available", "version", "source"] := by
    decide
  rw [providerJson, clean_assign_iff (by exact hnames)]
  simp

theorem makeProvidersResponse_iff (providers : List ProviderInfo) :
    Printed (makeProvidersResponse fl providers) ↔
      ∀ p ∈ providers, Valid p.id ∧ Valid p.name ∧ Valid p.version ∧ Valid p.source := by
  have hnames : Names ["providers", "count"] := by decide
  rw [makeProvidersResponse, printed_dump_iff, clean_assign_iff (by exact hnames)]
  simp [clean_array_iff, clean_providerJson]

/-- The audit array needs every line that is no JSON text to be well-formed UTF-8. -/
theorem makeAuditArray_iff (rawLines : List UInt8) :
    Printed (makeAuditArray fl rawLines) ↔
      ∀ line ∈ getlines rawLines, line ≠ [] → parse fl line = none → Valid line := by
  rw [makeAuditArray, printed_dump_iff, clean_array_iff, List.forall_mem_map]
  simp only [List.mem_filter, decide_not, Bool.not_eq_eq_eq_not, Bool.not_true,
    decide_eq_false_iff_not, and_imp]
  refine forall₃_congr fun line _ _ => ?_
  cases h : parse fl line with
  | none => simp [auditElement, h]
  | some v => simpa [auditElement, h] using clean_parse h

/-! ### Accepted requests -/

theorem clean_of_find {k : List UInt8} {v : Value F} {ms : Members F} (hms : Clean (.object ms))
    (h : find k ms = some v) : Clean v := by
  induction ms with
  | nil => cases h
  | cons m ms ih =>
    obtain ⟨k', v'⟩ := m
    obtain ⟨-, hv', hms'⟩ := clean_object_cons.1 hms
    rw [find, List.lookup_cons] at h
    split at h
    · cases h
      exact hv'
    · exact ih hms' h

theorem valid_valueString {k s : List UInt8} {ms : Members F} (hms : Clean (.object ms))
    (h : valueString k ms = some s) : Valid s := by
  unfold valueString at h
  split at h
  · cases h
    exact Utf8.Valid.nil
  · next hf =>
    cases h
    exact clean_string_iff.1 (clean_of_find hms hf)
  · cases h

end Codec

end AstraVeil.Daemon
