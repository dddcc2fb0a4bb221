import AstraVeil.Daemon.RequestHandler

/-!
# The gate before a command

An execute request passes the codec, the provider check and the Rust policy before its command is
run.  `Gate` is the condition under which it should be; the codec converts the risk level to 32
bits before it clamps it, so that a risk level outside 0..79 can be taken for one inside.

* `executeGate_iff`: when the handler follows the gate.
-/

namespace AstraVeil.Daemon

open Json
open Utf16 (ascii)

variable {F : Type}

/-! ### The gate -/

/-- The object has a non-empty text under the given name. -/
def HasText (ms : Members F) (key : String) (x : List UInt8) : Prop :=
  find (ascii key) ms = some (.string x) ∧ x ≠ []

/-- The risk level of a request: absent, or an integer; `none` where it is anything else. -/
def riskLevelOf (ms : Members F) : Option (Option ℤ) :=
  match find (ascii "riskLevel") ms with
  | none => some none
  | some (.unsigned n) => some (some n)
  | some (.integer i) => some (some i)
  | some _ => none

/-- The risk that counts: the given one if it lies in 0..100, else the maximum. -/
def effectiveRisk : Option ℤ → ℤ
  | none => 100
  | some r => if 0 ≤ r ∧ r ≤ 100 then r else 100

/-- All texts of an execute request are there. -/
def HasTexts (ms : Members F) : Prop :=
  ∀ key ∈ ["moduleId", "capability", "caller", "command"], ∃ x, HasText ms key x

/-- The condition under which a command should run. -/
def Gate (dev : Device) (s : State) (ms : Members F) (r : Option ℤ) : Prop :=
  HasTexts ms ∧ s.provider.available dev = some true ∧ dev.rustLinked = true ∧
    effectiveRisk r < 80 ∧ find (ascii "approved") ms = some (.boolean true)

/-- The command of the request has been handed to the executor. -/
def Ran (s s' : State) (ms : Members F) : Prop :=
  ∃ x, find (ascii "command") ms = some (.string x) ∧ s'.executed = s.executed ++ [x]

/-- The response to an execute request is an object with an error. -/
def CarriesError (fl : FloatText F) (response : Option (List UInt8)) : Prop :=
  ∃ ms e text, response = some (0x03 :: text) ∧ dump fl (.object ms) = some text ∧
    find (ascii "error") ms = some (.string e)

/-- The handler follows the gate: it runs the command exactly where it should, and elsewhere it
runs nothing and says why. -/
def FollowsGate (fl : FloatText F) (dev : Device) (s : State) (body : List UInt8)
    (ms : Members F) (r : Option ℤ) : Prop :=
  (Ran s (handler fl dev s (0x03 :: body)).2 ms ↔ Gate dev s ms r) ∧
    (¬ Gate dev s ms r → (handler fl dev s (0x03 :: body)).2.executed = s.executed ∧
      CarriesError fl (handler fl dev s (0x03 :: body)).1)

/-- The codec accepts the request: its texts are there, and the approval is no other value than a
boolean. -/
def Accepted (ms : Members F) : Prop :=
  HasTexts ms ∧
    (find (ascii "approved") ms = none ∨ ∃ b, find (ascii "approved") ms = some (.boolean b))

/-- No accepted request finds the marker of the provider unreadable or, where nothing else stops it,
has a risk level outside 0..79 whose low 32 bits lie inside. -/
def GateCondition (dev : Device) (s : State) (ms : Members F) (r : Option ℤ) : Prop :=
  Accepted ms → s.provider.available dev ≠ none ∧
    (s.provider.available dev = some true → dev.rustLinked = true →
      find (ascii "approved") ms = some (.boolean true) →
      ∀ z, r = some z → z % 2 ^ 32 < 80 → 0 ≤ z ∧ z < 80)

/-! ### What the codec reads -/

/-- The risk level after the conversion to 32 bits. -/
def storedRisk : Option ℤ → ℤ
  | none => 100
  | some z => toInt32 z

theorem valueInt_of_riskLevelOf (fl : FloatText F) {ms : Members F} {r : Option ℤ}
    (h : riskLevelOf ms = some r) :
    valueInt fl (ascii "riskLevel") 100 ms = some (storedRisk r) := by
  unfold riskLevelOf at h
  unfold valueInt
  split at h
  · next hf =>
    cases h
    rw [hf]
    rfl
  · next hf =>
    cases h
    rw [hf]
    rfl
  · next hf =>
    cases h
    rw [hf]
    rfl
  · cases h

theorem clampRisk_lt_iff (risk : ℤ) : clampRisk risk < 80 ↔ 0 ≤ risk ∧ risk < 80 := by
  unfold clampRisk
  split
  · omega
  split <;> omega

theorem toInt32_lt_iff (z : ℤ) : (0 ≤ toInt32 z ∧ toInt32 z < 80) ↔ z % 2 ^ 32 < 80 := by
  unfold toInt32 Int.bmod
  norm_num
  split <;> omega

theorem storedRisk_lt_iff (r : Option ℤ) :
    clampRisk (storedRisk r) < 80 ↔ ∃ z, r = some z ∧ z % 2 ^ 32 < 80 := by
  rw [clampRisk_lt_iff]
  cases r with
  | none => simp [storedRisk]
  | some z => simp [storedRisk, toInt32_lt_iff]

theorem effectiveRisk_lt_iff (r : Option ℤ) :
    effectiveRisk r < 80 ↔ ∃ z, r = some z ∧ 0 ≤ z ∧ z < 80 := by
  cases r with
  | none => simp [effectiveRisk]
  | some z =>
    simp only [effectiveRisk, Option.some.injEq, exists_eq_left']
    split <;> omega

theorem valueString_ne_nil {ms : Members F} {key : String} {x : List UInt8} :
    valueString (ascii key) ms = some x ∧ x ≠ [] ↔ HasText ms key x := by
  unfold valueString HasText
  split
  · next hf =>
    rw [hf]
    constructor
    · rintro ⟨h, hx⟩
      exact absurd (Option.some.inj h).symm hx
    · rintro ⟨h, -⟩
      cases h
  · next s hf =>
    rw [hf]
    simp
  · next v hv hf =>
    rw [hf]
    constructor
    · rintro ⟨h, -⟩
      cases h
    · rintro ⟨h, -⟩
      exact absurd (Option.some.inj h) (hv x)

section Request

variable {fl : FloatText F} {body : List UInt8} {ms : Members F} {r : Option ℤ}
  (hbody : parse fl body = some (.object ms)) (hr : riskLevelOf ms = some r)

include hbody hr

/-- The request that the codec makes of an object. -/
theorem parseExecuteRequest_eq_some_iff (req : ExecReq) :
    parseExecuteRequest fl body = some req ↔
      HasText ms "moduleId" req.moduleId ∧ HasText ms "capability" req.capability ∧
        HasText ms "caller" req.caller ∧ HasText ms "command" req.command ∧
        valueBool (ascii "approved") ms = some req.approved ∧
        req.riskLevel = clampRisk (storedRisk r) := by
  simp only [← valueString_ne_nil]
  unfold parseExecuteRequest
  rw [hbody]
  simp only [readExecReq, Option.bind_eq_bind, valueInt_of_riskLevelOf fl hr]
  constructor
  · intro h
    split at h
    · next out hout =>
      simp only [Option.bind_eq_some_iff] at hout
      obtain ⟨m, hm, c, hc, a, ha, x, hx, risk, hrisk, b, hb, hout⟩ := hout
      cases hrisk
      cases hout
      split at h
      · cases h
      · next hne =>
        cases h
        simp only [not_or] at hne
        exact ⟨⟨hm, hne.2.1⟩, ⟨hc, hne.2.2.1⟩, ⟨ha, hne.2.2.2⟩, ⟨hx, hne.1⟩, hb, rfl⟩
    · cases h
  · rintro ⟨⟨hm, hm'⟩, ⟨hc, hc'⟩, ⟨ha, ha'⟩, ⟨hx, hx'⟩, hb, hrisk⟩
    obtain ⟨m, c, risk, b, a, x⟩ := req
    dsimp only at hm hm' hc hc' ha ha' hx hx' hb hrisk
    subst hrisk
    simp only [hm, hc, ha, hx, hb, Option.bind_some]
    rw [if_neg (by simp only [hx', hm', hc', ha', or_self, not_false_eq_true])]

/-- The codec accepts exactly the requests with all texts whose approval is no other value than a
boolean. -/
theorem exists_parseExecuteRequest_iff :
    (∃ req, parseExecuteRequest fl body = some req) ↔ Accepted ms := by
  simp only [parseExecuteRequest_eq_some_iff hbody hr]
  constructor
  · rintro ⟨req, hm, hc, ha, hx, hb, -⟩
    refine ⟨?_, ?_⟩
    · simp only [HasTexts, List.forall_mem_cons, List.not_mem_nil, IsEmpty.forall_iff,
        implies_true, and_true]
      exact ⟨⟨_, hm⟩, ⟨_, hc⟩, ⟨_, ha⟩, ⟨_, hx⟩⟩
    · unfold valueBool at hb
      split at hb
      · next hf => exact Or.inl hf
      · next b hf => exact Or.inr ⟨b, hf⟩
      · cases hb
  · rintro ⟨htexts, happroved⟩
    simp only [HasTexts, List.forall_mem_cons, List.not_mem_nil, IsEmpty.forall_iff,
      implies_true, and_true] at htexts
    obtain ⟨⟨m, hm⟩, ⟨c, hc⟩, ⟨a, ha⟩, ⟨x, hx⟩⟩ := htexts
    obtain ⟨b, hb⟩ : ∃ b, valueBool (ascii "approved") ms = some b := by
      unfold valueBool
      rcases happroved with hf | ⟨b, hf⟩
      · exact ⟨false, by rw [hf]⟩
      · exact ⟨b, by rw [hf]⟩
    exact ⟨⟨m, c, _, b, a, x⟩, hm, hc, ha, hx, hb, rfl⟩

omit hr in
/-- The texts of the object are well-formed UTF-8. -/
theorem HasText.valid {key : String} {x : List UInt8} (h : HasText ms key x) : Utf8.Valid x :=
  clean_string_iff.1 (clean_of_find (clean_parse hbody) h.1)

end Request

theorem valueBool_eq_true_iff {ms : Members F} {key : List UInt8} :
    valueBool key ms = some true ↔ find key ms = some (.boolean true) := by
  unfold valueBool
  split
  · next hf => simp [hf]
  · next b hf => simp [hf]
  · next v hv hf =>
    rw [hf]
    constructor
    · intro h
      cases h
    · intro h
      exact absurd (Option.some.inj h) (hv true)

/-! ### What the handler answers -/

theorem carriesError (fl : FloatText F) {error reason : List UInt8} (he : Utf8.Valid error)
    (hreason : Utf8.Valid reason) :
    CarriesError fl ((makeErrorResponse fl error reason).map (0x03 :: ·)) := by
  obtain ⟨text, htext, -⟩ := (makeErrorResponse_iff fl error reason).2 ⟨he, hreason⟩
  have hne : ascii "error" ≠ ascii "reason" := by decide
  refine ⟨_, error, text, by rw [htext]; rfl, htext, ?_⟩
  rw [List.foldl_cons, List.foldl_cons, List.foldl_nil, find_insert_of_ne hne, find_insert_self]

/-- The policy bridge lets a request through only by the answer `Allow` of a linked library. -/
theorem checkWith_eq_allow_iff (dev : Device) (moduleId capability : List UInt8) (riskLevel : ℕ)
    (approved : Bool) : checkWith dev moduleId capability riskLevel approved = .allow ↔
      dev.rustLinked = true ∧ riskLevel < 80 ∧ approved = true := by
  unfold checkWith
  split
  · next hl =>
    have hcode : ∀ d : Rust.PolicyDecision, decodePolicy d.code = .allow ↔ d = .allow := by
      intro d
      cases d <;> decide
    rw [Rust.policyCheckWith, hcode, Rust.evaluate_eq_allow_iff]
    simp [hl]
  · next hl => simp [hl]

theorem handler_execute (fl : FloatText F) (dev : Device) (s : State) (body : List UInt8) :
    handler fl dev s (0x03 :: body) = ((handleExecute fl dev s body).1.map (0x03 :: ·),
      (handleExecute fl dev s body).2) := rfl

section Answers

variable {fl : FloatText F} {dev : Device} {s : State} {body : List UInt8}

/-- Nothing was run, and the response says why. -/
def Refused (fl : FloatText F) (s : State) (reply : Reply) : Prop :=
  reply.2.executed = s.executed ∧ CarriesError fl reply.1

theorem refused_badRequest (h : parseExecuteRequest fl body = none) :
    Refused fl s (handler fl dev s (0x03 :: body)) := by
  have heq : handleExecute fl dev s body = (makeErrorResponse fl (ascii "bad_request")
      (ascii "malformed or incomplete execute request " ++
        ascii "(need moduleId/capability/riskLevel/approved/caller/command)"), s) := by
    rw [handleExecute, h]
  rw [handler_execute, heq]
  exact ⟨rfl, carriesError fl (by decide) (by decide)⟩

variable {req : ExecReq} (hreq : parseExecuteRequest fl body = some req)

include hreq

theorem refused_noProvider (hp : s.provider.available dev = some false) :
    Refused fl s (handler fl dev s (0x03 :: body)) := by
  have heq : handleExecute fl dev s body = (makeErrorResponse fl (ascii "permission_denied")
      (ascii "no active root provider"), s) := by
    simp only [handleExecute, hreq, hp]
  rw [handler_execute, heq]
  exact ⟨rfl, carriesError fl (by decide) (by decide)⟩

theorem refused_policy (hm : Utf8.Valid req.moduleId) (hc : Utf8.Valid req.capability)
    (hp : s.provider.available dev = some true)
    (hpolicy : checkWith dev req.moduleId req.capability req.riskLevel req.approved ≠ .allow) :
    Refused fl s (handler fl dev s (0x03 :: body)) := by
  rw [handler_execute]
  simp only [handleExecute, hreq, hp]
  cases hcheck : checkWith dev req.moduleId req.capability req.riskLevel req.approved with
  | allow => exact absurd hcheck hpolicy
  | deny =>
    refine ⟨rfl, carriesError fl (by decide) ?_⟩
    exact ((((Utf8.Ascii.valid (by decide)).append hm).append
      (Utf8.Ascii.valid (by decide))).append hc).append (Utf8.Ascii.valid (by decide))
  | approval => exact ⟨rfl, carriesError fl (by decide) (by decide)⟩

theorem handler_unreadable (hp : s.provider.available dev = none) :
    handler fl dev s (0x03 :: body) = (none, s) := by
  rw [handler_execute]
  simp only [handleExecute, hreq, hp]
  rfl

theorem executed_of_allow (hp : s.provider.available dev = some true)
    (hpolicy : checkWith dev req.moduleId req.capability req.riskLevel req.approved = .allow) :
    (handler fl dev s (0x03 :: body)).2.executed = s.executed ++ [req.command] := by
  rw [handler_execute]
  simp only [handleExecute, hreq, hp, hpolicy]

end Answers

theorem not_ran_of_executed_eq {s s' : State} {ms : Members F} (h : s'.executed = s.executed) :
    ¬ Ran s s' ms := by
  rintro ⟨x, -, hx⟩
  rw [h] at hx
  simpa using congrArg List.length hx

/-- A refused request follows the gate exactly when the gate is closed. -/
theorem followsGate_of_refused {fl : FloatText F} {dev : Device} {s : State} {body : List UInt8}
    {ms : Members F} {r : Option ℤ} (h : Refused fl s (handler fl dev s (0x03 :: body))) :
    FollowsGate fl dev s body ms r ↔ ¬ Gate dev s ms r := by
  have hran : ¬ Ran s (handler fl dev s (0x03 :: body)).2 ms := not_ran_of_executed_eq h.1
  constructor
  · rintro ⟨hgate, -⟩ hg
    exact hran (hgate.2 hg)
  · intro hg
    exact ⟨iff_of_false hran hg, fun _ => h⟩

/-- With an active provider the policy decides, and it sees the low 32 bits of the risk level. -/
theorem followsGate_of_provider {fl : FloatText F} {dev : Device} {s : State} {body : List UInt8}
    {ms : Members F} {r : Option ℤ} (hbody : parse fl body = some (.object ms))
    (hr : riskLevelOf ms = some r) {req : ExecReq} (hreq : parseExecuteRequest fl body = some req)
    (hp : s.provider.available dev = some true) :
    FollowsGate fl dev s body ms r ↔
      (dev.rustLinked = true → find (ascii "approved") ms = some (.boolean true) →
        ∀ z, r = some z → z % 2 ^ 32 < 80 → 0 ≤ z ∧ z < 80) := by
  have hacc : Accepted ms := (exists_parseExecuteRequest_iff hbody hr).1 ⟨req, hreq⟩
  obtain ⟨hm, hc, -, hx, hb, hrisk⟩ := (parseExecuteRequest_eq_some_iff hbody hr req).1 hreq
  have happroved : req.approved = true ↔ find (ascii "approved") ms = some (.boolean true) := by
    rw [← valueBool_eq_true_iff, hb, Option.some.injEq]
  have hallow := checkWith_eq_allow_iff dev req.moduleId req.capability req.riskLevel req.approved
  rw [happroved, hrisk, storedRisk_lt_iff, ← hrisk] at hallow
  by_cases hpolicy : checkWith dev req.moduleId req.capability req.riskLevel req.approved = .allow
  · -- the command was run: was the gate open?
    obtain ⟨hlinked, ⟨z, rfl, hz⟩, hyes⟩ := hallow.1 hpolicy
    have hran : Ran s (handler fl dev s (0x03 :: body)).2 ms :=
      ⟨req.command, hx.1, executed_of_allow hreq hp hpolicy⟩
    have hgate : Gate dev s ms (some z) ↔ 0 ≤ z ∧ z < 80 := by
      rw [Gate, effectiveRisk_lt_iff]
      simp [hacc.1, hp, hlinked, hyes]
    constructor
    · rintro ⟨hfollows, -⟩ - - z' hz' -
      cases hz'
      exact hgate.1 (hfollows.1 hran)
    · intro h
      have hopen : Gate dev s ms (some z) := hgate.2 (h hlinked hyes z rfl hz)
      exact ⟨iff_of_true hran hopen, fun hclosed => absurd hopen hclosed⟩
  · rw [followsGate_of_refused (refused_policy hreq (HasText.valid hbody hm)
      (HasText.valid hbody hc) hp hpolicy)]
    refine iff_of_true ?_ fun hlinked hyes z hz hlow => ?_
    · rintro ⟨-, -, hlinked, hlow, hyes⟩
      obtain ⟨z, rfl, hz⟩ := (effectiveRisk_lt_iff r).1 hlow
      exact hpolicy (hallow.2 ⟨hlinked, ⟨z, rfl, by omega⟩, hyes⟩)
    · exact absurd (hallow.2 ⟨hlinked, ⟨z, hz, hlow⟩, hyes⟩) hpolicy

theorem not_gate_of_provider {dev : Device} {s : State} {ms : Members F} {r : Option ℤ}
    (hp : s.provider.available dev ≠ some true) : ¬ Gate dev s ms r :=
  fun h => hp h.2.1

/-- **The execute gate.**  On an object with an integer risk level or none, the handler runs the
command exactly where the gate is open, and reports an error elsewhere, if and only if
`GateCondition` holds. -/
theorem executeGate_iff (fl : FloatText F) (dev : Device) (s : State) (body : List UInt8)
    (ms : Members F) (r : Option ℤ) (hbody : parse fl body = some (.object ms))
    (hr : riskLevelOf ms = some r) :
    FollowsGate fl dev s body ms r ↔ GateCondition dev s ms r := by
  cases hreq : parseExecuteRequest fl body with
  | none =>
    have hacc : ¬ Accepted ms := by
      rw [← exists_parseExecuteRequest_iff hbody hr, hreq]
      rintro ⟨req, h⟩
      cases h
    rw [followsGate_of_refused (refused_badRequest hreq)]
    refine iff_of_true ?_ fun h => absurd h hacc
    rintro ⟨htexts, -, -, -, happroved⟩
    exact hacc ⟨htexts, Or.inr ⟨true, happroved⟩⟩
  | some req =>
    have hacc : Accepted ms := (exists_parseExecuteRequest_iff hbody hr).1 ⟨req, hreq⟩
    rw [GateCondition, imp_iff_right hacc]
    cases hp : s.provider.available dev with
    | none =>
      -- `std::filesystem::exists` throws: there is no response at all
      refine iff_of_false ?_ fun h => h.1 rfl
      rintro ⟨-, h⟩
      obtain ⟨ms', e, text, htext, -⟩ := (h (not_gate_of_provider (by simp [hp]))).2
      rw [handler_unreadable hreq hp] at htext
      cases htext
    | some available =>
      cases available with
      | false =>
        rw [followsGate_of_refused (refused_noProvider hreq hp)]
        exact iff_of_true (not_gate_of_provider (by simp [hp])) ⟨by simp, fun h => by cases h⟩
      | true =>
        rw [followsGate_of_provider hbody hr hreq hp]
        simp

/-! ### A request whose risk level does not fit -/

/-- A device with KernelSU, a linked policy and a shell. -/
def sampleDevice : Device where
  stat := fun _ => .found
  read := fun _ => none
  unshare := fun _ => true
  uid := 0
  runCmd := fun _ => (true, ascii "1.0.3\n")
  popen := fun _ => some (ascii "uid=0(root)\n", .exited 0)
  rootRuntimeReady := false
  rustLinked := true
  uptimeMs := 1000
  now := ⟨2026, 7, 26, 12, 0, 0⟩
  logWritable := true

/-- The state of the daemon after its start on that device. -/
def sampleState : State where
  provider := .kernelSU
  activeProvider := ascii "none"
  providerOnline := false
  matrix := fun _ => false
  modules := []
  database := fun _ => ∅
  auditFile := []
  executed := []

/-- An approved request with the given risk level. -/
def sampleRequest (risk : String) : List UInt8 :=
  ascii "\x7b\"moduleId\":\"com.test.mod\",\"capability\":\"shell\",\"riskLevel\":" ++ ascii risk ++
    ascii ",\"approved\":true,\"caller\":\"com.astraveil.app\",\"command\":\"id\"\x7d"

/-- Its members. -/
def sampleMembers (risk : Value Empty) : Members Empty :=
  [(ascii "approved", .boolean true), (ascii "caller", .string (ascii "com.astraveil.app")),
    (ascii "capability", .string (ascii "shell")), (ascii "command", .string (ascii "id")),
    (ascii "moduleId", .string (ascii "com.test.mod")), (ascii "riskLevel", risk)]

set_option maxRecDepth 10000 in
theorem parse_sampleRequest_79 :
    parse noFloats (sampleRequest "79") = some (.object (sampleMembers (.unsigned 79))) := by
  rfl

set_option maxRecDepth 10000 in
theorem parse_sampleRequest_wrapped : parse noFloats (sampleRequest "4294967296") =
    some (.object (sampleMembers (.unsigned 4294967296))) := by
  rfl

theorem executeGate_79 : GateCondition sampleDevice sampleState
      (sampleMembers (.unsigned 79)) (some 79) ∧
    FollowsGate noFloats sampleDevice sampleState (sampleRequest "79")
      (sampleMembers (.unsigned 79)) (some 79) := by
  have hcond : GateCondition sampleDevice sampleState (sampleMembers (.unsigned 79)) (some 79) := by
    refine fun _ => ⟨by decide, fun _ _ _ z hz _ => ?_⟩
    cases hz
    decide
  exact ⟨hcond, (executeGate_iff noFloats sampleDevice sampleState (sampleRequest "79")
    (sampleMembers (.unsigned 79)) (some 79) parse_sampleRequest_79 rfl).2 hcond⟩

/-- The risk level 2³² is taken for 0: the command runs, though the effective risk is 100. -/
theorem executeGate_wrapped :
    parse noFloats (sampleRequest "4294967296") =
        some (.object (sampleMembers (.unsigned 4294967296))) ∧
      riskLevelOf (sampleMembers (.unsigned 4294967296)) = some (some 4294967296) ∧
      effectiveRisk (some 4294967296) = 100 ∧
      (handler noFloats sampleDevice sampleState (0x03 :: sampleRequest "4294967296")).2.executed =
        [ascii "id"] ∧
      ¬ FollowsGate noFloats sampleDevice sampleState (sampleRequest "4294967296")
        (sampleMembers (.unsigned 4294967296)) (some 4294967296) := by
  have hexec : (handler noFloats sampleDevice sampleState
      (0x03 :: sampleRequest "4294967296")).2.executed = [ascii "id"] := by decide +kernel
  refine ⟨parse_sampleRequest_wrapped, rfl, by decide, hexec, ?_⟩
  rintro ⟨h, -⟩
  have hopen := h.1 ⟨ascii "id", rfl, hexec⟩
  exact absurd hopen.2.2.2.1 (by decide)

end AstraVeil.Daemon
