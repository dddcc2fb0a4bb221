import AstraVeil.Core.ConnectionLifecycle
import AstraVeil.Core.DaemonClient
import AstraVeil.Daemon.HandlerTotality

/-!
# What the router reports as executed

`ExecutionRouter.executeForModule` sends a request to the daemon and tells two of its error codes
apart.  Every other response counts as an execution, and so do the errors that the client itself
makes up for a request that was not sent or not answered.

* `served_allow`, `served_refused`, `served_none`: the answers of the daemon;
* `told_iff`: when the router learns of a refusal;
* `provenance_iff`: when it reports executions, and nothing else, as executed.
-/

namespace AstraVeil.App

open Json (FloatText)
open Utf16
open AstraVeil.Core AstraVeil.Daemon

/-! ### The protocol -/

/-- `DaemonProtocol.ExecuteRequest`. -/
structure ExecuteRequest where
  moduleId : JString
  capability : JString
  riskLevel : ℤ
  approved : Bool
  caller : JString
  command : JString

/-- `DaemonProtocol.DaemonResponse`. -/
structure DaemonResponse where
  success : Bool := false
  exitCode : ℤ := -1
  stdout : JString := []
  stderr : JString := []
  error : Option JString := none
  reason : Option JString := none

namespace DaemonResponse

/-- `denied`. -/
def denied (r : DaemonResponse) : Bool := r.error == some (ofString "policy_denied")

/-- `needsApproval`. -/
def needsApproval (r : DaemonResponse) : Bool := r.error == some (ofString "approval_required")

end DaemonResponse

/-- `DaemonProtocol.json`: how requests are written and responses are read, `none` being an
exception. -/
structure Codec where
  encode : ExecuteRequest → JString
  decode : JString → Option DaemonResponse

/-- `executeStructured`, over the client's `request`. -/
def executeStructured (codec : Codec) (request : JString → Option JString) (req : ExecuteRequest) :
    DaemonResponse :=
  match request (codec.encode req) with
  | none =>
      { error := some (ofString "unreachable")
        reason := some (ofString "daemon not connected") }
  | some raw =>
      (codec.decode raw).getD { error := some (ofString "bad_response"), reason := some raw }

/-! ### One call -/

/-- What becomes of a request that was written. -/
inductive Fate
  /-- The connection breaks before the daemon has read it. -/
  | lost
  /-- The daemon serves it, and no answer arrives. -/
  | silent
  /-- The daemon serves it, and the client reads another payload. -/
  | garbled (payload : List UInt8)
  /-- The daemon serves it, and its answer arrives. -/
  | answered
  deriving DecidableEq

/-- What the environment does in one call of the router. -/
structure Call where
  /-- `client.state.value`, as the router reads it. -/
  state : DaemonState
  /-- The client is still online when it comes to `request`. -/
  online : Bool
  /-- The frame could be written. -/
  written : Bool
  fate : Fate
  dev : Device
  daemon : State
  headerParts : ℕ → ℕ
  payloadParts : ℕ → ℕ

namespace Call

variable {F : Type} (fl : FloatText F) (c : Call) (body : JString)

/-- The daemon takes a frame of this size. -/
def Fits : Prop := (0x03 :: utf8 body).length ≤ AstraDaemonClient.daemonFrameSize

instance : Decidable (Fits body) := inferInstanceAs (Decidable (_ ≤ _))

/-- The daemon has read the request. -/
def Received : Prop := c.online = true ∧ c.written = true ∧ Fits body ∧ c.fate ≠ .lost

/-- The answer of the daemon, and its state afterwards. -/
def served : Daemon.Reply := handler fl c.dev c.daemon (0x03 :: utf8 body)

/-- What is there for the client to read; no header announces 2³² bytes or more. -/
def incoming : Option (List UInt8) :=
  Option.filter (·.length < 2 ^ 32)
    (match c.fate with
    | .lost => none
    | .silent => none
    | .garbled payload => some payload
    | .answered => if Fits body then (c.served fl body).1 else none)

/-- `request(TYPE_EXECUTE, body)` on a connection from which all earlier answers have been read. -/
def request : Option JString :=
  -- where nothing arrives the daemon's end is closed; a time-out has the same result
  (AstraDaemonClient.request decodeUtf8
    { online := c.online, sent := [], stream := [], closed := (c.incoming fl body).isNone }
    { type := 0x03, body := body, written := c.written
      response := (c.incoming fl body).getD [], close := false
      headerParts := c.headerParts, payloadParts := c.payloadParts }).1

end Call

namespace ExecutionRouter

/-- `Path`. -/
inductive Path
  | daemon
  | refusedNoDaemon
  | refusedPolicy
  | refusedNeedsApproval
  deriving DecidableEq

/-- `Result`. -/
structure Result where
  success : Bool
  stdout : JString
  stderr : JString
  exitCode : ℤ
  path : Path
  message : JString := []

/-- `executed`. -/
def Result.executed (r : Result) : Bool := r.path == .daemon

/-- The request that is sent for a module. -/
def moduleRequest (moduleId capability : JString) (riskLevel : ℤ) (approved : Bool)
    (command : JString) : ExecuteRequest :=
  ⟨moduleId, capability, riskLevel, approved, ofString "module:" ++ moduleId, command⟩

/-- `executeForModule`. -/
def executeForModule {F : Type} (fl : FloatText F) (codec : Codec) (c : Call)
    (moduleId capability : JString) (riskLevel : ℤ) (approved : Bool) (command : JString) :
    Result :=
  if c.state ≠ .online then
    { success := false, stdout := [], stderr := [], exitCode := -1, path := .refusedNoDaemon
      message := ofString "astrad offline — module execution requires the daemon " ++
        ofString "(unified execution, audit P1-11). Start astrad and retry." }
  else
    let resp := executeStructured codec (c.request fl)
      (moduleRequest moduleId capability riskLevel approved command)
    if resp.denied then
      { success := false, stdout := [], stderr := resp.reason.getD (ofString "policy denied")
        exitCode := -1, path := .refusedPolicy
        message := ofString "Rust policy denied this execution." }
    else if resp.needsApproval then
      { success := false, stdout := [], stderr := resp.reason.getD (ofString "approval required")
        exitCode := -1, path := .refusedNeedsApproval
        message := ofString "Execution requires user approval." }
    else
      -- `unreachable`, `bad_response` and the other codes of the daemon come here too
      { success := resp.success, stdout := resp.stdout, stderr := resp.stderr
        exitCode := resp.exitCode, path := .daemon }

end ExecutionRouter

/-! ### What the daemon answers -/

section Served

variable {F : Type} (fl : FloatText F) (dev : Device) (s : State) (body : List UInt8)

/-- The decision of the policy about a request, if the handler comes to it. -/
def policyDecision : Option PolicyResult :=
  match parseExecuteRequest fl body with
  | none => none
  | some req =>
      if s.provider.available dev = some true then
        some (checkWith dev req.moduleId req.capability req.riskLevel req.approved)
      else none

/-- The answer is an error with one of these codes. -/
def SaysError (codes : List String) (answer : Option (List UInt8)) : Prop :=
  ∃ code ∈ codes, ∃ reason text, makeErrorResponse fl (ascii code) reason = some text ∧
    answer = some (0x03 :: text)

/-- The answer is the result of an execution. -/
def SaysResult (answer : Option (List UInt8)) : Prop :=
  ∃ success exitCode stdout stderr text,
    makeExecResponse fl success exitCode stdout stderr = some text ∧ answer = some (0x03 :: text)

variable {fl dev s body}

theorem saysError_of_printed {codes : List String} {code : String} (hcode : code ∈ codes)
    {reason : List UInt8} (h : Json.Printed (makeErrorResponse fl (ascii code) reason)) :
    SaysError fl codes ((makeErrorResponse fl (ascii code) reason).map (0x03 :: ·)) := by
  obtain ⟨text, htext, -⟩ := h
  exact ⟨code, hcode, reason, text, htext, by rw [htext]; rfl⟩

/-- A request that the policy lets through reaches the executor. -/
theorem served_allow (h : policyDecision fl dev s body = some .allow) :
    (∃ cmd, (handler fl dev s (0x03 :: body)).2.executed = s.executed ++ [cmd]) ∧
      ∀ text, (handler fl dev s (0x03 :: body)).1 = some text →
        SaysResult fl (some text) := by
  unfold policyDecision at h
  cases hreq : parseExecuteRequest fl body with
  | none => simp [hreq] at h
  | some req =>
    simp only [hreq] at h
    split at h
    · next hp =>
      have hpolicy := Option.some.inj h
      refine ⟨⟨req.command, executed_of_allow hreq hp hpolicy⟩, fun text htext => ?_⟩
      rw [handler_execute] at htext
      simp only [handleExecute, hreq, hp, hpolicy] at htext
      obtain ⟨out, hout, rfl⟩ := Option.map_eq_some_iff.1 htext
      exact ⟨_, _, _, _, out, hout, rfl⟩
    · cases h

/-- The handler answers whenever the executor is not reached, unless the provider's path cannot be
examined. -/
theorem handleExecute_printed (hp : s.provider.available dev ≠ none)
    (h : policyDecision fl dev s body ≠ some .allow) :
    Json.Printed (handleExecute fl dev s body).1 := by
  refine (printed_execute_iff fl dev s body).2 fun req hreq => ⟨hp, fun htrue hpolicy => ?_⟩
  refine absurd ?_ h
  simp only [policyDecision, hreq, htrue, hpolicy, if_true]

/-- A request that the policy stops is answered with one of its codes. -/
theorem served_refused (h : policyDecision fl dev s body = some .deny ∨
      policyDecision fl dev s body = some .approval) :
    (handler fl dev s (0x03 :: body)).2 = s ∧
      SaysError fl ["policy_denied", "approval_required"]
        (handler fl dev s (0x03 :: body)).1 := by
  have hne : policyDecision fl dev s body ≠ some .allow := by
    rcases h with h | h <;> simp [h]
  rw [handler_execute]
  unfold policyDecision at h
  cases hreq : parseExecuteRequest fl body with
  | none => simp [hreq] at h
  | some req =>
    simp only [hreq] at h
    split at h
    · next hp =>
      have hprinted := handleExecute_printed (by simp [hp]) hne
      simp only [handleExecute, hreq, hp] at hprinted ⊢
      rcases h with h | h
      · simp only [Option.some.inj h] at hprinted ⊢
        exact ⟨trivial, saysError_of_printed (by simp) hprinted⟩
      · simp only [Option.some.inj h] at hprinted ⊢
        exact ⟨trivial, saysError_of_printed (by simp) hprinted⟩
    · simp at h

/-- A request that does not come to the policy is answered with another code, or not at all. -/
theorem served_none (h : policyDecision fl dev s body = none) :
    (handler fl dev s (0x03 :: body)).2 = s ∧ ((handler fl dev s (0x03 :: body)).1 = none ∨
      SaysError fl ["bad_request", "permission_denied"] (handler fl dev s (0x03 :: body)).1) := by
  have hne : policyDecision fl dev s body ≠ some .allow := by simp [h]
  rw [handler_execute]
  unfold policyDecision at h
  cases hreq : parseExecuteRequest fl body with
  | none =>
    have hprinted : Json.Printed (makeErrorResponse fl (ascii "bad_request")
        (ascii "malformed or incomplete execute request " ++
          ascii "(need moduleId/capability/riskLevel/approved/caller/command)")) :=
      printed_error fl (by decide) (by decide)
    simp only [handleExecute, hreq]
    exact ⟨trivial, .inr (saysError_of_printed (by simp) hprinted)⟩
  | some req =>
    simp only [hreq] at h
    cases hp : s.provider.available dev with
    | none =>
      simp only [handleExecute, hreq, hp]
      exact ⟨trivial, .inl rfl⟩
    | some available =>
      cases available with
      | false =>
        have hprinted := handleExecute_printed (by simp [hp]) hne
        simp only [handleExecute, hreq, hp] at hprinted ⊢
        exact ⟨trivial, .inr (saysError_of_printed (by simp) hprinted)⟩
      | true => simp [hp] at h

end Served

/-! ### What the client reads -/

namespace Call

variable {F : Type} (fl : FloatText F) (c : Call) (body : JString)

/-- The text of a payload, if the client takes a frame of this size. -/
def textOf (payload : List UInt8) : Option JString :=
  if payload = [] ∨ AstraDaemonClient.maxFrameSize < payload.length then none
  else some (decodeUtf8 (payload.drop 1))

theorem request_eq : c.request fl body =
    if c.online = true ∧ c.written = true then (c.incoming fl body).bind textOf else none := by
  unfold request AstraDaemonClient.request
  by_cases hon : c.online = true
  · rw [if_neg (not_not.2 hon)]
    by_cases hw : c.written = true
    · rw [if_neg (not_not.2 hw), if_pos ⟨hon, hw⟩]
      cases hin : c.incoming fl body with
      | none => simp [AstraDaemonClient.exchanged, AstraDaemonClient.readFrame_closed]
      | some payload =>
        have hsmall : payload.length < 2 ^ 32 := by
          simpa using (Option.filter_eq_some_iff.1 hin).2
        have hstream : ([] : List UInt8) ++ Framing.frame payload =
            Framing.frame payload ++ [] := by simp
        simp only [AstraDaemonClient.exchanged, Option.isNone_some, Option.getD_some,
          Bool.false_or, Bool.false_eq_true, if_false, hstream, Option.bind_some, textOf]
        by_cases hbad : payload = [] ∨ AstraDaemonClient.maxFrameSize < payload.length
        · rw [AstraDaemonClient.readFrame_refused _ _ _ hbad hsmall, if_pos hbad]
        · have hbad' := not_or.1 hbad
          rw [AstraDaemonClient.readFrame_frame _ _ _ (List.length_pos_iff.2 hbad'.1)
            (not_lt.1 hbad'.2), if_neg hbad]
          simp [hbad'.1]
    · rw [if_pos hw, if_neg fun h => hw h.2]
  · rw [if_pos hon, if_neg fun h => hon h.1]

theorem bind_incoming : (c.incoming fl body).bind textOf =
    match c.fate with
    | .lost => none
    | .silent => none
    | .garbled payload => textOf payload
    | .answered => if Fits body then (c.served fl body).1.bind textOf else none := by
  have hfilter : ∀ o : Option (List UInt8),
      (o.filter (·.length < 2 ^ 32)).bind textOf = o.bind textOf := by
    intro o
    cases o with
    | none => rfl
    | some payload =>
      by_cases hlen : payload.length < 2 ^ 32
      · rw [Option.filter_some, if_pos (by simpa using hlen)]
      · have hmax : AstraDaemonClient.maxFrameSize = 2 ^ 20 := rfl
        rw [Option.filter_some, if_neg (by simpa using hlen), Option.bind_some, textOf,
          if_pos (.inr (by omega))]
        rfl
  rw [incoming, hfilter]
  cases c.fate with
  | lost => rfl
  | silent => rfl
  | garbled payload => rfl
  | answered =>
    by_cases hfits : Fits body
    · simp only [if_pos hfits]
    · simp only [if_neg hfits, Option.bind_none]

end Call

/-! ### Refusals that the router learns of -/

/-- The codes of the errors that the handler answers an execute request with. -/
def errorCodes : List String :=
  ["bad_request", "permission_denied", "policy_denied", "approval_required"]

/-- What `kotlinx.serialization` does with the answers of the daemon: a member of the object is the
field of its name, and a field without a member has its default. -/
structure Codec.Reads {F : Type} (fl : FloatText F) (codec : Codec) : Prop where
  error : ∀ code ∈ errorCodes, ∀ reason text,
    makeErrorResponse fl (ascii code) reason = some text →
      ∃ r, codec.decode (decodeUtf8 text) = some r ∧ r.error = some (ofString code)
  result : ∀ success exitCode stdout stderr text,
    makeExecResponse fl success exitCode stdout stderr = some text →
      ∀ r, codec.decode (decodeUtf8 text) = some r → r.error = none

/-- The router takes the response for a refusal. -/
def DaemonResponse.refuses (r : DaemonResponse) : Bool := r.denied || r.needsApproval

theorem refuses_iff_of_error {r : DaemonResponse} {code : String}
    (h : r.error = some (ofString code)) :
    r.refuses = true ↔ code ∈ ["policy_denied", "approval_required"] := by
  simp [DaemonResponse.refuses, DaemonResponse.denied, DaemonResponse.needsApproval, h,
    ofString_injective.eq_iff]

theorem not_refuses_of_none {r : DaemonResponse} (h : r.error = none) : ¬ r.refuses = true := by
  simp [DaemonResponse.refuses, DaemonResponse.denied, DaemonResponse.needsApproval, h]

/-- The text is read as a refusal. -/
def Codec.Refusal (codec : Codec) (raw : Option JString) : Prop :=
  ∃ text r, raw = some text ∧ codec.decode text = some r ∧ r.refuses = true

/-- The errors that the client makes up are no refusals. -/
theorem executeStructured_refuses_iff (codec : Codec) (request : JString → Option JString)
    (req : ExecuteRequest) : (executeStructured codec request req).refuses = true ↔
      codec.Refusal (request (codec.encode req)) := by
  have hmade : ∀ {r : DaemonResponse} {code : String}, r.error = some (ofString code) →
      code ∉ ["policy_denied", "approval_required"] → ¬ r.refuses = true :=
    fun h hcode => (refuses_iff_of_error h).not.2 hcode
  unfold executeStructured Codec.Refusal
  cases request (codec.encode req) with
  | none =>
    refine iff_of_false (hmade (rfl : _ = some (ofString "unreachable")) (by decide)) ?_
    rintro ⟨text, r, h, -⟩
    cases h
  | some raw =>
    cases hr : codec.decode raw with
    | none =>
      have hno : ¬ ((none : Option DaemonResponse).getD
          { error := some (ofString "bad_response"), reason := some raw }).refuses = true :=
        hmade (rfl : _ = some (ofString "bad_response")) (by decide)
      refine iff_of_false (by simpa only [hr] using hno) ?_
      rintro ⟨text, r, h, hr', -⟩
      cases h
      rw [hr] at hr'
      cases hr'
    | some r => simp [hr]

section Answers

variable {F : Type} {fl : FloatText F} {codec : Codec} (hcodec : codec.Reads fl)
  {answer : Option (List UInt8)}

theorem textOf_cons (b : UInt8) (text : List UInt8) : Call.textOf (b :: text) =
    if (b :: text).length ≤ AstraDaemonClient.maxFrameSize then some (decodeUtf8 text)
    else none := by
  rw [Call.textOf]
  by_cases h : (b :: text).length ≤ AstraDaemonClient.maxFrameSize
  · rw [if_neg (not_or.2 ⟨List.cons_ne_nil _ _, not_lt.2 h⟩), if_pos h]
    rfl
  · rw [if_pos (.inr (not_le.1 h)), if_neg h]

include hcodec

/-- An error of the daemon is a refusal if it is one of the policy's and arrives. -/
theorem refusal_error_iff {codes : List String} (hcodes : ∀ code ∈ codes, code ∈ errorCodes)
    (h : SaysError fl codes answer) : ∃ code ∈ codes, ∃ payload, answer = some payload ∧
      (codec.Refusal (answer.bind Call.textOf) ↔
        code ∈ ["policy_denied", "approval_required"] ∧
          payload.length ≤ AstraDaemonClient.maxFrameSize) := by
  obtain ⟨code, hcode, reason, text, htext, rfl⟩ := h
  obtain ⟨r, hr, herror⟩ := hcodec.error code (hcodes code hcode) reason text htext
  refine ⟨code, hcode, 0x03 :: text, rfl, ?_⟩
  rw [Option.bind_some, textOf_cons, ← refuses_iff_of_error herror]
  split
  · next hlen =>
    rw [and_iff_left hlen]
    simp [Codec.Refusal, hr]
  · next hlen =>
    refine iff_of_false ?_ fun h => hlen h.2
    rintro ⟨text, r, h, -⟩
    cases h

theorem not_refusal_result (h : ∀ payload, answer = some payload → SaysResult fl (some payload)) :
    ¬ codec.Refusal (answer.bind Call.textOf) := by
  rintro ⟨raw, r, hraw, hr, hrefuses⟩
  obtain ⟨payload, hanswer, hraw⟩ := Option.bind_eq_some_iff.1 hraw
  obtain ⟨success, exitCode, stdout, stderr, text, htext, heq⟩ := h payload hanswer
  rw [Option.some.inj heq, textOf_cons] at hraw
  split at hraw
  · obtain rfl := Option.some.inj hraw
    exact not_refuses_of_none (hcodec.result _ _ _ _ text htext r hr) hrefuses
  · cases hraw

/-- No answer is both. -/
theorem not_saysError_of_saysResult (h : SaysResult fl answer) :
    ¬ SaysError fl errorCodes answer := by
  rintro ⟨code, hcode, reason, text, htext, rfl⟩
  obtain ⟨success, exitCode, stdout, stderr, text', htext', heq⟩ := h
  obtain rfl := (List.cons.inj (Option.some.inj heq)).2
  obtain ⟨r, hr, herror⟩ := hcodec.error code hcode reason text htext
  rw [hcodec.result _ _ _ _ text htext' r hr] at herror
  cases herror

end Answers

namespace Call

variable {F : Type} (fl : FloatText F) (codec : Codec) (c : Call) (body : JString)

/-- What the policy of the daemon says about the request. -/
def decision : Option PolicyResult := policyDecision fl c.dev c.daemon (utf8 body)

/-- The policy refuses the request, in an answer that fits a frame. -/
def PolicyAnswers : Prop :=
  (c.decision fl body = some .deny ∨ c.decision fl body = some .approval) ∧
    ∀ payload, (c.served fl body).1 = some payload →
      payload.length ≤ AstraDaemonClient.maxFrameSize

/-- The router learns of a refusal. -/
def Told : Prop :=
  c.online = true ∧ c.written = true ∧
    match c.fate with
    | .lost => False
    | .silent => False
    | .garbled payload => codec.Refusal (textOf payload)
    | .answered => Fits body ∧ c.PolicyAnswers fl body

variable {codec}

theorem refusal_served_iff (hcodec : codec.Reads fl) :
    codec.Refusal ((c.served fl body).1.bind textOf) ↔ c.PolicyAnswers fl body := by
  unfold PolicyAnswers
  by_cases hpolicy : c.decision fl body = some .deny ∨ c.decision fl body = some .approval
  · obtain ⟨code, hcode, payload, hpayload, hiff⟩ :=
      refusal_error_iff hcodec (by decide) (served_refused hpolicy).2
    rw [served, hiff, and_iff_right hcode, and_iff_right hpolicy, hpayload]
    simp
  · refine iff_of_false ?_ fun h => hpolicy h.1
    cases hdec : c.decision fl body with
    | none =>
      rcases (served_none hdec).2 with hnone | herror
      · rw [served, hnone]
        rintro ⟨text, r, h, -⟩
        cases h
      · have hother : ∀ code ∈ ["bad_request", "permission_denied"],
            code ∉ ["policy_denied", "approval_required"] := by decide
        obtain ⟨code, hcode, payload, -, hiff⟩ := refusal_error_iff hcodec (by decide) herror
        rw [served, hiff]
        exact fun h => hother code hcode h.1
    | some d =>
      cases d with
      | allow => exact not_refusal_result hcodec (served_allow hdec).2
      | deny => exact absurd (.inl hdec) hpolicy
      | approval => exact absurd (.inr hdec) hpolicy

theorem told_iff (hcodec : codec.Reads fl) :
    codec.Refusal (c.request fl body) ↔ c.Told fl codec body := by
  have hnone : ¬ codec.Refusal none := by
    rintro ⟨text, r, h, -⟩
    cases h
  rw [request_eq, Told]
  by_cases hsent : c.online = true ∧ c.written = true
  · rw [if_pos hsent, bind_incoming, ← and_assoc, and_iff_right hsent]
    cases c.fate with
    | lost => exact iff_of_false hnone id
    | silent => exact iff_of_false hnone id
    | garbled payload => exact Iff.rfl
    | answered =>
      dsimp only
      by_cases hfits : Fits body
      · rw [if_pos hfits, refusal_served_iff fl c body hcodec, and_iff_right hfits]
      · rw [if_neg hfits]
        exact iff_of_false hnone fun h => hfits h.1
  · rw [if_neg hsent]
    exact iff_of_false hnone fun h => hsent ⟨h.1, h.2.1⟩

/-- The daemon has handed the command of the request to the executor. -/
def Reached : Prop :=
  c.state = .online ∧ c.Received body ∧
    ∃ cmd, (c.served fl body).2.executed = c.daemon.executed ++ [cmd]

theorem reached_iff : c.Reached fl body ↔
    c.state = .online ∧ c.Received body ∧ c.decision fl body = some .allow := by
  have hsame : (c.served fl body).2 = c.daemon →
      ¬ ∃ cmd, (c.served fl body).2.executed = c.daemon.executed ++ [cmd] := by
    rintro hs ⟨cmd, h⟩
    rw [hs] at h
    simpa using congrArg List.length h
  refine and_congr_right fun _ => and_congr_right fun _ => ?_
  cases hdec : c.decision fl body with
  | none => exact iff_of_false (hsame (served_none hdec).1) (by simp)
  | some d =>
    cases d with
    | allow => exact iff_of_true (served_allow hdec).1 rfl
    | deny => exact iff_of_false (hsame (served_refused (.inl hdec)).1) (by simp)
    | approval => exact iff_of_false (hsame (served_refused (.inr hdec)).1) (by simp)

/-- An execution is reported only where the daemon has reached the executor, and wherever the daemon
answers with the result of one; a request that the daemon has not received or answers with an error
is not reported as executed. -/
structure Provenance (r : ExecutionRouter.Result) : Prop where
  only : r.executed = true → c.Reached fl body
  always : c.state = .online → c.Received body → c.fate = .answered →
    SaysResult fl (c.served fl body).1 → r.executed = true
  refused : ¬ c.Received body ∨ SaysError fl errorCodes (c.served fl body).1 → r.executed = false

/-- A router that finds the daemon online gets its request past the policy, or is told of the
refusal. -/
def Settled (codec : Codec) : Prop :=
  c.state = .online → (c.Received body ∧ c.decision fl body = some .allow) ∨ c.Told fl codec body

end Call

namespace ExecutionRouter

section Router

variable {F : Type} (fl : FloatText F) {codec : Codec} (c : Call) (moduleId capability : JString)
  (riskLevel : ℤ) (approved : Bool) (command : JString) (hcodec : codec.Reads fl)
include hcodec

theorem executed_iff :
    (executeForModule fl codec c moduleId capability riskLevel approved command).executed = true ↔
      c.state = .online ∧ ¬ c.Told fl codec
        (codec.encode (moduleRequest moduleId capability riskLevel approved command)) := by
  rw [← Call.told_iff fl c _ hcodec, ← executeStructured_refuses_iff, DaemonResponse.refuses,
    executeForModule]
  by_cases hstate : c.state = .online
  · rw [if_neg (not_not.2 hstate), and_iff_right hstate]
    dsimp only
    split
    · next hdenied => simp [Result.executed, hdenied]
    · next hdenied =>
      split
      · next hneeds => simp [Result.executed, hneeds]
      · next hneeds => simp [Result.executed, hdenied, hneeds]
  · rw [if_pos hstate]
    simp [Result.executed, hstate]

/-- When a report of an execution can be believed. -/
theorem reached_of_executed_iff :
    ((executeForModule fl codec c moduleId capability riskLevel approved command).executed = true →
      c.Reached fl (codec.encode (moduleRequest moduleId capability riskLevel approved command))) ↔
      c.Settled fl (codec.encode (moduleRequest moduleId capability riskLevel approved command))
        codec := by
  rw [executed_iff fl c moduleId capability riskLevel approved command hcodec, Call.reached_iff,
    Call.Settled]
  tauto

/-- The result of an execution is no refusal, whether it arrives or not. -/
theorem not_told_of_result {body : JString} (hreceived : c.Received body)
    (hanswered : c.fate = .answered) (hresult : SaysResult fl (c.served fl body).1) :
    ¬ c.Told fl codec body := by
  obtain ⟨honline, hwritten, hfits, -⟩ := hreceived
  rw [← Call.told_iff fl c _ hcodec, Call.request_eq, if_pos ⟨honline, hwritten⟩,
    Call.bind_incoming, hanswered]
  dsimp only
  rw [if_pos hfits]
  exact not_refusal_result hcodec fun payload hpayload => hpayload ▸ hresult

/-- **The router reports executions rightly exactly when its request passes the policy or it is told
of the refusal.** -/
theorem provenance_iff :
    c.Provenance fl (codec.encode (moduleRequest moduleId capability riskLevel approved command))
        (executeForModule fl codec c moduleId capability riskLevel approved command) ↔
      c.Settled fl (codec.encode (moduleRequest moduleId capability riskLevel approved command))
        codec := by
  rw [← reached_of_executed_iff fl c moduleId capability riskLevel approved command hcodec]
  refine ⟨fun h => h.only, fun h => ⟨h, fun hstate hreceived hanswered hresult => ?_, ?_⟩⟩
  · exact (executed_iff fl c moduleId capability riskLevel approved command hcodec).2
      ⟨hstate, not_told_of_result fl c hcodec hreceived hanswered hresult⟩
  · intro hrefused
    by_contra hex
    obtain ⟨-, hreceived, hallow⟩ := (Call.reached_iff fl c _).1 (h (by simpa using hex))
    rcases hrefused with hlost | herror
    · exact hlost hreceived
    · obtain ⟨code, hcode, reason, text, htext, hanswer⟩ := herror
      have hresult := (served_allow hallow).2 _ hanswer
      exact not_saysError_of_saysResult hcodec hresult ⟨code, hcode, reason, text, htext, rfl⟩

end Router

end ExecutionRouter

/-! ### A call -/

/-- How an error of the daemon begins. -/
def errorHead (code : String) : JString :=
  ofString "\x7b\"error\":\"" ++ (ofString code ++ ofString "\"")

/-- The answer to the command `id`. -/
def idResult : JString :=
  ofString "\x7b\"exit_code\":0,\"stderr\":\"\",\"stdout\":\"uid=0(root)\\n\",\"success\":true\x7d"

/-- A codec for requests that need no escapes, which knows the errors of the daemon by their codes
and the answer to `id`. -/
def sampleCodec : Codec where
  encode := fun req =>
    ofString "\x7b\"moduleId\":\"" ++ req.moduleId ++ ofString "\",\"capability\":\"" ++
      req.capability ++ ofString "\",\"riskLevel\":" ++ ofString (toString req.riskLevel) ++
      ofString ",\"approved\":" ++ ofString (toString req.approved) ++
      ofString ",\"caller\":\"" ++ req.caller ++ ofString "\",\"command\":\"" ++ req.command ++
      ofString "\"\x7d"
  decode := fun raw =>
    match errorCodes.find? fun code => (errorHead code).isPrefixOf raw with
    | some code => some { error := some (ofString code) }
    | none =>
        if raw = idResult then
          some { success := true, exitCode := 0, stdout := ofString "uid=0(root)\n" }
        else some {}

theorem makeErrorResponse_head {F : Type} {fl : FloatText F} {code reason text : List UInt8}
    (h : makeErrorResponse fl code reason = some text) :
    ∃ value rest, Json.dumpString code = some value ∧
      text = ascii "\x7b\"error\":" ++ (value ++ rest) := by
  have hlt : ¬ ascii "reason" < ascii "error" := by decide
  have hne : ascii "reason" ≠ ascii "error" := by decide
  have hname : Json.dumpString (ascii "error") = some (ascii "\"error\"") := by decide
  simp only [makeErrorResponse, assign, List.foldl_cons, List.foldl_nil, Json.insert, if_neg hlt,
    if_neg hne] at h
  obtain ⟨name, value, rest, hn, hvalue, rfl⟩ := Json.dump_object_cons h
  cases hname.symm.trans hn
  exact ⟨value, rest, hvalue, rfl⟩

theorem makeExecResponse_head {F : Type} {fl : FloatText F} {success : Bool} {exitCode : ℤ}
    {stdout stderr text : List UInt8}
    (h : makeExecResponse fl success exitCode stdout stderr = some text) :
    ∃ rest, text = ascii "\x7b\"exit_code\":" ++ rest := by
  have hname : Json.dumpString (ascii "exit_code") = some (ascii "\"exit_code\"") := by decide
  have hcode : ascii "exit_code" < ascii "success" := by decide
  have hout : ¬ ascii "stdout" < ascii "exit_code" ∧ ascii "stdout" ≠ ascii "exit_code" ∧
      ascii "stdout" < ascii "success" := by decide
  have herr : ¬ ascii "stderr" < ascii "exit_code" ∧ ascii "stderr" ≠ ascii "exit_code" ∧
      ascii "stderr" < ascii "stdout" := by decide
  simp only [makeExecResponse, assign, List.foldl_cons, List.foldl_nil, Json.insert, if_pos hcode,
    if_neg hout.1, if_neg hout.2.1, if_pos hout.2.2, if_neg herr.1, if_neg herr.2.1,
    if_pos herr.2.2] at h
  obtain ⟨name, value, rest, hn, -, rfl⟩ := Json.dump_object_cons h
  cases hname.symm.trans hn
  exact ⟨value ++ rest, rfl⟩

theorem sampleCodec_decode {code : String} (hcode : code ∈ errorCodes) (rest : JString) :
    sampleCodec.decode (errorHead code ++ rest) = some { error := some (ofString code) } := by
  have hfree : ∀ code ∈ errorCodes, ∀ code' ∈ errorCodes,
      errorHead code <+: errorHead code' ∨ errorHead code' <+: errorHead code → code = code' := by
    decide
  have hfind : errorCodes.find? (fun code' =>
      (errorHead code').isPrefixOf (errorHead code ++ rest)) = some code := by
    cases h : errorCodes.find? fun code' =>
        (errorHead code').isPrefixOf (errorHead code ++ rest) with
    | none =>
      have hno := List.find?_eq_none.1 h code hcode
      simp at hno
    | some code' =>
      have hhead := List.find?_some h
      rw [List.isPrefixOf_iff_prefix] at hhead
      rw [hfree code' (List.mem_of_find?_eq_some h) code hcode
        (List.prefix_or_prefix_of_prefix hhead (List.prefix_append _ _))]
  simp only [sampleCodec, hfind]

theorem sampleCodec_reads {F : Type} (fl : FloatText F) : sampleCodec.Reads fl where
  error := by
    have hquoted : ∀ code ∈ errorCodes, Json.dumpString (ascii code) =
        some (ascii "\"" ++ (ascii code ++ ascii "\"")) := by decide
    have hascii : ∀ code ∈ errorCodes,
        ∀ b ∈ ascii "\x7b\"error\":\"" ++ (ascii code ++ ascii "\""), b.toNat < 128 := by
      decide +kernel
    have hhead : ∀ code ∈ errorCodes,
        (ascii "\x7b\"error\":\"" ++ (ascii code ++ ascii "\"")).map UInt8.toUInt16 =
          errorHead code := by decide
    intro code hcode reason text htext
    obtain ⟨value, rest, hvalue, rfl⟩ := makeErrorResponse_head htext
    cases (hquoted code hcode).symm.trans hvalue
    refine ⟨{ error := some (ofString code) }, ?_, rfl⟩
    have hraw : decodeUtf8 (ascii "\x7b\"error\":" ++
        (ascii "\"" ++ (ascii code ++ ascii "\"") ++ rest)) =
        errorHead code ++ decodeUtf8 rest := by
      rw [← hhead code hcode, ← decodeUtf8_ascii_append (hascii code hcode)]
      simp only [List.append_assoc]
      rfl
    rw [hraw, sampleCodec_decode hcode]
  result := by
    have hfree : ∀ code ∈ errorCodes,
        ¬ (errorHead code <+: ofString "\x7b\"exit_code\":" ∨
          ofString "\x7b\"exit_code\":" <+: errorHead code) := by decide
    have hascii : ∀ b ∈ ascii "\x7b\"exit_code\":", b.toNat < 128 := by decide +kernel
    have hhead : (ascii "\x7b\"exit_code\":").map UInt8.toUInt16 =
        ofString "\x7b\"exit_code\":" := by decide
    intro success exitCode stdout stderr text htext r hr
    obtain ⟨rest, rfl⟩ := makeExecResponse_head htext
    rw [decodeUtf8_ascii_append hascii, hhead] at hr
    have hfind : errorCodes.find? (fun code => (errorHead code).isPrefixOf
        (ofString "\x7b\"exit_code\":" ++ decodeUtf8 rest)) = none := by
      refine List.find?_eq_none.2 fun code hcode h => hfree code hcode ?_
      exact List.prefix_or_prefix_of_prefix (List.isPrefixOf_iff_prefix.1 h)
        (List.prefix_append _ _)
    simp only [sampleCodec, hfind] at hr
    split at hr <;> cases hr <;> rfl

namespace ExecutionRouter

/-- A module asks to run `id`, with approval. -/
def sampleRequest : ExecuteRequest :=
  moduleRequest (ofString "com.test.mod") (ofString "shell") 10 true (ofString "id")

/-- The result of that request in a call. -/
def sampleResult (c : Call) : Result :=
  executeForModule Json.noFloats sampleCodec c (ofString "com.test.mod") (ofString "shell") 10 true
    (ofString "id")

/-- A call on a device with a root provider, which the daemon answers. -/
def sampleCall : Call where
  state := .online
  online := true
  written := true
  fate := .answered
  dev := sampleDevice
  daemon := sampleState
  headerParts := fun _ => 4
  payloadParts := fun _ => 4096

theorem settled_sampleCall :
    sampleCall.Settled Json.noFloats (sampleCodec.encode sampleRequest) sampleCodec := by
  have hfits : Call.Fits (sampleCodec.encode sampleRequest) := by decide +kernel
  have hdecision : sampleCall.decision Json.noFloats (sampleCodec.encode sampleRequest) =
      some .allow := by decide +kernel
  exact fun _ => .inl ⟨⟨rfl, rfl, hfits, by decide⟩, hdecision⟩

theorem provenance_sampleCall :
    sampleCall.Settled Json.noFloats (sampleCodec.encode sampleRequest) sampleCodec ∧
      sampleCall.Provenance Json.noFloats (sampleCodec.encode sampleRequest)
        (sampleResult sampleCall) :=
  ⟨settled_sampleCall, (provenance_iff Json.noFloats sampleCall (ofString "com.test.mod")
    (ofString "shell") 10 true (ofString "id") (sampleCodec_reads Json.noFloats)).2
    settled_sampleCall⟩

/-- The same call, but the request cannot be written. -/
def unsentCall : Call := { sampleCall with written := false }

/-- The same call, but there is no root provider. -/
def rootlessCall : Call := { sampleCall with daemon := { sampleState with provider := .noRoot } }

/-- A request that was not sent and one that was denied are both reported as executed. -/
theorem not_provenance_unsentCall_rootlessCall :
    (¬ unsentCall.Provenance Json.noFloats (sampleCodec.encode sampleRequest)
        (sampleResult unsentCall)) ∧
      ¬ rootlessCall.Provenance Json.noFloats (sampleCodec.encode sampleRequest)
        (sampleResult rootlessCall) := by
  have hsettled : ∀ c : Call, c.Provenance Json.noFloats (sampleCodec.encode sampleRequest)
      (sampleResult c) → c.Settled Json.noFloats (sampleCodec.encode sampleRequest) sampleCodec :=
    fun c h => (reached_of_executed_iff Json.noFloats c (ofString "com.test.mod")
      (ofString "shell") 10 true (ofString "id") (sampleCodec_reads Json.noFloats)).1 h.only
  constructor
  · intro h
    rcases hsettled unsentCall h rfl with ⟨⟨-, hwritten, -⟩, -⟩ | ⟨-, hwritten, -⟩
    · cases hwritten
    · cases hwritten
  · intro h
    have hdecision : rootlessCall.decision Json.noFloats (sampleCodec.encode sampleRequest) =
        none := by decide +kernel
    rcases hsettled rootlessCall h rfl with ⟨-, hallow⟩ | ⟨-, -, -, hpolicy, -⟩
    · rw [hdecision] at hallow
      cases hallow
    · rw [hdecision] at hpolicy
      rcases hpolicy with h | h <;> cases h

end ExecutionRouter

end AstraVeil.App
