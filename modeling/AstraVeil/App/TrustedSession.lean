import AstraVeil.Lib.Runs
import AstraVeil.Modules.Install

/-!
# Interactive privileged sessions

`app/execution/TrustedInteractiveSession.kt`: the approval of a session, the commands it hands to
the root provider and the records it writes.  The fields are volatile and nothing locks them, so a
call is a sequence of accesses and calls of other objects, and threads interleave between any two.
The history of a session has what its threads did, in order: the approval written, the session
closed, a command handed to the provider, a record written, or a command whose record is lost
because the provider or the logger threw.

* `advance`: one access of one thread;
* `session_accounts`: every command handed over is recorded once, lost, or still under way, and
  none is handed over before an approval;
* `session_closed`: once a session is closed, a thread hands over at most the one command that it
  had already been allowed to.
-/

namespace AstraVeil.App

open Utf16 KotlinString Runs Modules

/-- `ProviderExecResult`. -/
structure ProviderExecResult where
  exitCode : Int32
  stdout : JString
  stderr : JString
  success : Bool
  timedOut : Bool
  deriving DecidableEq

/-- `CommandAuditEntry`: a command as the audit file keeps it. -/
structure CommandAuditEntry where
  timestamp : Int64
  sessionId : JString
  source : JString
  backend : JString
  command : JString
  exitCode : Int32
  success : Bool
  timedOut : Bool
  outputPreview : JString
  deriving DecidableEq

/-- `SessionEvent`: the approval or the end of a session. -/
structure SessionEvent where
  timestamp : Int64
  sessionId : JString
  source : JString
  event : JString
  deriving DecidableEq

/-- What is written to the audit file. -/
inductive AuditRecord
  | command (entry : CommandAuditEntry)
  | session (event : SessionEvent)
  deriving DecidableEq

namespace TrustedInteractiveSession

/-- What a session is opened with. -/
structure Opened where
  sessionId : JString
  source : JString
  backend : JString

/-- The entry for a command that came back. -/
def commandEntry (o : Opened) (command : JString) (result : ProviderExecResult) (now : Int64) :
    CommandAuditEntry where
  timestamp := now
  sessionId := o.sessionId
  source := o.source
  backend := o.backend
  command := command
  exitCode := if result.success then 0 else 1
  success := result.success
  timedOut := result.timedOut
  outputPreview := (if isBlank result.stdout then result.stderr else result.stdout).take 500

def sessionEvent (o : Opened) (event : String) (now : Int64) : SessionEvent :=
  ⟨now, o.sessionId, o.source, ofString event⟩

/-- Where a thread stands in a call. -/
inductive Pc
  | idle
  /-- `approve`: `closed` was false. -/
  | approveOpen
  /-- `approve`: `approved` was false. -/
  | approveUnset
  /-- `approve`: `approved` is written. -/
  | approveLogging
  /-- `execute`: `approved` was true. -/
  | executeApproved (command : JString)
  /-- `execute`: `isApproved()` was true. -/
  | executeAllowed (command : JString)
  /-- `execute`: in `provider.execute`. -/
  | executeRunning (command : JString)
  /-- `execute`: the provider came back. -/
  | executeLogging (command : JString) (result : ProviderExecResult)
  /-- `close`: `closed` was false. -/
  | closeOpen
  /-- `close`: `closed` is written. -/
  | closeSet
  /-- `close`: `approved` is written. -/
  | closeLogging
  deriving DecidableEq

/-- What a thread does next. -/
inductive Move
  | approve
  | execute (command : JString)
  | close
  /-- The next access to a field, or the call of the provider. -/
  | next
  /-- The provider comes back. -/
  | returned (result : ProviderExecResult)
  /-- The logger has written the record. -/
  | logged (now : Int64)
  /-- The provider or the logger throws. -/
  | thrown

/-- What the history keeps. -/
inductive Event
  | approvedSet
  | closedSet
  | started (command : JString)
  | lost (command : JString)
  | recorded (record : AuditRecord)
  deriving DecidableEq

/-- The fields of the session. -/
structure Fields where
  approved : Bool
  closed : Bool
  deriving DecidableEq

/-- One move of a thread: where it stands then, the fields, and what goes into the history. -/
def advance (o : Opened) (f : Fields) : Pc → Move → Pc × Fields × List Event
  | .idle, .approve => (if f.closed then .idle else .approveOpen, f, [])
  | .approveOpen, .next => (if f.approved then .idle else .approveUnset, f, [])
  | .approveUnset, .next => (.approveLogging, { f with approved := true }, [.approvedSet])
  | .approveLogging, .logged now =>
      (.idle, f, [.recorded (.session (sessionEvent o "APPROVED" now))])
  | .approveLogging, .thrown => (.idle, f, [])
  | .idle, .execute command => (if f.approved then .executeApproved command else .idle, f, [])
  | .executeApproved command, .next =>
      (if f.closed then .idle else .executeAllowed command, f, [])
  | .executeAllowed command, .next => (.executeRunning command, f, [.started command])
  | .executeRunning command, .returned result => (.executeLogging command result, f, [])
  | .executeRunning command, .thrown => (.idle, f, [.lost command])
  | .executeLogging command result, .logged now =>
      (.idle, f, [.recorded (.command (commandEntry o command result now))])
  | .executeLogging command _, .thrown => (.idle, f, [.lost command])
  | .idle, .close => (if f.closed then .idle else .closeOpen, f, [])
  | .closeOpen, .next => (.closeSet, { f with closed := true }, [.closedSet])
  | .closeSet, .next => (.closeLogging, { f with approved := false }, [])
  | .closeLogging, .logged now =>
      (.idle, f, [.recorded (.session (sessionEvent o "CLOSED" now))])
  | .closeLogging, .thrown => (.idle, f, [])
  | pc, _ => (pc, f, [])

/-- A session with its threads. -/
structure Session where
  fields : Fields
  pc : ℕ → Pc
  history : List (ℕ × Event)

/-- A new session. -/
def initial : Session := ⟨⟨false, false⟩, fun _ => .idle, []⟩

/-- A thread moves. -/
def step (o : Opened) (s : Session) (a : ℕ × Move) : Session :=
  let next := advance o s.fields (s.pc a.1) a.2
  ⟨next.2.1, Function.update s.pc a.1 next.1, s.history ++ next.2.2.map (Prod.mk a.1)⟩

/-! ### Accounts -/

/-- The thread has handed `command` over, and has not ended the call. -/
def underWay (command : JString) : Pc → Bool
  | .executeRunning c => c == command
  | .executeLogging c _ => c == command
  | _ => false

/-- A record of the command. -/
def isRecordOf (command : JString) : Event → Bool
  | .recorded (.command entry) => entry.command == command
  | _ => false

/-- The commands of one move: what is handed over or was under way is recorded, lost or under way
afterwards. -/
theorem advance_accounts (o : Opened) (f : Fields) (pc : Pc) (m : Move) (command : JString) :
    (advance o f pc m).2.2.count (.started command) + (underWay command pc).toNat =
      (advance o f pc m).2.2.countP (isRecordOf command) +
        (advance o f pc m).2.2.count (.lost command) +
        (underWay command (advance o f pc m).1).toNat := by
  cases pc <;> cases m <;> simp only [advance] <;> (try split) <;>
    simp [underWay, isRecordOf, commandEntry, List.count_singleton, Bool.toNat]

/-- The accounts of a thread for a command. -/
def Accounted (s : Session) (t : ℕ) (command : JString) : Prop :=
  s.history.count (t, .started command) =
    s.history.countP (fun e => e.1 == t && isRecordOf command e.2) +
      s.history.count (t, .lost command) + (underWay command (s.pc t)).toNat

theorem count_map_mk (t u : ℕ) (e : Event) (es : List Event) :
    (es.map (Prod.mk t)).count (u, e) = if t = u then es.count e else 0 := by
  by_cases h : t = u
  · subst h
    rw [if_pos rfl, List.count_map_of_injective es _ (Prod.mk_right_injective t)]
  · rw [if_neg h, List.count_eq_zero]
    intro hmem
    obtain ⟨_, -, heq⟩ := List.mem_map.1 hmem
    exact h (Prod.mk.inj heq).1

theorem countP_map_mk (t u : ℕ) (p : Event → Bool) (es : List Event) :
    (es.map (Prod.mk t)).countP (fun e => e.1 == u && p e.2) = if t = u then es.countP p else 0 := by
  rw [List.countP_map]
  by_cases h : t = u
  · simp [h, Function.comp_def]
  · simp [h, Function.comp_def]

theorem accounted_step (o : Opened) {s : Session} {t : ℕ} {command : JString}
    (h : Accounted s t command) (a : ℕ × Move) : Accounted (step o s a) t command := by
  obtain ⟨u, m⟩ := a
  unfold Accounted at h ⊢
  simp only [step, List.count_append, List.countP_append, count_map_mk, countP_map_mk]
  by_cases hut : u = t
  · subst hut
    have hmove := advance_accounts o s.fields (s.pc u) m command
    simp only [if_true, Function.update_self]
    omega
  · simp only [if_neg hut, Function.update_of_ne (Ne.symm hut)]
    omega

/-- Somebody has approved the session. -/
def Approved (s : Session) : Prop := ∃ t, (t, Event.approvedSet) ∈ s.history

/-- The thread has seen the session approved. -/
def sawApproval : Pc → Bool
  | .executeApproved _ => true
  | .executeAllowed _ => true
  | _ => false

/-- What a thread has seen, and what it hands over, was approved before. -/
structure ApprovedFirst (s : Session) : Prop where
  fields : s.fields.approved = true → Approved s
  seen : ∀ t, sawApproval (s.pc t) = true → Approved s
  started : ∀ pre t command post, s.history = pre ++ (t, .started command) :: post →
    ∃ u, (u, Event.approvedSet) ∈ pre

theorem advance_approved (o : Opened) (f : Fields) (pc : Pc) (m : Move) :
    ((advance o f pc m).2.1.approved = true →
      f.approved = true ∨ Event.approvedSet ∈ (advance o f pc m).2.2) ∧
    (sawApproval (advance o f pc m).1 = true → f.approved = true ∨ sawApproval pc = true) ∧
    (∀ command, .started command ∈ (advance o f pc m).2.2 →
      sawApproval pc = true ∧ (advance o f pc m).2.2 = [.started command]) := by
  cases pc <;> cases m <;> simp only [advance] <;> (try split) <;> simp_all [sawApproval]

theorem approved_of_prefix {s : Session} {h : List (ℕ × Event)} (happ : Approved s) :
    ∃ u, (u, Event.approvedSet) ∈ s.history ++ h :=
  happ.imp fun _ hu => List.mem_append_left _ hu

theorem approvedFirst_step (o : Opened) {s : Session} (h : ApprovedFirst s) (a : ℕ × Move) :
    ApprovedFirst (step o s a) := by
  obtain ⟨u, m⟩ := a
  obtain ⟨hfields, hseen, hstarted⟩ := advance_approved o s.fields (s.pc u) m
  constructor
  · intro happ
    rcases hfields happ with hold | hnew
    · exact approved_of_prefix (h.fields hold)
    · exact ⟨u, List.mem_append_right _ (List.mem_map_of_mem hnew)⟩
  · intro t ht
    refine approved_of_prefix ?_
    simp only [step] at ht
    by_cases hut : t = u
    · subst hut
      rw [Function.update_self] at ht
      exact (hseen ht).elim h.fields (h.seen t)
    · rw [Function.update_of_ne hut] at ht
      exact h.seen t ht
  · intro pre t command post hcut
    -- a command handed over by this move
    have hnew : (t, Event.started command) ∈
        (advance o s.fields (s.pc u) m).2.2.map (Prod.mk u) → Approved s := by
      intro hmem
      obtain ⟨e, he, heq⟩ := List.mem_map.1 hmem
      obtain ⟨rfl, rfl⟩ := Prod.mk.inj heq
      exact h.seen u (hstarted command he).1
    simp only [step] at hcut
    rcases List.append_eq_append_iff.1 hcut with ⟨mid, hpre, hmid⟩ | ⟨mid, hhist, hmid⟩
    · rw [hpre]
      exact approved_of_prefix (hnew (by rw [hmid]; simp))
    · cases mid with
      | nil =>
        obtain ⟨v, hv⟩ := hnew (by rw [← List.nil_append (List.map _ _), ← hmid]; simp)
        exact ⟨v, by simpa [hhist] using hv⟩
      | cons e mid =>
        rw [List.cons_append, List.cons.injEq] at hmid
        exact h.started pre t command mid (by rw [hhist, hmid.1])

/-- **The accounts of a session.** However its threads interleave and whatever throws, every
command that a thread hands over to the provider is recorded once, lost to an exception, or still
under way, and all of it happens after the session was approved. -/
theorem session_accounts (o : Opened) (as : List (ℕ × Move)) :
    (∀ t command, Accounted (run (step o) initial as) t command) ∧
      ∀ pre t command post,
        (run (step o) initial as).history = pre ++ (t, .started command) :: post →
          ∃ u, (u, Event.approvedSet) ∈ pre := by
  constructor
  · intro t command
    exact run_invariant (I := fun s => Accounted s t command)
      (fun s a h => accounted_step o h a) (by simp [Accounted, initial, underWay]) as
  · refine (run_invariant (I := ApprovedFirst) (fun s a h => approvedFirst_step o h a) ?_ as).started
    refine ⟨fun h => absurd h (by decide), fun t h => absurd h Bool.false_ne_true, ?_⟩
    intro pre t command post h
    exact absurd h (by simp [initial])

/-! ### After the session is closed -/

/-- The thread has been allowed to hand `command` over. -/
def allowed (command : JString) : Pc → Bool
  | .executeAllowed c => c == command
  | _ => false

/-- What a thread has handed over, and what it may still hand over. -/
def due (s : Session) (t : ℕ) (command : JString) : ℕ :=
  s.history.count (t, .started command) + (allowed command (s.pc t)).toNat

theorem advance_closed (o : Opened) {f : Fields} (hclosed : f.closed = true) (pc : Pc) (m : Move)
    (command : JString) : (advance o f pc m).2.1.closed = true ∧
      (advance o f pc m).2.2.count (.started command) +
          (allowed command (advance o f pc m).1).toNat ≤ (allowed command pc).toNat := by
  have hif : ∀ c : JString, (if c = command then 1 else 0) = (c == command).toNat := fun c => by
    by_cases h : c = command
    · simp [h]
    · simp [h, beq_eq_false_iff_ne.2 h]
  cases pc <;> cases m <;> simp only [advance, hclosed, if_true] <;> (try split) <;>
    simp [allowed, List.count_singleton, hif]

theorem due_step (o : Opened) {s : Session} (hclosed : s.fields.closed = true) (a : ℕ × Move)
    (t : ℕ) (command : JString) :
    (step o s a).fields.closed = true ∧ due (step o s a) t command ≤ due s t command := by
  obtain ⟨u, m⟩ := a
  obtain ⟨hstill, hmove⟩ := advance_closed o hclosed (s.pc u) m command
  refine ⟨hstill, ?_⟩
  simp only [due, step, List.count_append, count_map_mk]
  by_cases hut : u = t
  · subst hut
    rw [if_pos rfl, Function.update_self]
    omega
  · rw [if_neg hut, Function.update_of_ne (Ne.symm hut)]
    omega

/-- **A closed session.** It stays closed, also where a late `approve` sets the flag again; and of
the commands handed over afterwards, each is one that its thread was already allowed to hand over
when the session was closed. -/
theorem session_closed (o : Opened) {s : Session} (hclosed : s.fields.closed = true)
    (as : List (ℕ × Move)) :
    (run (step o) s as).fields.closed = true ∧ ∀ t command,
      (run (step o) s as).history.count (t, .started command) ≤
        s.history.count (t, .started command) + (allowed command (s.pc t)).toNat := by
  have hrun : ∀ t command, (run (step o) s as).fields.closed = true ∧
      due (run (step o) s as) t command ≤ due s t command := by
    intro t command
    refine run_invariant (I := fun s' => s'.fields.closed = true ∧ due s' t command ≤
      due s t command) (fun s' a h => ?_) ⟨hclosed, le_rfl⟩ as
    obtain ⟨hstill, hle⟩ := due_step o h.1 a t command
    exact ⟨hstill, hle.trans h.2⟩
  refine ⟨(hrun 0 []).1, fun t command => ?_⟩
  exact (Nat.le_add_right _ _).trans (hrun t command).2

/-- A thread is allowed to execute, another one closes the session, the first one goes on. -/
def lateRun : List (ℕ × Move) :=
  [(1, .approve), (1, .next), (1, .next), (1, .logged 10), (1, .execute (ofString "id")), (1, .next),
    (2, .close), (2, .next)]

def sampleOpened : Opened := ⟨ofString "s1", ofString "TERMINAL", ofString "magisk"⟩

theorem session_closed_late :
    let s := run (step sampleOpened) initial lateRun
    (s.history.count (1, .started (ofString "id")) = 0 ∧
      (run (step sampleOpened) s [(1, .next), (1, .execute (ofString "ls"))]).history.count
        (1, .started (ofString "id")) ≤ 0 + 1) ∧
      (run (step sampleOpened) s [(1, .next)]).history.count (1, .started (ofString "id")) = 1 := by
  intro s
  have hlate := (session_closed sampleOpened (s := s) rfl
    [(1, .next), (1, .execute (ofString "ls"))]).2 1 (ofString "id")
  exact ⟨⟨by decide +kernel, hlate⟩, by decide +kernel⟩

end TrustedInteractiveSession

end AstraVeil.App
