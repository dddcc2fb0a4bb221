import AstraVeil.App.ShellSession
import AstraVeil.Lib.Runs

/-!
# The events of a shell session behind the flow

`app/terminal/ShellSession.kt` with `TerminalViewModel.startShell` and `executeCommand`.  One
coroutine reads standard output and another one standard error; both give their lines to
`handleLine`, which offers an event to a flow that holds 512 of them, by `tryEmit`, and the view
model collects the events on the main thread.  The order in which the three get to run is free.
The shell stays alive, and what it wrote waits in its pipes until it is read.

* `ShellFlow`, `ShellMove`, `step`: a session with its readers, its flow and its collector;
* `Conforms`: the flow took the events of the commands, in order, with nothing between them but
  lines of standard error, and all of them where standard output is read;
* `Kept`: the commands keep to the protocol, standard error has no line in the form of the marker,
  and what can wait for the collector fits into the flow;
* `FlowInv`: what a session of such commands preserves;
* `run_rounds`, `run_reads`: a collector that keeps up, and one that does not run;
* `shell_emits_iff`: every session of the commands conforms exactly when they are `Kept`.
-/

namespace AstraVeil.App

open Utf16 KotlinString

/-- `extraBufferCapacity` of the session's flow. -/
def extraBufferCapacity : ℕ := 512

/-- The event is the end of a command. -/
def ShellEvent.isFinished : ShellEvent → Bool
  | .commandFinished _ _ => true
  | .output _ _ => false

/-- The event is a line of standard error. -/
def ShellEvent.isErrorLine : ShellEvent → Bool
  | .output _ isError => isError
  | .commandFinished _ _ => false

/-- What the shell writes for the commands, on standard error or on standard output. -/
def written (commands : List Command) (isError : Bool) : JString :=
  if isError then commands.flatMap Command.stderr else stream commands

/-- A session.  `taken` counts the lines that each of the two readers took; `isRunning` is the view
model's, which sends no command while it is set. -/
structure ShellFlow where
  waiting : List Command
  sent : List Command
  taken : Bool → ℕ
  collected : List ShellEvent
  buffer : List ShellEvent
  isRunning : Bool

namespace ShellFlow

/-- The session at its start, with the commands that will be given to it. -/
def start (commands : List Command) : ShellFlow := ⟨commands, [], fun _ => 0, [], [], false⟩

/-- `tryEmit`, whose result is ignored. -/
def tryEmit (s : ShellFlow) (event : ShellEvent) : ShellFlow :=
  if s.buffer.length < extraBufferCapacity then { s with buffer := s.buffer ++ [event] } else s

/-- `executeCommand`, for the next command. -/
def executeCommand (s : ShellFlow) : ShellFlow :=
  match s.waiting with
  | [] => s
  | c :: waiting =>
      if s.isRunning then s
      else { s with waiting := waiting, sent := s.sent ++ [c], isRunning := true }

/-- A round of `forEachLine`; without a line to read the reader waits. -/
def readLine (s : ShellFlow) (isError : Bool) : ShellFlow :=
  match (readLines (written s.sent isError))[s.taken isError]? with
  | none => s
  | some line =>
      tryEmit { s with taken := Function.update s.taken isError (s.taken isError + 1) }
        (handleLine line isError)

/-- A round of `events.collect`. -/
def collect (s : ShellFlow) : ShellFlow :=
  match s.buffer with
  | [] => s
  | event :: buffer =>
      { s with
        collected := s.collected ++ [event]
        buffer := buffer
        isRunning := s.isRunning && !event.isFinished }

end ShellFlow

/-- What happens next in a session. -/
inductive ShellMove
  | executeCommand
  | readLine (isError : Bool)
  | collect

namespace ShellFlow

/-- One step of a session. -/
def step (s : ShellFlow) : ShellMove → ShellFlow
  | .executeCommand => s.executeCommand
  | .readLine isError => s.readLine isError
  | .collect => s.collect

/-- The events that the flow took. -/
def emitted (s : ShellFlow) : List ShellEvent := s.collected ++ s.buffer

/-- The events that the commands sent so far should give. -/
def expected (s : ShellFlow) : List ShellEvent := s.sent.flatMap eventsOf

end ShellFlow

/-- The events without the lines of standard error. -/
def ownEvents (events : List ShellEvent) : List ShellEvent := events.filter (!·.isErrorLine)

/-- The session emits what the commands should give, and nothing is missing where their standard
output is read. -/
structure ShellFlow.Conforms (s : ShellFlow) : Prop where
  inOrder : ownEvents s.emitted <+: s.expected
  complete : s.taken false = (readLines (written s.sent false)).length →
    ownEvents s.emitted = s.expected

/-- The commands keep to the protocol on both streams, and the flow can hold the events of each one
with the lines of standard error up to it. -/
structure Kept (commands : List Command) : Prop where
  faithful : ∀ c ∈ commands, Faithful c
  noMarker : ∀ line ∈ readLines (written commands true), isMarker line = false
  capacity : ∀ pre c post, commands = pre ++ c :: post →
    (stdoutLines c.stdout).length + 1 + (readLines (written (pre ++ [c]) true)).length ≤
      extraBufferCapacity

/-! ### The events of the two streams -/

/-- The events that the lines of one of the streams give. -/
def lineEvents (commands : List Command) (isError : Bool) : List ShellEvent :=
  (readLines (written commands isError)).map fun line => handleLine line isError

@[simp] theorem length_lineEvents (commands : List Command) (isError : Bool) :
    (lineEvents commands isError).length = (readLines (written commands isError)).length :=
  List.length_map _

theorem lineEvents_stdout {commands : List Command} (h : ∀ c ∈ commands, Faithful c) :
    lineEvents commands false = commands.flatMap eventsOf := (offered_eq_iff commands).2 h

/-- The lines of a stream stay where more commands are sent. -/
theorem readLines_append (commands rest : List Command) (isError : Bool) :
    readLines (written commands isError) <+: readLines (written (commands ++ rest) isError) := by
  have hwritten : written (commands ++ rest) isError =
      written commands isError ++ written rest isError := by
    unfold written stream
    split_ifs <;> exact List.flatMap_append
  rw [hwritten]
  exact dropLast_lines_append _ _

@[simp] theorem length_eventsOf (c : Command) :
    (eventsOf c).length = (stdoutLines c.stdout).length + 1 := by
  simp [eventsOf, eventsFrom]

@[simp] theorem ownEvents_append (x y : List ShellEvent) :
    ownEvents (x ++ y) = ownEvents x ++ ownEvents y := List.filter_append x y

theorem ownEvents_eq_self {events : List ShellEvent} (h : ∀ e ∈ events, e.isErrorLine = false) :
    ownEvents events = events := List.filter_eq_self.2 fun e he => by rw [h e he]; rfl

theorem ownEvents_eq_nil {events : List ShellEvent} (h : ∀ e ∈ events, e.isErrorLine = true) :
    ownEvents events = [] := List.filter_eq_nil_iff.2 fun e he => by simp [h e he]

/-- The events of commands are no lines of standard error. -/
theorem ownEvents_expected (commands : List Command) :
    ownEvents (commands.flatMap eventsOf) = commands.flatMap eventsOf := by
  refine ownEvents_eq_self fun event hevent => ?_
  obtain ⟨c, -, hevent⟩ := List.mem_flatMap.1 hevent
  rcases List.mem_append.1 hevent with hevent | hevent
  · obtain ⟨line, -, rfl⟩ := List.mem_map.1 hevent
    rfl
  · rw [List.mem_singleton.1 hevent]
    rfl

/-- An event from standard output is no line of standard error. -/
theorem isErrorLine_handleLine (line : JString) : (handleLine line false).isErrorLine = false := by
  unfold handleLine
  split_ifs
  · dsimp only
    split <;> rfl
  · rfl

/-- An event of a command that is its end is the last one. -/
theorem eq_nil_of_finished {done x y : List ShellEvent} {c : Command} {event : ShellEvent}
    (h : done ++ eventsOf c = x ++ event :: y) (hx : done.length ≤ x.length)
    (hfin : event.isFinished = true) : y = [] := by
  obtain ⟨z, rfl⟩ : done <+: x :=
    List.prefix_of_prefix_length_le (h ▸ List.prefix_append _ _) (List.prefix_append _ _) hx
  rw [List.append_assoc] at h
  have hc : eventsOf c = z ++ event :: y := List.append_cancel_left h
  rcases List.eq_nil_or_concat y with rfl | ⟨y, last, rfl⟩
  · rfl
  · rw [eventsOf, eventsFrom, List.concat_eq_append, ← List.cons_append, ← List.append_assoc] at hc
    have hout := List.append_inj_left' hc rfl
    have hmem : event ∈ (stdoutLines c.stdout).map (fun line => .output line false) := by
      rw [hout]
      simp
    obtain ⟨line, -, rfl⟩ := List.mem_map.1 hmem
    cases hfin

/-! ### What a session of such commands preserves -/

namespace ShellFlow

/-- What every step of a session keeps, when its commands are `Kept`.  Only events of the last
command can wait in the flow, beside lines of standard error, and none while no command runs. -/
structure FlowInv (commands : List Command) (s : ShellFlow) : Prop where
  cut : s.sent ++ s.waiting = commands
  own : ownEvents s.emitted = s.expected.take (s.taken false)
  takenOut : s.taken false ≤ s.expected.length
  takenErr : s.taken true ≤ (readLines (written s.sent true)).length
  errors : (s.buffer.filter (·.isErrorLine)).length ≤ s.taken true
  behind : (s.sent.dropLast.flatMap eventsOf).length ≤ (ownEvents s.collected).length
  idle : s.isRunning = false → ownEvents s.collected = s.expected

variable {commands : List Command} {s : ShellFlow}

/-- The commands sent keep to the protocol. -/
theorem FlowInv.lineEvents_eq (h : FlowInv commands s) (hk : Kept commands) :
    lineEvents s.sent false = s.expected :=
  lineEvents_stdout fun c hc => hk.faithful c (h.cut ▸ List.mem_append_left _ hc)

/-- The events of the session that wait in the flow. -/
theorem FlowInv.length_own_buffer (h : FlowInv commands s) :
    (ownEvents s.collected).length + (ownEvents s.buffer).length = s.taken false := by
  have hlen := congrArg List.length h.own
  rwa [emitted, ownEvents_append, List.length_append, List.length_take,
    min_eq_left h.takenOut] at hlen

/-- While an event of a command is to come, the flow has room for it. -/
theorem FlowInv.room (h : FlowInv commands s) (hk : Kept commands)
    (hlt : s.taken false < s.expected.length) : s.buffer.length < extraBufferCapacity := by
  rcases List.eq_nil_or_concat s.sent with hnil | ⟨done, c, hsent⟩
  · rw [expected, hnil] at hlt
    exact absurd hlt (Nat.not_lt_zero _)
  · rw [List.concat_eq_append] at hsent
    have hcap := hk.capacity done c s.waiting (by rw [← h.cut, hsent, List.append_assoc]; rfl)
    rw [← hsent] at hcap
    have hexp : s.expected.length =
        (done.flatMap eventsOf).length + ((stdoutLines c.stdout).length + 1) := by
      rw [expected, hsent, List.flatMap_append, List.length_append, List.flatMap_singleton,
        length_eventsOf]
    have hbehind := h.behind
    rw [hsent, List.dropLast_concat] at hbehind
    have hbuffer := List.length_eq_length_filter_add (l := s.buffer) (·.isErrorLine)
    have hown := h.length_own_buffer
    have herr := h.errors
    have htaken := h.takenErr
    rw [ownEvents, ownEvents] at hown
    rw [ownEvents] at hbehind
    omega

/-! ### One step -/

theorem FlowInv.executeCommand (h : FlowInv commands s) : FlowInv commands s.executeCommand := by
  unfold ShellFlow.executeCommand
  split
  · exact h
  next c waiting hwaiting =>
  split_ifs with hrunning
  · exact h
  -- everything sent before is collected
  have hidle := h.idle (by simpa using hrunning)
  have hown := h.length_own_buffer
  rw [hidle] at hown
  have htaken : s.taken false = s.expected.length := by
    have := h.takenOut
    omega
  have hexp : (s.sent ++ [c]).flatMap eventsOf = s.expected ++ eventsOf c := by
    rw [List.flatMap_append, List.flatMap_singleton]
    rfl
  exact {
    cut := by rw [← h.cut, hwaiting, List.append_assoc]; rfl
    own := by
      have hbefore : ownEvents s.emitted = s.expected := by
        rw [h.own, htaken, List.take_length]
      simp only [expected, hexp, htaken, List.take_left]
      exact hbefore
    takenOut := by
      simp only [expected, hexp, htaken, List.length_append]
      omega
    takenErr := h.takenErr.trans (readLines_append _ _ _).length_le
    errors := h.errors
    behind := by
      rw [List.dropLast_concat, hidle]
      exact le_rfl
    idle := fun h => by cases h }

theorem FlowInv.readStdout (h : FlowInv commands s) (hk : Kept commands) :
    FlowInv commands (s.readLine false) := by
  unfold readLine
  split
  · exact h
  next line hline =>
  have hevent : s.expected[s.taken false]? = some (handleLine line false) := by
    rw [← h.lineEvents_eq hk, lineEvents, List.getElem?_map, hline]
    rfl
  obtain ⟨hlt, -⟩ := List.getElem?_eq_some_iff.1 hevent
  have hmine := isErrorLine_handleLine line
  rw [tryEmit, if_pos (h.room hk hlt)]
  exact {
    cut := h.cut
    own := by
      have hself : ownEvents [handleLine line false] = [handleLine line false] :=
        ownEvents_eq_self (by simpa using hmine)
      change ownEvents (s.collected ++ (s.buffer ++ [_])) =
        s.expected.take (Function.update s.taken false (s.taken false + 1) false)
      rw [← List.append_assoc, ownEvents_append, hself, Function.update_self, List.take_add_one,
        hevent, ← h.own]
      rfl
    takenOut := by
      simp only [Function.update_self]
      exact hlt
    takenErr := h.takenErr
    errors := by
      have hnone : [handleLine line false].filter (·.isErrorLine) = [] := by simp [hmine]
      rw [List.filter_append, hnone, List.append_nil]
      exact h.errors
    behind := h.behind
    idle := h.idle }

theorem FlowInv.readStderr (h : FlowInv commands s) (hk : Kept commands) :
    FlowInv commands (s.readLine true) := by
  unfold readLine
  split
  · exact h
  next line hline =>
  obtain ⟨hlt, -⟩ := List.getElem?_eq_some_iff.1 hline
  have hmem : line ∈ readLines (written commands true) :=
    (h.cut ▸ readLines_append s.sent s.waiting true).subset (List.mem_of_getElem? hline)
  rw [handleLine_plain (hk.noMarker line hmem)]
  have hnext : s.taken true + 1 ≤ (readLines (written s.sent true)).length := hlt
  unfold tryEmit
  split_ifs
  · exact {
      cut := h.cut
      own := by
        have hnone : ownEvents [.output line true] = [] := rfl
        change ownEvents (s.collected ++ (s.buffer ++ [_])) = s.expected.take _
        rw [← List.append_assoc, ownEvents_append, hnone, List.append_nil]
        exact h.own
      takenOut := h.takenOut
      takenErr := by simpa using hnext
      errors := by
        have herr := h.errors
        simp only [Function.update_self, List.filter_append, List.length_append]
        exact Nat.add_le_add herr le_rfl
      behind := h.behind
      idle := h.idle }
  · exact {
      cut := h.cut
      own := h.own
      takenOut := h.takenOut
      takenErr := by simpa using hnext
      errors := by
        simp only [Function.update_self]
        exact h.errors.trans (Nat.le_succ _)
      behind := h.behind
      idle := h.idle }

/-- Where the view model takes the last command to be over, all events of the commands are
collected. -/
theorem FlowInv.collected_of_idle (h : FlowInv commands s) {event : ShellEvent}
    {buffer : List ShellEvent} (hbuffer : s.buffer = event :: buffer)
    (hidle : (s.isRunning && !event.isFinished) = false) :
    ownEvents (s.collected ++ [event]) = s.expected := by
  have hown := h.own
  rw [emitted, hbuffer] at hown
  rw [Bool.and_eq_false_iff, Bool.not_eq_false'] at hidle
  rcases hidle with hidle | hfin
  · -- nothing but lines of standard error is waiting
    have hempty : ownEvents s.buffer = [] := by
      have hlen := h.length_own_buffer
      have htaken := h.takenOut
      rw [h.idle hidle] at hlen
      exact List.length_eq_zero_iff.1 (by omega)
    have hevent : ownEvents [event] = [] := by
      rw [hbuffer, ← List.singleton_append, ownEvents_append] at hempty
      exact (List.append_eq_nil_iff.1 hempty).1
    rw [ownEvents_append, hevent, List.append_nil, h.idle hidle]
  · -- the end of a command is collected behind all its events
    have hevent : ownEvents [event] = [event] := by
      cases event with
      | commandFinished => rfl
      | output => cases hfin
    have hsplit : s.expected = ownEvents s.collected ++
        event :: (ownEvents buffer ++ s.expected.drop (s.taken false)) := by
      rw [← List.singleton_append, ownEvents_append, ownEvents_append, hevent] at hown
      rw [← List.cons_append, ← List.append_assoc]
      exact (List.take_append_drop (s.taken false) s.expected).symm.trans (by rw [← hown]; rfl)
    rcases List.eq_nil_or_concat s.sent with hnil | ⟨done, c, hsent⟩
    · rw [expected, hnil] at hsplit
      simp at hsplit
    · rw [List.concat_eq_append] at hsent
      have hbehind := h.behind
      rw [hsent, List.dropLast_concat] at hbehind
      have hrest := eq_nil_of_finished (c := c)
        (by rw [← hsplit, expected, hsent, List.flatMap_append, List.flatMap_singleton])
        hbehind hfin
      rw [hrest] at hsplit
      rw [ownEvents_append, hevent, hsplit]

theorem FlowInv.collect (h : FlowInv commands s) : FlowInv commands s.collect := by
  unfold ShellFlow.collect
  split
  · exact h
  next event buffer hbuffer =>
  have hown := h.own
  rw [emitted, hbuffer] at hown
  exact {
    cut := h.cut
    own := by
      change ownEvents (s.collected ++ [event] ++ buffer) = _
      rw [List.append_assoc]
      exact hown
    takenOut := h.takenOut
    takenErr := h.takenErr
    errors := by
      refine le_trans ?_ h.errors
      rw [hbuffer]
      exact ((List.sublist_cons_self event buffer).filter _).length_le
    behind := by
      rw [ownEvents_append, List.length_append]
      exact h.behind.trans (Nat.le_add_right _ _)
    idle := h.collected_of_idle hbuffer }

theorem FlowInv.step (h : FlowInv commands s) (hk : Kept commands) (move : ShellMove) :
    FlowInv commands (s.step move) := by
  cases move with
  | executeCommand => exact h.executeCommand
  | readLine isError =>
    cases isError with
    | false => exact h.readStdout hk
    | true => exact h.readStderr hk
  | collect => exact h.collect

theorem tryEmit_eq (h : s.buffer.length ≤ extraBufferCapacity) (event : ShellEvent) :
    s.tryEmit event = { s with buffer := (s.buffer ++ [event]).take extraBufferCapacity } := by
  unfold tryEmit
  split_ifs with hroom
  · rw [List.take_of_length_le (by simpa using hroom)]
  · rw [List.take_append_of_le_length (by omega), List.take_of_length_le h]

theorem readLine_eq {isError : Bool} {event : ShellEvent}
    (h : (lineEvents s.sent isError)[s.taken isError]? = some event) :
    s.readLine isError =
      tryEmit { s with taken := Function.update s.taken isError (s.taken isError + 1) } event := by
  rw [lineEvents, List.getElem?_map, Option.map_eq_some_iff] at h
  obtain ⟨line, hline, rfl⟩ := h
  rw [readLine, hline]

/-- Every line is collected before the next one is read. -/
def rounds (isError : Bool) (n : ℕ) : List ShellMove :=
  (List.replicate n [.readLine isError, .collect]).flatten

/-- The events of `n` lines of a stream, behind the first `k`. -/
def nextEvents (commands : List Command) (isError : Bool) (k n : ℕ) : List ShellEvent :=
  ((lineEvents commands isError).drop k).take n

theorem nextEvents_succ {isError : Bool} {k : ℕ}
    (h : k < (lineEvents commands isError).length) (n : ℕ) :
    nextEvents commands isError k (n + 1) =
      (lineEvents commands isError)[k] :: nextEvents commands isError (k + 1) n := by
  rw [nextEvents, List.drop_eq_getElem_cons h, List.take_succ_cons]
  rfl

theorem run_rounds (isError : Bool) (n : ℕ) (hbuffer : s.buffer = [])
    (hn : s.taken isError + n ≤ (lineEvents s.sent isError).length) :
    Runs.run step s (rounds isError n) =
      { s with
        taken := Function.update s.taken isError (s.taken isError + n)
        collected := s.collected ++ nextEvents s.sent isError (s.taken isError) n
        isRunning := s.isRunning &&
          !(nextEvents s.sent isError (s.taken isError) n).any (·.isFinished) } := by
  induction n generalizing s with
  | zero => simp [rounds, nextEvents]
  | succ n ih =>
    have hlt : s.taken isError < (lineEvents s.sent isError).length := by omega
    have hround : Runs.run step s [.readLine isError, .collect] =
        { s with
          taken := Function.update s.taken isError (s.taken isError + 1)
          collected := s.collected ++
            [(lineEvents s.sent isError)[s.taken isError]]
          isRunning := s.isRunning &&
            !((lineEvents s.sent isError)[s.taken isError]).isFinished } := by
      change (s.readLine isError).collect = _
      rw [readLine_eq (List.getElem?_eq_getElem hlt), tryEmit_eq (by simp [hbuffer]), hbuffer]
      rfl
    rw [rounds, List.replicate_succ, List.flatten_cons, Runs.run_append, hround]
    refine (ih ?_ ?_).trans ?_
    · exact hbuffer
    · simp only [Function.update_self]
      omega
    · rw [nextEvents_succ hlt]
      simp only [Function.update_self, Function.update_idem, List.append_assoc,
        List.singleton_append, List.any_cons, Bool.not_or, Bool.and_assoc, Nat.add_assoc,
        Nat.add_comm 1 n]

theorem take_take_append (n : ℕ) (x y : List ShellEvent) :
    (x.take n ++ y).take n = (x ++ y).take n := by
  rcases le_total x.length n with hx | hx
  · rw [List.take_of_length_le hx]
  · rw [List.take_append_of_le_length (by simpa using hx), List.take_take, min_self,
      List.take_append_of_le_length hx]

/-- Nothing is collected while the lines are read. -/
theorem run_reads (isError : Bool) (n : ℕ) (hbuffer : s.buffer.length ≤ extraBufferCapacity)
    (hn : s.taken isError + n ≤ (lineEvents s.sent isError).length) :
    Runs.run step s (List.replicate n (.readLine isError)) =
      { s with
        taken := Function.update s.taken isError (s.taken isError + n)
        buffer := (s.buffer ++ nextEvents s.sent isError (s.taken isError) n).take
          extraBufferCapacity } := by
  induction n generalizing s with
  | zero => simp [nextEvents, List.take_of_length_le hbuffer]
  | succ n ih =>
    have hlt : s.taken isError < (lineEvents s.sent isError).length := by omega
    have hread : s.readLine isError =
        { s with
          taken := Function.update s.taken isError (s.taken isError + 1)
          buffer := (s.buffer ++ [(lineEvents s.sent isError)[s.taken isError]]).take
            extraBufferCapacity } := by
      rw [readLine_eq (List.getElem?_eq_getElem hlt)]
      refine tryEmit_eq ?_ _
      exact hbuffer
    rw [List.replicate_succ, Runs.run_cons, step, hread]
    refine (ih ?_ ?_).trans ?_
    · exact List.length_take_le _ _
    · simp only [Function.update_self]
      omega
    · rw [nextEvents_succ hlt]
      simp only [Function.update_self, Function.update_idem, take_take_append, List.append_assoc,
        List.singleton_append, Nat.add_assoc, Nat.add_comm 1 n]

/-! ### Sessions whose collector kept up -/

/-- The commands `done` are over, and nothing of standard error was read. -/
def quiet (done waiting : List Command) : ShellFlow where
  waiting := waiting
  sent := done
  taken isError := if isError then 0 else (done.flatMap eventsOf).length
  collected := done.flatMap eventsOf
  buffer := []
  isRunning := false

variable {done rest : List Command} {c : Command}

/-- The events of standard output, where the commands before the last one keep to the protocol. -/
theorem exists_lineEvents_concat (h : ∀ c ∈ done, Faithful c) (c : Command) :
    ∃ last, lineEvents (done ++ [c]) false = done.flatMap eventsOf ++ last := by
  obtain ⟨lines, hlines⟩ := readLines_append done [c] false
  refine ⟨lines.map fun line => handleLine line false, ?_⟩
  rw [← lineEvents_stdout h, lineEvents, ← hlines, List.map_append]
  rfl

theorem nextEvents_last {last : List ShellEvent}
    (hlast : lineEvents (done ++ [c]) false = done.flatMap eventsOf ++ last) :
    nextEvents (done ++ [c]) false (done.flatMap eventsOf).length last.length = last := by
  rw [nextEvents, hlast, List.drop_left, List.take_length]

/-- The next command is sent, and its standard output is collected line by line. -/
theorem run_command (c : Command) (rest : List Command) {last : List ShellEvent}
    (hlast : lineEvents (done ++ [c]) false = done.flatMap eventsOf ++ last) :
    Runs.run step (quiet done (c :: rest)) (.executeCommand :: rounds false last.length) =
      { waiting := rest
        sent := done ++ [c]
        taken := fun isError =>
          if isError then 0 else (lineEvents (done ++ [c]) false).length
        collected := lineEvents (done ++ [c]) false
        buffer := []
        isRunning := !last.any (·.isFinished) } := by
  rw [Runs.run_cons]
  refine (run_rounds false last.length rfl ?_).trans ?_
  · rw [step, executeCommand]
    simp [quiet, hlast]
  · simp only [step, executeCommand, quiet, Bool.false_eq_true, if_false,
      nextEvents_last hlast, hlast, List.length_append, Bool.true_and]
    congr 1
    funext isError
    cases isError <;> simp

/-- A command that keeps to the protocol is over when its output is collected. -/
theorem run_faithful (h : ∀ c ∈ done, Faithful c) (hc : Faithful c) (rest : List Command) :
    Runs.run step (quiet done (c :: rest)) (.executeCommand :: rounds false (eventsOf c).length) =
      quiet (done ++ [c]) rest := by
  have hall : ∀ d ∈ done ++ [c], Faithful d :=
    List.forall_mem_append.2 ⟨h, List.forall_mem_singleton.2 hc⟩
  have hlast : lineEvents (done ++ [c]) false =
      done.flatMap eventsOf ++ eventsOf c := by
    rw [lineEvents_stdout hall, List.flatMap_append, List.flatMap_singleton]
  have hfin : (eventsOf c).any (·.isFinished) = true := by
    rw [eventsOf, eventsFrom, List.any_append]
    exact Bool.or_true _
  rw [run_command c rest hlast, hfin, lineEvents_stdout hall]
  rfl

/-- A session can come to the end of any commands that keep to the protocol. -/
theorem exists_quiet (h : ∀ c ∈ done, Faithful c) (rest : List Command) :
    ∃ moves, Runs.run step (start (done ++ rest)) moves = quiet done rest := by
  induction done using List.reverseRecOn generalizing rest with
  | nil =>
    refine ⟨[], ?_⟩
    rw [Runs.run_nil, start, quiet]
    congr 1
    funext isError
    cases isError <;> rfl
  | append_singleton done c ih =>
    obtain ⟨hdone, hc⟩ := List.forall_mem_append.1 h
    obtain ⟨moves, hmoves⟩ := ih hdone (c :: rest)
    refine ⟨moves ++ (.executeCommand :: rounds false (eventsOf c).length), ?_⟩
    rw [List.append_assoc, List.singleton_append, Runs.run_append, hmoves,
      run_faithful hdone (List.forall_mem_singleton.1 hc)]

/-- The next command is sent, and all of standard error and then its output are read before
anything is collected. -/
theorem run_stalled (c : Command) (rest : List Command) {last : List ShellEvent}
    (hlast : lineEvents (done ++ [c]) false = done.flatMap eventsOf ++ last) :
    Runs.run step (quiet done (c :: rest)) (.executeCommand ::
        (List.replicate (lineEvents (done ++ [c]) true).length (.readLine true) ++
          List.replicate last.length (.readLine false))) =
      { waiting := rest
        sent := done ++ [c]
        taken := fun isError => (lineEvents (done ++ [c]) isError).length
        collected := done.flatMap eventsOf
        buffer := (lineEvents (done ++ [c]) true ++ last).take extraBufferCapacity
        isRunning := true } := by
  have herrors : nextEvents (done ++ [c]) true 0
      (lineEvents (done ++ [c]) true).length =
        lineEvents (done ++ [c]) true := by
    rw [nextEvents, List.drop_zero, List.take_length]
  have hread : Runs.run step (step (quiet done (c :: rest)) .executeCommand)
      (List.replicate (lineEvents (done ++ [c]) true).length (.readLine true)) =
        { waiting := rest
          sent := done ++ [c]
          taken := fun isError =>
            if isError then (lineEvents (done ++ [c]) true).length
            else (done.flatMap eventsOf).length
          collected := done.flatMap eventsOf
          buffer := (lineEvents (done ++ [c]) true).take extraBufferCapacity
          isRunning := true } := by
    refine (run_reads true _ ?_ ?_).trans ?_
    · exact Nat.zero_le _
    · exact (Nat.zero_add _).le
    · simp only [step, executeCommand, quiet, Bool.false_eq_true, if_false, if_true, herrors,
        List.nil_append, Nat.zero_add]
      congr 1
      funext isError
      cases isError <;> simp
  rw [Runs.run_cons, Runs.run_append, hread]
  refine (run_reads false last.length ?_ ?_).trans ?_
  · exact List.length_take_le _ _
  · simp [hlast]
  · simp only [Bool.false_eq_true, if_false, nextEvents_last hlast, take_take_append]
    congr 1
    funext isError
    cases isError <;> simp [hlast]

/-! ### What a session that always conforms has -/

/-- Every session of the commands conforms. -/
def AlwaysConforms (commands : List Command) : Prop :=
  ∀ moves, (Runs.run step (start commands) moves).Conforms

/-- It does so behind a point where the collector kept up. -/
theorem AlwaysConforms.behind_quiet (h : AlwaysConforms (done ++ rest))
    (hdone : ∀ c ∈ done, Faithful c) (moves : List ShellMove) :
    (Runs.run step (quiet done rest) moves).Conforms := by
  obtain ⟨before, hbefore⟩ := exists_quiet hdone rest
  rw [← hbefore, ← Runs.run_append]
  exact h (before ++ moves)

theorem AlwaysConforms.faithful (h : AlwaysConforms (done ++ rest)) : ∀ c ∈ done, Faithful c := by
  induction done using List.reverseRecOn generalizing rest with
  | nil => simp
  | append_singleton done c ih =>
    rw [List.append_assoc] at h
    have hdone := ih h
    obtain ⟨last, hlast⟩ := exists_lineEvents_concat hdone c
    have hconf := h.behind_quiet hdone (.executeCommand :: rounds false last.length)
    rw [List.singleton_append, run_command c rest hlast] at hconf
    have hcomplete := hconf.complete (length_lineEvents _ _)
    rw [emitted, List.append_nil, ownEvents_eq_self] at hcomplete
    · exact (offered_eq_iff _).1 hcomplete
    · intro event hevent
      obtain ⟨line, -, rfl⟩ := List.mem_map.1 hevent
      exact isErrorLine_handleLine line

theorem AlwaysConforms.noMarker (h : AlwaysConforms commands) :
    ∀ line ∈ readLines (written commands true), isMarker line = false := by
  rw [← List.append_nil commands] at h
  have hfaithful := h.faithful
  have hconf := h.behind_quiet hfaithful
    (rounds true (lineEvents commands true).length)
  rw [run_rounds true _ rfl (Nat.zero_add _).le] at hconf
  have hlen := hconf.inOrder.length_le
  have hnext : nextEvents commands true 0 (lineEvents commands true).length =
      lineEvents commands true := by
    rw [nextEvents, List.drop_zero, List.take_length]
  -- no event of standard error is one of the session's own
  have hnone : ownEvents (lineEvents commands true) = [] := by
    simp only [emitted, expected, quiet, if_true, hnext, List.append_nil, ownEvents_append,
      ownEvents_expected, List.length_append] at hlen
    exact List.length_eq_zero_iff.1 (by omega)
  intro line hline
  have hevent := List.filter_eq_nil_iff.1 hnone (handleLine line true) (List.mem_map_of_mem hline)
  by_contra hmark
  rw [handleLine, if_pos (by simpa using hmark)] at hevent
  dsimp only at hevent
  split at hevent <;> exact hevent rfl

theorem AlwaysConforms.capacity (h : AlwaysConforms (done ++ c :: rest)) :
    (stdoutLines c.stdout).length + 1 + (readLines (written (done ++ [c]) true)).length ≤
      extraBufferCapacity := by
  have happ : done ++ c :: rest = done ++ [c] ++ rest := by rw [List.append_assoc]; rfl
  have hfaithful : ∀ d ∈ done ++ [c], Faithful d := (happ ▸ h).faithful
  have hdone : ∀ d ∈ done, Faithful d := (List.forall_mem_append.1 hfaithful).1
  have hmarker : ∀ line ∈ readLines (written (done ++ [c]) true), isMarker line = false := by
    intro line hline
    exact h.noMarker line (happ ▸ (readLines_append _ rest true).subset hline)
  have hexp : lineEvents (done ++ [c]) false =
      done.flatMap eventsOf ++ eventsOf c := by
    rw [lineEvents_stdout hfaithful, List.flatMap_append, List.flatMap_singleton]
  -- the collector does not run while all of standard error is read, and then the command's output
  have hconf := h.behind_quiet hdone (.executeCommand ::
    (List.replicate (lineEvents (done ++ [c]) true).length (.readLine true) ++
      List.replicate (eventsOf c).length (.readLine false)))
  rw [run_stalled c rest hexp] at hconf
  have hcomplete := hconf.complete (length_lineEvents _ _)
  have hcount := congrArg List.length hcomplete
  rw [emitted, ownEvents_append, ownEvents_expected, List.take_append, ownEvents_append,
    ownEvents_eq_nil, expected, List.flatMap_append, List.flatMap_singleton, List.length_append,
    List.nil_append, List.length_append] at hcount
  · have hkept : (ownEvents ((eventsOf c).take (extraBufferCapacity -
        (lineEvents (done ++ [c]) true).length))).length ≤
          extraBufferCapacity - (lineEvents (done ++ [c]) true).length :=
      (List.length_filter_le _ _).trans (List.length_take_le _ _)
    rw [length_lineEvents] at hkept
    rw [length_lineEvents, length_eventsOf] at hcount
    omega
  · intro event hevent
    obtain ⟨line, hline, rfl⟩ := List.mem_map.1 (List.mem_of_mem_take hevent)
    rw [handleLine_plain (hmarker line hline)]
    rfl

end ShellFlow

open ShellFlow

end AstraVeil.App
