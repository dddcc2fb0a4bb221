import AstraVeil.Lib.Framing
import AstraVeil.Lib.Utf16

/-!
# The daemon's socket server

`daemon/src/ipc/socket_server.cpp`: one connection at a time, requests and responses as frames
with a 32-bit big-endian length in front.  What the system calls return is the environment's
choice: `ReadEvent` for one pass of the loop of `readExactWithTimeout`, `WriteEvent` for one of
the loop of `write_exact`.  A chunk that is longer than what is asked for stays in the socket with
what was not taken of it.

* `readExact_smooth`: what reading `n` bytes gives depends on the bytes of the chunks only;
* `handleClient_frames`: over frames the handler is called on their payloads, in order, and the
  connection then goes on with what follows them;
* `handleClient_roundTrip`: the same down to the end of the stream, a cut frame or a bad length.
-/

namespace AstraVeil.Daemon

open Utf16 Framing

/-- `DaemonProtocol.MAX_FRAME_BYTES`. -/
def maxFrameBytes : ℕ := 8 * 1024 * 1024

/-- `DaemonProtocol.encodeFrame`; `none` where `require` throws. -/
def encodeFrame (type : UInt8) (body : JString) : Option (List UInt8) :=
  let payload := type :: utf8 body
  if payload.length ≤ maxFrameBytes then some (be32 payload.length ++ payload) else none

/-- What `poll` and `read` return in one pass of the reading loop. -/
inductive ReadEvent
  /-- `poll` returns 0. -/
  | pollTimeout
  /-- `poll` returns -1 with `EINTR`. -/
  | pollInterrupted
  /-- `poll` returns -1 with another error. -/
  | pollError
  /-- `read` returns -1 with `EINTR`. -/
  | readInterrupted
  /-- `read` returns -1 with another error. -/
  | readError
  /-- `read` finds these bytes; it returns 0 if there are none. -/
  | chunk (bytes : List UInt8)
  deriving DecidableEq

/-- What `write` returns in one pass of the writing loop. -/
inductive WriteEvent
  /-- `write` returns -1 with `EINTR`. -/
  | interrupted
  /-- `write` returns -1 with another error. -/
  | error
  /-- `write` takes at most so many bytes. -/
  | wrote (n : ℕ)
  deriving DecidableEq

/-- A connection: what its system calls are going to return, and what was written to it.  After
the last read event the peer has closed its end, after the last write event a write takes all. -/
structure Peer where
  reads : List ReadEvent
  writes : List WriteEvent
  sent : List UInt8

/-- Why `handle_client` returns. -/
inductive Exit
  | stopped
  | noHeader
  | badLength (len : ℕ)
  | shortPayload
  | emptyResponse
  | writeFailed
  deriving DecidableEq

namespace SocketServer

/-- The loop of `readExactWithTimeout`, with `remaining = n - got` bytes to go. -/
def readExact : ℕ → List UInt8 → List ReadEvent → Option (List UInt8) × List ReadEvent
  | 0, got, events => (some got, events)
  | _ + 1, _, [] => (none, [])
  | _ + 1, _, .pollTimeout :: events => (none, events)
  | n + 1, got, .pollInterrupted :: events => readExact (n + 1) got events
  | _ + 1, _, .pollError :: events => (none, events)
  | n + 1, got, .readInterrupted :: events => readExact (n + 1) got events
  | _ + 1, _, .readError :: events => (none, events)
  | n + 1, got, .chunk bytes :: events =>
      if bytes = [] then (none, events)
      else if bytes.length ≤ n + 1 then
        readExact (n + 1 - bytes.length) (got ++ bytes) events
      else (some (got ++ bytes.take (n + 1)), .chunk (bytes.drop (n + 1)) :: events)

/-- The loop of `write_exact`: whether all bytes were written, and which. -/
def writeExact : List UInt8 → List WriteEvent → List UInt8 → Bool × List WriteEvent × List UInt8
  | [], events, sent => (true, events, sent)
  | bytes, [], sent => (true, [], sent ++ bytes)
  | bytes, .interrupted :: events, sent => writeExact bytes events sent
  | _, .error :: events, sent => (false, events, sent)
  | bytes, .wrote n :: events, sent =>
      writeExact (bytes.drop n) events (sent ++ bytes.take n)

/-- `write_exact` on a connection. -/
def write (bytes : List UInt8) (peer : Peer) : Bool × Peer :=
  match writeExact bytes peer.writes peer.sent with
  | (ok, events, sent) => (ok, { peer with writes := events, sent := sent })

/-- The first half of a round of `handle_client`: the payload of the next frame. -/
def readRequest (peer : Peer) : Except Exit (List UInt8) × Peer :=
  match readExact 4 [] peer.reads with
  | (none, events) => (.error .noHeader, { peer with reads := events })
  | (some header, events) =>
      let len := ofBe header
      if len = 0 ∨ len > 8 * 1024 * 1024 then
        (.error (.badLength len), { peer with reads := events })
      else
        match readExact len [] events with
        | (none, events) => (.error .shortPayload, { peer with reads := events })
        | (some payload, events) => (.ok payload, { peer with reads := events })

/-- The second half of a round: the response, or four zero bytes where there is none. -/
def respond (response : List UInt8) (peer : Peer) : Option Exit × Peer :=
  if response = [] then (some .emptyResponse, (write (be32 0) peer).2)
  else
    match write (be32 response.length) peer with
    | (false, peer) => (some .writeFailed, peer)
    | (true, peer) =>
        match write response peer with
        | (false, peer) => (some .writeFailed, peer)
        | (true, peer) => (none, peer)

end SocketServer

/-- The server: its handler, over the state `σ` that handlers share, and what `running_.load()`
returns at the start of each round. -/
structure SocketServer (σ : Type) where
  handler : Option (σ → List UInt8 → List UInt8 × σ)
  running : ℕ → Bool

/-- What came of a connection. -/
structure Served (σ : Type) where
  /-- The payloads the handler was called on. -/
  calls : List (List UInt8)
  state : σ
  peer : Peer
  exit : Exit

namespace SocketServer

/-- The number of passes and bytes the read events still have. -/
def weight : List ReadEvent → ℕ
  | [] => 0
  | .chunk bytes :: events => bytes.length + 1 + weight events
  | _ :: events => 1 + weight events

/-- A successful read takes its bytes out of the events. -/
theorem weight_readExact {n : ℕ} {got bytes : List UInt8} {events rest : List ReadEvent}
    (h : readExact n got events = (some bytes, rest)) : weight rest + n ≤ weight events := by
  fun_induction readExact n got events with
  | case1 got events =>
    obtain ⟨-, rfl⟩ := Prod.mk.injEq .. ▸ h
    omega
  | case2 | case3 | case5 | case7 | case8 => simp at h
  | case4 n got events ih =>
    have := ih h
    simp only [weight]
    omega
  | case6 n got events ih =>
    have := ih h
    simp only [weight]
    omega
  | case9 n got bs events hne hle ih =>
    have := ih h
    simp only [weight]
    omega
  | case10 n got bs events hne hle =>
    obtain ⟨-, rfl⟩ := Prod.mk.injEq .. ▸ h
    simp only [weight, List.length_drop]
    omega

/-- A request leaves fewer events than there were. -/
theorem weight_readRequest {peer next : Peer} {payload : List UInt8}
    (h : readRequest peer = (.ok payload, next)) : weight next.reads < weight peer.reads := by
  unfold readRequest at h
  split at h
  · simp at h
  · rename_i header events hheader
    have h4 := weight_readExact hheader
    simp only at h
    split at h
    · simp at h
    · split at h
      · simp at h
      · rename_i bytes rest hpayload
        have hlen := weight_readExact hpayload
        obtain ⟨-, rfl⟩ := Prod.mk.injEq .. ▸ h
        simp only
        omega

theorem reads_write (bytes : List UInt8) (peer : Peer) :
    (write bytes peer).2.reads = peer.reads := rfl

/-- Writing leaves the read events alone. -/
theorem reads_respond (response : List UInt8) (peer : Peer) :
    (respond response peer).2.reads = peer.reads := by
  unfold respond
  split
  · exact reads_write _ _
  · have h1 := reads_write (be32 response.length) peer
    split
    · rename_i next hw
      rw [hw] at h1
      exact h1
    · rename_i next hw
      rw [hw] at h1
      have h2 := reads_write response next
      split
      · rename_i last hw'
        rw [hw'] at h2
        exact h2.trans h1
      · rename_i last hw'
        rw [hw'] at h2
        exact h2.trans h1

variable {σ : Type} (server : SocketServer σ)

/-- The response to a request; without a handler it is empty and the request is dropped. -/
def call (st : σ) (payload : List UInt8) : List (List UInt8) × List UInt8 × σ :=
  match server.handler with
  | some handler => ([payload], handler st payload)
  | none => ([], [], st)

theorem call_of_handler {handler : σ → List UInt8 → List UInt8 × σ}
    (h : server.handler = some handler) (st : σ) (payload : List UInt8) :
    server.call st payload = ([payload], (handler st payload).1, (handler st payload).2) := by
  rw [call, h]

/-- Calls made before the rest of a connection. -/
def prepend (calls : List (List UInt8)) (served : Served σ) : Served σ :=
  { served with calls := calls ++ served.calls }

/-- `SocketServer::handle_client`, from its `i`-th round on. -/
def handleClient (i : ℕ) (st : σ) (peer : Peer) : Served σ :=
  if ¬ server.running i then ⟨[], st, peer, .stopped⟩
  else
    match _hread : readRequest peer with
    | (.error exit, peer) => ⟨[], st, peer, exit⟩
    | (.ok payload, next) =>
        match server.call st payload with
        | (calls, response, st) =>
            match hsend : respond response next with
            | (some exit, peer) => ⟨calls, st, peer, exit⟩
            | (none, peer) => prepend calls (handleClient (i + 1) st peer)
  termination_by weight peer.reads
  decreasing_by
    have hlt := weight_readRequest _hread
    have heq := reads_respond response next
    rw [hsend] at heq
    rw [heq]
    exact hlt

/-! ### Reading -/

/-- Neither an error nor a timeout nor the end of the stream. -/
def Smooth (events : List ReadEvent) : Prop :=
  ∀ e ∈ events, e = .pollInterrupted ∨ e = .readInterrupted ∨ ∃ b bytes, e = .chunk (b :: bytes)

/-- The bytes of the chunks. -/
def received : List ReadEvent → List UInt8
  | [] => []
  | .chunk bytes :: events => bytes ++ received events
  | _ :: events => received events

/-- The connection ends here, by an error, a timeout or the end of the stream. -/
def Stops : List ReadEvent → Prop
  | [] => True
  | e :: _ => e = .pollTimeout ∨ e = .pollError ∨ e = .readError ∨ e = .chunk []

/-- **How the bytes are cut into chunks, and how often the calls are interrupted, does not show in
what is read.** -/
theorem readExact_smooth {events : List ReadEvent} (hs : Smooth events) (t : List ReadEvent)
    {n : ℕ} (hn : n ≤ (received events).length) (got : List UInt8) :
    ∃ rest, Smooth rest ∧ received rest = (received events).drop n ∧
      readExact n got (events ++ t) = (some (got ++ (received events).take n), rest ++ t) := by
  induction events generalizing n got with
  | nil =>
    obtain rfl : n = 0 := by simpa [received] using hn
    exact ⟨[], hs, rfl, by simp [readExact]⟩
  | cons e events ih =>
    cases n with
    | zero => exact ⟨e :: events, hs, rfl, by simp [readExact]⟩
    | succ n =>
      obtain ⟨he, hrest⟩ := List.forall_mem_cons.1 hs
      rcases he with rfl | rfl | ⟨b, bytes, rfl⟩
      · exact ih hrest hn got
      · exact ih hrest hn got
      simp only [received, List.length_append] at hn
      by_cases hle : (b :: bytes).length ≤ n + 1
      · -- the whole chunk is taken and the loop goes on
        obtain ⟨rest, hsmooth, hdrop, hread⟩ := ih hrest (n := n + 1 - (b :: bytes).length)
          (by omega) (got ++ b :: bytes)
        refine ⟨rest, hsmooth, ?_, ?_⟩
        · rw [hdrop, received, List.drop_append, List.drop_eq_nil_of_le hle, List.nil_append]
        · rw [List.cons_append, readExact, if_neg (List.cons_ne_nil b bytes), if_pos hle, hread,
            received, List.take_append, List.take_of_length_le hle, List.append_assoc]
      · -- the chunk is longer than what is asked for
        have hle' : n + 1 ≤ (b :: bytes).length := by omega
        refine ⟨.chunk ((b :: bytes).drop (n + 1)) :: events, ?_, ?_, ?_⟩
        · refine List.forall_mem_cons.2 ⟨Or.inr (Or.inr ?_), hrest⟩
          have hpos : (b :: bytes).drop (n + 1) ≠ [] := by
            rw [Ne, List.drop_eq_nil_iff]
            exact hle
          obtain ⟨c, cs, hcs⟩ := List.exists_cons_of_ne_nil hpos
          exact ⟨c, cs, by rw [hcs]⟩
        · rw [received, received, List.drop_append_of_le_length hle']
        · rw [List.cons_append, readExact, if_neg (List.cons_ne_nil b bytes), if_neg hle,
            received, List.take_append_of_le_length hle', List.cons_append]

/-- Where the stream ends too early nothing is read. -/
theorem readExact_short {events t : List ReadEvent} (hs : Smooth events) (ht : Stops t) {n : ℕ}
    (hn : (received events).length < n) (got : List UInt8) :
    ∃ rest, readExact n got (events ++ t) = (none, rest) := by
  induction events generalizing n got with
  | nil =>
    cases n with
    | zero => simp at hn
    | succ n =>
      cases t with
      | nil => exact ⟨[], rfl⟩
      | cons e t =>
        refine ⟨t, ?_⟩
        rcases ht with rfl | rfl | rfl | rfl
        · rfl
        · rfl
        · rfl
        · rfl
  | cons e events ih =>
    cases n with
    | zero => simp at hn
    | succ n =>
      obtain ⟨he, hrest⟩ := List.forall_mem_cons.1 hs
      rcases he with rfl | rfl | ⟨b, bytes, rfl⟩
      · exact ih hrest hn got
      · exact ih hrest hn got
      simp only [received, List.length_append] at hn
      rw [List.cons_append, readExact, if_neg (List.cons_ne_nil b bytes), if_pos (by omega)]
      exact ih hrest (by omega) _

/-! ### Writing -/

/-- No write fails. -/
def Writable (events : List WriteEvent) : Prop := .error ∉ events

theorem writeExact_writable {events : List WriteEvent} (h : Writable events)
    (bytes sent : List UInt8) : ∃ rest, Writable rest ∧
      writeExact bytes events sent = (true, rest, sent ++ bytes) := by
  induction events generalizing bytes sent with
  | nil =>
    cases bytes with
    | nil => exact ⟨[], h, by simp [writeExact]⟩
    | cons b bytes => exact ⟨[], h, rfl⟩
  | cons e events ih =>
    have hrest : Writable events := fun hmem => h (List.mem_cons_of_mem e hmem)
    cases bytes with
    | nil => exact ⟨e :: events, h, by simp [writeExact]⟩
    | cons b bytes =>
      cases e with
      | interrupted => exact ih hrest (b :: bytes) sent
      | error => exact absurd List.mem_cons_self h
      | wrote n =>
        obtain ⟨rest, hw, heq⟩ := ih hrest ((b :: bytes).drop n) (sent ++ (b :: bytes).take n)
        refine ⟨rest, hw, ?_⟩
        rw [List.append_assoc, List.take_append_drop] at heq
        exact heq

/-- A response that can be written is written, as one frame. -/
theorem respond_writable {response : List UInt8} (hne : response ≠ []) {reads : List ReadEvent}
    {writes : List WriteEvent} (h : Writable writes) (sent : List UInt8) :
    ∃ rest, Writable rest ∧
      respond response ⟨reads, writes, sent⟩ = (none, ⟨reads, rest, sent ++ frame response⟩) := by
  obtain ⟨w1, h1, heq1⟩ := writeExact_writable h (be32 response.length) sent
  obtain ⟨w2, h2, heq2⟩ := writeExact_writable h1 response (sent ++ be32 response.length)
  refine ⟨w2, h2, ?_⟩
  rw [respond, if_neg hne]
  simp only [write, heq1, heq2, frame, List.append_assoc]

/-! ### One round -/

/-- What the daemon accepts as a payload. -/
def Fits (payload : List UInt8) : Prop := 1 ≤ payload.length ∧ payload.length ≤ maxFrameBytes

/-- A frame is read as a whole, and no more than the frame. -/
theorem readRequest_frame {payload rest : List UInt8} (hfit : Fits payload)
    {events : List ReadEvent} (hs : Smooth events) (hrec : received events = frame payload ++ rest)
    (t : List ReadEvent) (writes : List WriteEvent) (sent : List UInt8) :
    ∃ after, Smooth after ∧ received after = rest ∧
      readRequest ⟨events ++ t, writes, sent⟩ = (.ok payload, ⟨after ++ t, writes, sent⟩) := by
  have hmax : maxFrameBytes = 8388608 := rfl
  obtain ⟨h1, h2⟩ := hfit
  have hlen : (received events).length = 4 + payload.length + rest.length := by
    rw [hrec, List.length_append, length_frame]
  obtain ⟨mid, hmid, hdrop, hheader⟩ := readExact_smooth hs t (n := 4) (by omega) []
  have htake : (received events).take 4 = be32 payload.length := by
    rw [hrec, frame, List.append_assoc, take_be32_append]
  have hmidrec : received mid = payload ++ rest := by
    rw [hdrop, hrec, frame, List.append_assoc, drop_be32_append]
  obtain ⟨after, hafter, hdrop', hbody⟩ := readExact_smooth hmid t (n := payload.length)
    (by rw [hmidrec, List.length_append]; omega) []
  rw [hmidrec, List.drop_left] at hdrop'
  rw [hmidrec, List.take_left, List.nil_append] at hbody
  rw [htake, List.nil_append] at hheader
  refine ⟨after, hafter, hdrop', ?_⟩
  simp only [readRequest, hheader, ofBe_be32 (show payload.length < 2 ^ 32 by omega)]
  rw [if_neg (by omega), hbody]

/-- A frame of which only a part arrives is not a request. -/
theorem readRequest_cut {payload cut : List UInt8} (hfit : Fits payload)
    (hcut : cut <+: frame payload) (hne : cut ≠ frame payload) {events t : List ReadEvent}
    (hs : Smooth events) (ht : Stops t) (hrec : received events = cut) (writes : List WriteEvent)
    (sent : List UInt8) : ∃ exit peer, (exit = .noHeader ∨ exit = .shortPayload) ∧
      readRequest ⟨events ++ t, writes, sent⟩ = (.error exit, peer) := by
  have hmax : maxFrameBytes = 8388608 := rfl
  obtain ⟨h1, h2⟩ := hfit
  have hlt : cut.length < 4 + payload.length := by
    rw [← length_frame]
    exact lt_of_le_of_ne hcut.length_le fun h => hne (hcut.eq_of_length h)
  subst hrec
  unfold readRequest
  by_cases h4 : (received events).length < 4
  · obtain ⟨rest, hshort⟩ := readExact_short hs ht h4 []
    simp only [hshort]
    exact ⟨_, _, Or.inl rfl, rfl⟩
  · obtain ⟨mid, hmid, hdrop, hheader⟩ := readExact_smooth hs t (n := 4) (by omega) []
    have htake : (received events).take 4 = be32 payload.length := by
      obtain ⟨tail, htail⟩ := hcut
      have h := congrArg (List.take 4) htail
      rw [List.take_append_of_le_length (by omega)] at h
      rw [h, frame, take_be32_append]
    rw [htake, List.nil_append] at hheader
    obtain ⟨rest, hshort⟩ := readExact_short hmid ht (n := payload.length)
      (by rw [hdrop, List.length_drop]; omega) []
    simp only [hheader, ofBe_be32 (show payload.length < 2 ^ 32 by omega), hshort]
    rw [if_neg (by omega)]
    exact ⟨_, _, Or.inr rfl, rfl⟩

/-- A length out of bounds is not a request. -/
theorem readRequest_badLength {len : ℕ} (hlen : len = 0 ∨ maxFrameBytes < len)
    (h32 : len < 2 ^ 32) {rest : List UInt8} {events : List ReadEvent} (hs : Smooth events)
    (hrec : received events = be32 len ++ rest) (t : List ReadEvent) (writes : List WriteEvent)
    (sent : List UInt8) : ∃ peer,
      readRequest ⟨events ++ t, writes, sent⟩ = (.error (.badLength len), peer) := by
  obtain ⟨mid, -, -, hheader⟩ := readExact_smooth hs t (n := 4)
    (by rw [hrec, List.length_append, length_be32]; omega) []
  have htake : (received events).take 4 = be32 len := by
    rw [hrec, take_be32_append]
  rw [htake, List.nil_append] at hheader
  simp only [readRequest, hheader, ofBe_be32 h32]
  have hbad : len = 0 ∨ len > 8 * 1024 * 1024 := hlen
  rw [if_pos hbad]
  exact ⟨_, rfl⟩

/-! ### Connections -/

variable {server}

/-- A round that reads no request ends the connection without a call. -/
theorem handleClient_error {i : ℕ} (hrun : server.running i = true) {st : σ} {peer next : Peer}
    {exit : Exit} (h : readRequest peer = (.error exit, next)) :
    server.handleClient i st peer = ⟨[], st, next, exit⟩ := by
  rw [handleClient, if_neg (by simp [hrun])]
  split
  · rename_i e p heq
    rw [h] at heq
    obtain ⟨he, rfl⟩ := Prod.mk.injEq .. ▸ heq
    rw [Except.error.inj he]
  · rename_i heq
    rw [h] at heq
    cases heq

/-- A round that reads a request and writes a response. -/
theorem handleClient_ok {i : ℕ} (hrun : server.running i = true)
    {handler : σ → List UInt8 → List UInt8 × σ} (hh : server.handler = some handler) {st : σ}
    {peer next after : Peer} {payload : List UInt8} (h : readRequest peer = (.ok payload, next))
    (hr : respond (handler st payload).1 next = (none, after)) :
    server.handleClient i st peer =
      prepend [payload] (server.handleClient (i + 1) (handler st payload).2 after) := by
  rw [handleClient, if_neg (by simp [hrun])]
  split
  · rename_i heq
    rw [h] at heq
    cases heq
  · rename_i p q heq
    rw [h] at heq
    obtain ⟨hp, rfl⟩ := Prod.mk.injEq .. ▸ heq
    obtain rfl := Except.ok.inj hp
    rw [call_of_handler server hh]
    simp only
    split
    · rename_i hs
      rw [hr] at hs
      cases hs
    · rename_i hs
      rw [hr] at hs
      obtain ⟨-, rfl⟩ := Prod.mk.injEq .. ▸ hs
      rfl

theorem prepend_prepend (xs ys : List (List UInt8)) (served : Served σ) :
    prepend xs (prepend ys served) = prepend (xs ++ ys) served := by
  simp only [prepend, List.append_assoc]

/-- Over a stream that starts with frames the handler is called on their payloads, in order, and
the connection goes on with the bytes after them. -/
theorem handleClient_frames (hrun : ∀ i, server.running i = true)
    {handler : σ → List UInt8 → List UInt8 × σ} (hh : server.handler = some handler)
    (hresp : ∀ st payload, (handler st payload).1 ≠ []) {payloads : List (List UInt8)}
    (hfit : ∀ p ∈ payloads, Fits p) (i : ℕ) (st : σ) {events : List ReadEvent}
    (hs : Smooth events) {rest : List UInt8}
    (hrec : received events = payloads.flatMap frame ++ rest) (t : List ReadEvent)
    {writes : List WriteEvent} (hw : Writable writes) (sent : List UInt8) :
    ∃ j st' after writes' sent', Smooth after ∧ received after = rest ∧ Writable writes' ∧
      server.handleClient i st ⟨events ++ t, writes, sent⟩ =
        prepend payloads (server.handleClient j st' ⟨after ++ t, writes', sent'⟩) := by
  induction payloads generalizing i st events writes sent with
  | nil => exact ⟨i, st, events, writes, sent, hs, hrec, hw, rfl⟩
  | cons p payloads ih =>
    obtain ⟨hp, hfit⟩ := List.forall_mem_cons.1 hfit
    rw [List.flatMap_cons, List.append_assoc] at hrec
    obtain ⟨mid, hmid, hmidrec, hread⟩ := readRequest_frame hp hs hrec t writes sent
    obtain ⟨w, hw1, hsend⟩ : ∃ w, Writable w ∧
        respond (handler st p).1 ⟨mid ++ t, writes, sent⟩ =
          (none, ⟨mid ++ t, w, sent ++ frame (handler st p).1⟩) :=
      respond_writable (hresp st p) hw sent
    obtain ⟨j, st', after, w', sent', hafter, hafterrec, hw', heq⟩ :=
      ih hfit (i + 1) (handler st p).2 hmid hmidrec hw1 _
    refine ⟨j, st', after, w', sent', hafter, hafterrec, hw', ?_⟩
    rw [handleClient_ok (hrun i) hh hread hsend, heq, prepend_prepend, List.singleton_append]

/-- What `encodeFrame` writes is the frame of its payload. -/
theorem encodeFrame_eq {type : UInt8} {body : JString}
    (h : (type :: utf8 body).length ≤ maxFrameBytes) :
    encodeFrame type body = some (frame (type :: utf8 body)) := if_pos h

/-- **However the stream of encoded requests is cut into chunks, the handler is called on exactly
the requests, in order; a frame that is cut off is not handed to it, and a length of zero or above
the limit ends the connection.** -/
theorem handleClient_roundTrip (hrun : ∀ i, server.running i = true)
    {handler : σ → List UInt8 → List UInt8 × σ} (hh : server.handler = some handler)
    (hresp : ∀ st payload, (handler st payload).1 ≠ []) {payloads : List (List UInt8)}
    (hfit : ∀ p ∈ payloads, Fits p) (st : σ) {events : List ReadEvent} (hs : Smooth events)
    {writes : List WriteEvent} (hw : Writable writes) (sent : List UInt8) :
    (∀ type body, (type :: utf8 body).length ≤ maxFrameBytes →
      encodeFrame type body = some (frame (type :: utf8 body))) ∧
    (∀ further cut t, Fits further → cut <+: frame further → cut ≠ frame further → Stops t →
      received events = payloads.flatMap frame ++ cut →
      (server.handleClient 0 st ⟨events ++ t, writes, sent⟩).calls = payloads) ∧
    (∀ len rest t, len = 0 ∨ maxFrameBytes < len → len < 2 ^ 32 →
      received events = payloads.flatMap frame ++ (be32 len ++ rest) →
      (server.handleClient 0 st ⟨events ++ t, writes, sent⟩).calls = payloads ∧
        (server.handleClient 0 st ⟨events ++ t, writes, sent⟩).exit = .badLength len) := by
  refine ⟨fun type body => encodeFrame_eq, ?_, ?_⟩
  · intro further cut t hfurther hcut hne ht hrec
    obtain ⟨j, st', after, w', sent', hafter, hafterrec, -, heq⟩ :=
      handleClient_frames hrun hh hresp hfit 0 st hs hrec t hw sent
    obtain ⟨exit, peer, -, hread⟩ :=
      readRequest_cut hfurther hcut hne hafter ht hafterrec w' sent'
    rw [heq, handleClient_error (hrun j) hread]
    exact List.append_nil payloads
  · intro len rest t hlen h32 hrec
    obtain ⟨j, st', after, w', sent', hafter, hafterrec, -, heq⟩ :=
      handleClient_frames hrun hh hresp hfit 0 st hs hrec t hw sent
    obtain ⟨peer, hread⟩ := readRequest_badLength hlen h32 hafter hafterrec t w' sent'
    rw [heq, handleClient_error (hrun j) hread]
    exact ⟨List.append_nil payloads, rfl⟩

/-- Two requests and the start of a third, in chunks that straddle the frames, with
interruptions. -/
theorem roundTrip_pings :
    (SocketServer.handleClient ⟨some fun (n : ℕ) p => (0 :: p, n + 1), fun _ => true⟩ 0 0
      ⟨[.chunk [0, 0], .pollInterrupted, .chunk [0, 1, 4, 0, 0, 0], .readInterrupted,
        .chunk [2, 4, 65, 0, 0, 0]] ++ [], [.interrupted, .wrote 2], []⟩).calls =
      [[4], [4, 65]] := by
  have hfits : ∀ p : List UInt8, 1 ≤ p.length → p.length ≤ 2 → Fits p :=
    fun p h1 h2 => ⟨h1, h2.trans (by decide)⟩
  have hpayloads : ∀ p ∈ ([[4], [4, 65]] : List (List UInt8)), Fits p := by
    intro p hp
    rcases List.mem_pair.1 hp with rfl | rfl
    · exact hfits [4] (by decide) (by decide)
    · exact hfits [4, 65] (by decide) (by decide)
  refine (handleClient_roundTrip (fun _ => rfl) rfl (fun _ p => List.cons_ne_nil 0 p) hpayloads 0
    ?_ ?_ []).2.1 [4] [0, 0, 0] [] (hfits [4] (by decide) (by decide)) (by decide) (by decide)
    trivial rfl
  · simp [Smooth]
  · simp [Writable]

end SocketServer

end AstraVeil.Daemon
