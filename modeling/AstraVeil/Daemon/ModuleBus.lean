import AstraVeil.Lib.Runs
import AstraVeil.Lib.Finmap

/-!
# The bus between modules

`daemon/src/ipc/module_bus.cpp`: direct and broadcast messages, one queue for each recipient.  The
mutex makes every call one step.  Strings are byte strings, counters have 64 bits, and the two
readings of the clock in a `send` are part of the call.

`Ledger` is what somebody sees who knows the calls and their results only: which messages were
accepted for a recipient, which it has polled, who is subscribed.

* `send_cases`: the two ways through `send`;
* `agrees_step`: bus and ledger agree after every call;
* `delivery`: the resulting law over all sequences of calls.
-/

namespace AstraVeil.Daemon

open Finmaps

/-- A `std::string`. -/
abbrev Bytes := List UInt8

/-- `ModuleMessage`. -/
structure ModuleMessage where
  senderId : Bytes
  recipientId : Bytes
  topic : Bytes
  payload : Bytes
  timestampMs : UInt64
  sequence : UInt64
  deriving DecidableEq

/-- `BusStats`. -/
structure BusStats where
  totalSent : UInt64
  totalDelivered : UInt64
  totalRejected : UInt64
  totalRateLimited : UInt64

/-- `ModuleBus`. -/
structure ModuleBus where
  queues : Map Bytes (List ModuleMessage)
  subscriptions : Map Bytes (List Bytes)
  rateLimits : Map Bytes (UInt64 × UInt32)
  sequences : Map Bytes UInt64
  stats : BusStats

namespace ModuleBus

/-- A new bus. -/
def empty : ModuleBus := ⟨∅, ∅, ∅, ∅, ⟨0, 0, 0, 0⟩⟩

/-- `MAX_PAYLOAD_BYTES`. -/
def maxPayloadBytes : ℕ := 64 * 1024

/-- `MAX_MESSAGES_PER_SEC`. -/
def maxMessagesPerSec : UInt32 := 100

/-- `queues_[id]`. -/
def queue (b : ModuleBus) (id : Bytes) : List ModuleMessage := (b.queues.lookup id).getD []

/-- `subscriptions_[topic]`. -/
def subscribers (b : ModuleBus) (topic : Bytes) : List Bytes :=
  (b.subscriptions.lookup topic).getD []

/-- `sequences_[id]`. -/
def sequenceOf (b : ModuleBus) (id : Bytes) : UInt64 := (b.sequences.lookup id).getD 0

/-- `checkRateLimit`. -/
def checkRateLimit (b : ModuleBus) (moduleId : Bytes) (now : UInt64) : Bool × ModuleBus :=
  let (windowStart, count) := (b.rateLimits.lookup moduleId).getD (0, 0)
  if now - windowStart ≥ 1000 then
    (true, { b with rateLimits := b.rateLimits.insert moduleId (now, 1) })
  else if count ≥ maxMessagesPerSec then
    (false, { b with rateLimits := b.rateLimits.insert moduleId (windowStart, count) })
  else (true, { b with rateLimits := b.rateLimits.insert moduleId (windowStart, count + 1) })

/-- `stats_.total_rejected++`, and `false`. -/
def reject (b : ModuleBus) : Bool × ModuleBus :=
  (false, { b with stats := { b.stats with totalRejected := b.stats.totalRejected + 1 } })

/-- A message is pushed onto a queue and counted. -/
def push (b : ModuleBus) (id : Bytes) (m : ModuleMessage) : ModuleBus :=
  { b with
    queues := b.queues.insert id (b.queue id ++ [m])
    stats := { b.stats with totalDelivered := b.stats.totalDelivered + 1 } }

/-- The loop over the subscribers. -/
def broadcast (b : ModuleBus) (m : ModuleMessage) (subs : List Bytes) : ModuleBus :=
  subs.foldl (fun b sub => if sub = m.senderId then b else b.push sub m) b

/-- The message gets the next number of its sender and a time stamp. -/
def stamp (b : ModuleBus) (msg : ModuleMessage) (now : UInt64) : ModuleMessage × ModuleBus :=
  let seq := b.sequenceOf msg.senderId + 1
  ({ msg with sequence := seq, timestampMs := now },
    { b with sequences := b.sequences.insert msg.senderId seq })

/-- The end of `send`, with the stamped message. -/
def route (b : ModuleBus) (m : ModuleMessage) (recipientHasToken recipientSubscribed : Bool) :
    Bool × ModuleBus :=
  if m.recipientId = [] then
    if b.subscribers m.topic = [] then b.reject
    else (true, b.broadcast m (b.subscribers m.topic))
  else if recipientHasToken = false then b.reject
  else if recipientSubscribed = false then b.reject
  else (true, b.push m.recipientId m)

/-- `send`; the clock is read by `checkRateLimit` and once more for the time stamp. -/
def send (b : ModuleBus) (msg : ModuleMessage)
    (senderHasToken recipientHasToken recipientSubscribed : Bool) (rateNow stampNow : UInt64) :
    Bool × ModuleBus :=
  let b := { b with stats := { b.stats with totalSent := b.stats.totalSent + 1 } }
  if msg.payload.length > maxPayloadBytes then b.reject
  else if senderHasToken = false then b.reject
  else
    match b.checkRateLimit msg.senderId rateNow with
    | (false, b) =>
        (false, { b with
          stats := { b.stats with totalRateLimited := b.stats.totalRateLimited + 1 } })
    | (true, b) =>
        let (stamped, b) := b.stamp msg stampNow
        b.route stamped recipientHasToken recipientSubscribed

/-- The loop of `poll`. -/
def pollLoop (maxMessages : ℕ) : List ModuleMessage → List ModuleMessage →
    List ModuleMessage × List ModuleMessage
  | result, [] => (result, [])
  | result, m :: rest =>
      if result.length < maxMessages then pollLoop maxMessages (result ++ [m]) rest
      else (result, m :: rest)

/-- `poll`. -/
def poll (b : ModuleBus) (moduleId : Bytes) (maxMessages : ℕ) : List ModuleMessage × ModuleBus :=
  match b.queues.lookup moduleId with
  | none => ([], b)
  | some messages =>
      let (result, rest) := pollLoop maxMessages [] messages
      (result, { b with queues := b.queues.insert moduleId rest })

/-- `subscribe`. -/
def subscribe (b : ModuleBus) (moduleId topic : Bytes) : ModuleBus :=
  let subs := b.subscribers topic
  { b with
    subscriptions := b.subscriptions.insert topic
      (if subs.contains moduleId then subs else subs ++ [moduleId]) }

/-- `unsubscribe`. -/
def unsubscribe (b : ModuleBus) (moduleId topic : Bytes) : ModuleBus :=
  match b.subscriptions.lookup topic with
  | none => b
  | some subs =>
      { b with subscriptions := b.subscriptions.insert topic (subs.filter (· ≠ moduleId)) }

/-! ### Calls -/

/-- A call of the bus. -/
inductive Call
  | send (msg : ModuleMessage) (senderHasToken recipientHasToken recipientSubscribed : Bool)
      (rateNow stampNow : UInt64)
  | poll (moduleId : Bytes) (maxMessages : ℕ)
  | subscribe (moduleId topic : Bytes)
  | unsubscribe (moduleId topic : Bytes)

/-- What a call returns. -/
inductive Result
  | sent (accepted : Bool)
  | polled (messages : List ModuleMessage)
  | void

/-- One call. -/
def call (b : ModuleBus) : Call → Result × ModuleBus
  | .send msg st rt rs rateNow stampNow =>
      let (ok, b) := b.send msg st rt rs rateNow stampNow
      (.sent ok, b)
  | .poll moduleId maxMessages =>
      let (ms, b) := b.poll moduleId maxMessages
      (.polled ms, b)
  | .subscribe moduleId topic => (.void, b.subscribe moduleId topic)
  | .unsubscribe moduleId topic => (.void, b.unsubscribe moduleId topic)

/-! ### The ledger -/

/-- What the calls and their results tell. -/
structure Ledger where
  /-- The messages a recipient has polled. -/
  polled : Bytes → List ModuleMessage
  /-- The messages accepted for a recipient, without their numbers. -/
  accepted : Bytes → List ModuleMessage
  /-- Whether a module is subscribed to a topic. -/
  subscribed : Bytes → Bytes → Bool
  /-- The number of sends, of sends that returned `true`, and of messages polled. -/
  sends : ℕ
  acceptedSends : ℕ
  polls : ℕ

/-- Nothing has happened. -/
def Ledger.empty : Ledger := ⟨fun _ => [], fun _ => [], fun _ _ => false, 0, 0, 0⟩

/-- A message without its number. -/
def unnumbered (m : ModuleMessage) : ModuleMessage := { m with sequence := 0 }

/-- Whether an accepted message is for the recipient. -/
def Ledger.isFor (o : Ledger) (msg : ModuleMessage) (r : Bytes) : Bool :=
  if msg.recipientId = [] then o.subscribed r msg.topic && decide (r ≠ msg.senderId)
  else decide (r = msg.recipientId)

/-- A call and its result are noted. -/
def Ledger.note (o : Ledger) : Call → Result → Ledger
  | .send msg _ _ _ _ stampNow, .sent ok =>
      { o with
        sends := o.sends + 1
        acceptedSends := o.acceptedSends + if ok then 1 else 0
        accepted := fun r => if ok && o.isFor msg r then
          o.accepted r ++ [unnumbered { msg with timestampMs := stampNow }] else o.accepted r }
  | .poll moduleId _, .polled ms =>
      { o with
        polled := fun r => if r = moduleId then o.polled r ++ ms else o.polled r
        polls := o.polls + ms.length }
  | .subscribe moduleId topic, _ =>
      { o with
        subscribed := fun r t => if r = moduleId ∧ t = topic then true else o.subscribed r t }
  | .unsubscribe moduleId topic, _ =>
      { o with
        subscribed := fun r t => if r = moduleId ∧ t = topic then false else o.subscribed r t }
  | _, _ => o

/-- One call, noted. -/
def step (s : ModuleBus × Ledger) (c : Call) : ModuleBus × Ledger :=
  let (result, b) := s.1.call c
  (b, s.2.note c result)

/-- The number of queued messages. -/
def queued (b : ModuleBus) : ℕ := total List.length b.queues

/-- The numbers of a sender's messages. -/
def numbers (sender : Bytes) (ms : List ModuleMessage) : List UInt64 :=
  (ms.filter (·.senderId = sender)).map (·.sequence)

/-! ### What one call does -/

theorem queue_insert (b : ModuleBus) (id r : Bytes) (ms : List ModuleMessage) :
    ({ b with queues := b.queues.insert id ms } : ModuleBus).queue r =
      if r = id then ms else b.queue r := by
  unfold queue
  split_ifs with h
  · rw [h, AList.lookup_insert]
    rfl
  · rw [AList.lookup_insert_ne h]

/-- Everything but the queues and the count of delivered messages is as before. -/
structure SameRest (b b' : ModuleBus) : Prop where
  subscriptions : b'.subscriptions = b.subscriptions
  sequences : b'.sequences = b.sequences
  totalSent : b'.stats.totalSent = b.stats.totalSent
  totalRejected : b'.stats.totalRejected = b.stats.totalRejected
  totalRateLimited : b'.stats.totalRateLimited = b.stats.totalRateLimited

/-- A message was delivered to the recipients for which `goes` holds. -/
structure Delivered (b b' : ModuleBus) (m : ModuleMessage) (goes : Bytes → Prop) : Prop where
  rest : SameRest b b'
  inside : ∀ r, goes r → b'.queue r = b.queue r ++ [m]
  outside : ∀ r, ¬ goes r → b'.queue r = b.queue r
  count : ∃ n, b'.stats.totalDelivered = b.stats.totalDelivered + UInt64.ofNat n ∧
    b'.queued = b.queued + n

theorem delivered_push (b : ModuleBus) (id : Bytes) (m : ModuleMessage) :
    Delivered b (b.push id m) m (· = id) where
  rest := ⟨rfl, rfl, rfl, rfl, rfl⟩
  inside := by
    rintro r rfl
    exact (queue_insert b r r _).trans (if_pos rfl)
  outside := by
    intro r hr
    exact (queue_insert b id r _).trans (if_neg hr)
  count := by
    refine ⟨1, rfl, ?_⟩
    have h := total_insert List.length b.queues id (b.queue id ++ [m])
    have hq : ((b.queues.lookup id).map List.length).getD 0 = (b.queue id).length := by
      unfold queue
      cases b.queues.lookup id <;> rfl
    rw [hq, List.length_append, List.length_singleton] at h
    have hb : (b.push id m).queued =
        total List.length (b.queues.insert id (b.queue id ++ [m])) := rfl
    rw [hb, queued]
    omega

theorem delivered_broadcast (b : ModuleBus) (m : ModuleMessage) {subs : List Bytes}
    (hnd : subs.Nodup) :
    Delivered b (b.broadcast m subs) m (fun r => r ∈ subs ∧ r ≠ m.senderId) := by
  induction subs generalizing b with
  | nil =>
    exact ⟨⟨rfl, rfl, rfl, rfl, rfl⟩, fun r h => absurd h.1 List.not_mem_nil, fun _ _ => rfl,
      0, by simp [broadcast], rfl⟩
  | cons sub subs ih =>
    obtain ⟨hsub, hnd⟩ := List.nodup_cons.1 hnd
    by_cases hs : sub = m.senderId
    · have hstep : b.broadcast m (sub :: subs) = b.broadcast m subs := by
        simp [broadcast, hs]
      rw [hstep]
      have h := ih b hnd
      refine ⟨h.rest, fun r hr => h.inside r ⟨?_, hr.2⟩, fun r hr => h.outside r fun hr' => ?_,
        h.count⟩
      · exact (List.mem_cons.1 hr.1).resolve_left fun e => hr.2 (e.trans hs)
      · exact hr ⟨List.mem_cons_of_mem _ hr'.1, hr'.2⟩
    · have hstep : b.broadcast m (sub :: subs) = (b.push sub m).broadcast m subs := by
        simp [broadcast, hs]
      rw [hstep]
      have hp := delivered_push b sub m
      have h := ih (b.push sub m) hnd
      refine ⟨⟨h.rest.1.trans hp.rest.1, h.rest.2.trans hp.rest.2, h.rest.3.trans hp.rest.3,
        h.rest.4.trans hp.rest.4, h.rest.5.trans hp.rest.5⟩, ?_, ?_, ?_⟩
      · rintro r ⟨hr, hne⟩
        rcases List.mem_cons.1 hr with rfl | hr
        · rw [h.outside r fun hr => hsub hr.1, hp.inside r rfl]
        · rw [h.inside r ⟨hr, hne⟩, hp.outside r fun e => hsub (e ▸ hr)]
      · intro r hr
        rw [h.outside r fun hr' => hr ⟨List.mem_cons_of_mem _ hr'.1, hr'.2⟩]
        refine hp.outside r ?_
        rintro rfl
        exact hr ⟨List.mem_cons_self, hs⟩
      · obtain ⟨n, hn, hq⟩ := h.count
        obtain ⟨k, hk, hqk⟩ := hp.count
        refine ⟨k + n, ?_, ?_⟩
        · rw [hn, hk, UInt64.ofNat_add, UInt64.add_assoc]
        · rw [hq, hqk]
          omega

/-- The recipients of an accepted message. -/
def GoesTo (b : ModuleBus) (msg : ModuleMessage) (r : Bytes) : Prop :=
  if msg.recipientId = [] then r ∈ b.subscribers msg.topic ∧ r ≠ msg.senderId
  else r = msg.recipientId

/-- The message as `send` queues it. -/
def stamped (b : ModuleBus) (msg : ModuleMessage) (now : UInt64) : ModuleMessage :=
  { msg with sequence := b.sequenceOf msg.senderId + 1, timestampMs := now }

/-- A `send` that returned `false`. -/
structure Refused (b b' : ModuleBus) (sender : Bytes) : Prop where
  queues : b'.queues = b.queues
  subscriptions : b'.subscriptions = b.subscriptions
  sequences : b'.sequences = b.sequences ∨
    b'.sequences = b.sequences.insert sender (b.sequenceOf sender + 1)
  totalSent : b'.stats.totalSent = b.stats.totalSent + 1
  totalDelivered : b'.stats.totalDelivered = b.stats.totalDelivered
  counted : b'.stats.totalRejected = b.stats.totalRejected + 1 ∧
      b'.stats.totalRateLimited = b.stats.totalRateLimited ∨
    b'.stats.totalRejected = b.stats.totalRejected ∧
      b'.stats.totalRateLimited = b.stats.totalRateLimited + 1

/-- A `send` that returned `true`. -/
structure Accepted (b b' : ModuleBus) (msg : ModuleMessage) (now : UInt64) : Prop where
  subscriptions : b'.subscriptions = b.subscriptions
  sequences : b'.sequences = b.sequences.insert msg.senderId (b.sequenceOf msg.senderId + 1)
  totalSent : b'.stats.totalSent = b.stats.totalSent + 1
  totalRejected : b'.stats.totalRejected = b.stats.totalRejected
  totalRateLimited : b'.stats.totalRateLimited = b.stats.totalRateLimited
  inside : ∀ r, b.GoesTo msg r → b'.queue r = b.queue r ++ [b.stamped msg now]
  outside : ∀ r, ¬ b.GoesTo msg r → b'.queue r = b.queue r
  count : ∃ n, b'.stats.totalDelivered = b.stats.totalDelivered + UInt64.ofNat n ∧
    b'.queued = b.queued + n

theorem checkRateLimit_eq (b : ModuleBus) (moduleId : Bytes) (now : UInt64) :
    ∃ ok limits, b.checkRateLimit moduleId now = (ok, { b with rateLimits := limits }) := by
  unfold checkRateLimit
  simp only
  split_ifs
  · exact ⟨_, _, rfl⟩
  · exact ⟨_, _, rfl⟩
  · exact ⟨_, _, rfl⟩

/-- The check neither reads nor writes the statistics. -/
theorem checkRateLimit_stats (b : ModuleBus) (st : BusStats) (id : Bytes) (now : UInt64) :
    ({ b with stats := st } : ModuleBus).checkRateLimit id now =
      ((b.checkRateLimit id now).1, { (b.checkRateLimit id now).2 with stats := st }) := by
  unfold checkRateLimit
  simp only
  split_ifs <;> rfl

theorem route_cases (b : ModuleBus) (m : ModuleMessage) (rt rs : Bool)
    (hnd : (b.subscribers m.topic).Nodup) :
    b.route m rt rs = b.reject ∨
      ∃ b', b.route m rt rs = (true, b') ∧ Delivered b b' m (b.GoesTo m) := by
  unfold route
  split_ifs with hrec
  · exact .inl rfl
  · refine .inr ⟨_, rfl, ?_⟩
    have hgoes : b.GoesTo m = fun r => r ∈ b.subscribers m.topic ∧ r ≠ m.senderId := by
      funext r
      rw [GoesTo, if_pos hrec]
    rw [hgoes]
    exact delivered_broadcast b m hnd
  · exact .inl rfl
  · exact .inl rfl
  · refine .inr ⟨_, rfl, ?_⟩
    have hgoes : b.GoesTo m = fun r => r = m.recipientId := by
      funext r
      rw [GoesTo, if_neg hrec]
    rw [hgoes]
    exact delivered_push b m.recipientId m

/-- The two ways through `send`; a broadcast needs a list of subscribers without repetition. -/
theorem send_cases {b : ModuleBus} (hnd : ∀ t, (b.subscribers t).Nodup) (msg : ModuleMessage)
    (st rt rs : Bool) (t₁ t₂ : UInt64) :
    (∃ b', b.send msg st rt rs t₁ t₂ = (false, b') ∧ Refused b b' msg.senderId) ∨
    (∃ b', b.send msg st rt rs t₁ t₂ = (true, b') ∧ Accepted b b' msg t₂) := by
  obtain ⟨ok, limits, hc⟩ := checkRateLimit_eq
    { b with stats := { b.stats with totalSent := b.stats.totalSent + 1 } } msg.senderId t₁
  unfold send
  simp only
  by_cases hlen : msg.payload.length > maxPayloadBytes
  · rw [if_pos hlen]
    exact .inl ⟨_, rfl, rfl, rfl, .inl rfl, rfl, rfl, .inl ⟨rfl, rfl⟩⟩
  by_cases hst : st = false
  · rw [if_neg hlen, if_pos hst]
    exact .inl ⟨_, rfl, rfl, rfl, .inl rfl, rfl, rfl, .inl ⟨rfl, rfl⟩⟩
  rw [if_neg hlen, if_neg hst, hc]
  cases ok with
  | false => exact .inl ⟨_, rfl, rfl, rfl, .inl rfl, rfl, rfl, .inr ⟨rfl, rfl⟩⟩
  | true =>
    -- from here on the sender's number is used up, whether the message is accepted or not
    rcases route_cases { b with
        stats := { b.stats with totalSent := b.stats.totalSent + 1 }
        rateLimits := limits
        sequences := b.sequences.insert msg.senderId (b.sequenceOf msg.senderId + 1) }
      (b.stamped msg t₂) rt rs (hnd msg.topic) with h | ⟨b', h, hd⟩
    · exact .inl ⟨_, h, rfl, rfl, .inr rfl, rfl, rfl, .inl ⟨rfl, rfl⟩⟩
    · exact .inr ⟨b', h, hd.rest.1, hd.rest.2, hd.rest.3, hd.rest.4, hd.rest.5, hd.inside,
        hd.outside, hd.count⟩

theorem pollLoop_eq (n : ℕ) (result q : List ModuleMessage) :
    ∃ taken rest, pollLoop n result q = (result ++ taken, rest) ∧ q = taken ++ rest := by
  induction q generalizing result with
  | nil => exact ⟨[], [], by simp [pollLoop], rfl⟩
  | cons m q ih =>
    unfold pollLoop
    split_ifs with h
    · obtain ⟨taken, rest, heq, rfl⟩ := ih (result ++ [m])
      exact ⟨m :: taken, rest, by rw [heq]; simp, rfl⟩
    · exact ⟨[], m :: q, by simp, rfl⟩

/-- What `poll` returns is the front of the queue, and the rest stays. -/
theorem poll_spec (b : ModuleBus) (id : Bytes) (n : ℕ) :
    ∃ q, (b.poll id n).2 = { b with queues := q } ∧
      b.queue id = (b.poll id n).1 ++ (b.poll id n).2.queue id ∧
      (∀ r, r ≠ id → (b.poll id n).2.queue r = b.queue r) ∧
      b.queued = (b.poll id n).1.length + (b.poll id n).2.queued := by
  unfold poll
  cases hl : b.queues.lookup id with
  | none => exact ⟨b.queues, rfl, by simp, fun _ _ => rfl, by simp⟩
  | some q =>
    obtain ⟨taken, rest, heq, hq⟩ := pollLoop_eq n [] q
    have hid : b.queue id = q := by rw [queue, hl]; rfl
    simp only [heq, List.nil_append]
    refine ⟨_, rfl, ?_, fun r hr => ?_, ?_⟩
    · rw [queue_insert, if_pos rfl, hid, hq]
    · rw [queue_insert, if_neg hr]
    · have ht := total_insert List.length b.queues id rest
      rw [hl, hq, Option.map_some, Option.getD_some, List.length_append] at ht
      show total List.length b.queues = taken.length + total List.length (b.queues.insert id rest)
      omega

/-! ### Bus and ledger agree -/

/-- The numbers of a sender's messages to a recipient increase, and stay within the number of
sends. -/
structure Numbered (b : ModuleBus) (o : Ledger) : Prop where
  bound : ∀ x, (b.sequenceOf x).toNat ≤ o.sends
  increasing : ∀ x r, (numbers x (o.polled r ++ b.queue r)).Pairwise (· < ·)
  used : ∀ x r, ∀ n ∈ numbers x (o.polled r ++ b.queue r), n ≤ b.sequenceOf x

/-- The bus is as the ledger says. -/
structure Agrees (b : ModuleBus) (o : Ledger) : Prop where
  nodup : ∀ t, (b.subscribers t).Nodup
  subscribed : ∀ r t, o.subscribed r t = true ↔ r ∈ b.subscribers t
  fifo : ∀ r, (o.polled r ++ b.queue r).map unnumbered = o.accepted r
  delivered : b.stats.totalDelivered = UInt64.ofNat (o.polls + b.queued)
  sent : b.stats.totalSent = UInt64.ofNat o.sends
  refused : ∃ rejected limited, b.stats.totalRejected = UInt64.ofNat rejected ∧
    b.stats.totalRateLimited = UInt64.ofNat limited ∧
    o.sends = o.acceptedSends + rejected + limited
  numbered : o.sends < 2 ^ 64 → Numbered b o

theorem agrees_empty : Agrees empty Ledger.empty where
  nodup t := List.nodup_nil
  subscribed r t := by simp [Ledger.empty, empty, subscribers]
  fifo r := rfl
  delivered := rfl
  sent := rfl
  refused := ⟨0, 0, rfl, rfl, rfl⟩
  numbered _ := ⟨fun x => Nat.le_refl 0, fun x r => List.Pairwise.nil, fun x r n hn => by cases hn⟩

theorem sequenceOf_insert {b b' : ModuleBus} {x y : Bytes} {n : UInt64}
    (h : b'.sequences = b.sequences.insert x n) :
    b'.sequenceOf y = if y = x then n else b.sequenceOf y := by
  unfold sequenceOf
  rw [h]
  split_ifs with hy
  · rw [hy, AList.lookup_insert]
    rfl
  · rw [AList.lookup_insert_ne hy]

/-- The next number of a sender, as long as there are fewer than 2⁶⁴ sends. -/
theorem toNat_next {b : ModuleBus} {o : Ledger} (h : Numbered b o) (hs : o.sends + 1 < 2 ^ 64)
    (x : Bytes) : (b.sequenceOf x + 1).toNat = (b.sequenceOf x).toNat + 1 := by
  have hb := h.bound x
  rw [UInt64.toNat_add]
  exact Nat.mod_eq_of_lt (by simp; omega)

/-- Using up a number keeps the bounds. -/
theorem bounds_next {b b' : ModuleBus} {o : Ledger} {x : Bytes} (h : Numbered b o)
    (hs : o.sends + 1 < 2 ^ 64)
    (hseq : b'.sequences = b.sequences ∨
      b'.sequences = b.sequences.insert x (b.sequenceOf x + 1)) (y : Bytes) :
    (b'.sequenceOf y).toNat ≤ o.sends + 1 ∧ b.sequenceOf y ≤ b'.sequenceOf y := by
  have hb := h.bound y
  rcases hseq with hseq | hseq
  · have he : b'.sequenceOf y = b.sequenceOf y := by rw [sequenceOf, hseq]; rfl
    rw [he]
    exact ⟨by omega, UInt64.le_refl _⟩
  · rw [sequenceOf_insert hseq]
    split_ifs with hy
    · subst hy
      have hn := toNat_next h hs y
      exact ⟨by omega, UInt64.le_iff_toNat_le.2 (by omega)⟩
    · exact ⟨by omega, UInt64.le_refl _⟩

variable {b b' : ModuleBus} {o : Ledger}

theorem isFor_iff (h : Agrees b o) (msg : ModuleMessage) (r : Bytes) :
    o.isFor msg r = true ↔ b.GoesTo msg r := by
  unfold Ledger.isFor GoesTo
  split_ifs
  · rw [Bool.and_eq_true, h.subscribed r msg.topic, decide_eq_true_iff]
  · exact decide_eq_true_iff

theorem agrees_refused (h : Agrees b o) {msg : ModuleMessage} (hr : Refused b b' msg.senderId)
    (st rt rs : Bool) (t₁ t₂ : UInt64) :
    Agrees b' (o.note (.send msg st rt rs t₁ t₂) (.sent false)) := by
  have hq : ∀ r, b'.queue r = b.queue r := fun r => by rw [queue, hr.queues]; rfl
  have hsub : ∀ t, b'.subscribers t = b.subscribers t := fun t => by
    rw [subscribers, hr.subscriptions]
    rfl
  have hqueued : b'.queued = b.queued := by rw [queued, hr.queues]; rfl
  refine ⟨fun t => ?_, fun r t => ?_, fun r => ?_, ?_, ?_, ?_, fun hs => ?_⟩
  · rw [hsub]
    exact h.nodup t
  · rw [hsub]
    exact h.subscribed r t
  · rw [hq]
    exact h.fifo r
  · rw [hr.totalDelivered, hqueued]
    exact h.delivered
  · rw [hr.totalSent, h.sent]
    exact (UInt64.ofNat_add _ 1).symm
  · obtain ⟨rejected, limited, hrej, hlim, hsum⟩ := h.refused
    have hsum' : o.sends + 1 = o.acceptedSends + rejected + limited + 1 := by rw [hsum]
    rcases hr.counted with ⟨h₁, h₂⟩ | ⟨h₁, h₂⟩
    · refine ⟨rejected + 1, limited, ?_, h₂.trans hlim, ?_⟩
      · rw [h₁, hrej, UInt64.ofNat_add]
        rfl
      · show o.sends + 1 = o.acceptedSends + 0 + (rejected + 1) + limited
        omega
    · refine ⟨rejected, limited + 1, h₁.trans hrej, ?_, ?_⟩
      · rw [h₂, hlim, UInt64.ofNat_add]
        rfl
      · show o.sends + 1 = o.acceptedSends + 0 + rejected + (limited + 1)
        omega
  · replace hs : o.sends + 1 < 2 ^ 64 := hs
    have hn := h.numbered (by omega)
    have hb := bounds_next hn hs hr.sequences
    refine ⟨fun x => (hb x).1, fun x r => ?_, fun x r n hmem => ?_⟩
    · rw [hq]
      exact hn.increasing x r
    · rw [hq] at hmem
      exact UInt64.le_trans (hn.used x r n hmem) (hb x).2

theorem numbers_append (x : Bytes) (ms : List ModuleMessage) (m : ModuleMessage) :
    numbers x (ms ++ [m]) = numbers x ms ++ if m.senderId = x then [m.sequence] else [] := by
  unfold numbers
  rw [List.filter_append, List.map_append]
  split_ifs with h
  · simp [h]
  · simp [h]

/-- A message with the next number of its sender goes to the end of a queue. -/
theorem numbers_stamped (hn : Numbered b o) (hs : o.sends + 1 < 2 ^ 64) {msg : ModuleMessage}
    (now : UInt64) (x r : Bytes) :
    (numbers x (o.polled r ++ (b.queue r ++ [b.stamped msg now]))).Pairwise (· < ·) ∧
    ∀ n ∈ numbers x (o.polled r ++ (b.queue r ++ [b.stamped msg now])),
      n ≤ if x = msg.senderId then b.sequenceOf msg.senderId + 1 else b.sequenceOf x := by
  rw [← List.append_assoc, numbers_append]
  by_cases hx : msg.senderId = x
  · subst hx
    have hnext := toNat_next hn hs msg.senderId
    have hused := hn.used msg.senderId r
    have hlt : ∀ n ∈ numbers msg.senderId (o.polled r ++ b.queue r),
        n < b.sequenceOf msg.senderId + 1 := fun n hmem => by
      have hle := UInt64.le_iff_toNat_le.1 (hused n hmem)
      exact UInt64.lt_iff_toNat_lt.2 (by omega)
    rw [if_pos (show (b.stamped msg now).senderId = msg.senderId from rfl), if_pos rfl]
    constructor
    · refine List.pairwise_append.2 ⟨hn.increasing _ r, List.pairwise_singleton _ _, ?_⟩
      intro n hmem k hk
      rw [List.mem_singleton.1 hk]
      exact hlt n hmem
    · intro n hmem
      rcases List.mem_append.1 hmem with hmem | hmem
      · exact UInt64.le_of_lt (hlt n hmem)
      · rw [List.mem_singleton.1 hmem]
        exact UInt64.le_refl _
  · rw [if_neg (show (b.stamped msg now).senderId ≠ x from hx), if_neg (Ne.symm hx),
      List.append_nil]
    exact ⟨hn.increasing x r, hn.used x r⟩

theorem agrees_accepted (h : Agrees b o) {msg : ModuleMessage} {t₂ : UInt64}
    (ha : Accepted b b' msg t₂) (st rt rs : Bool) (t₁ : UInt64) :
    Agrees b' (o.note (.send msg st rt rs t₁ t₂) (.sent true)) := by
  have hsub : ∀ t, b'.subscribers t = b.subscribers t := fun t => by
    rw [subscribers, ha.subscriptions]
    rfl
  refine ⟨fun t => ?_, fun r t => ?_, fun r => ?_, ?_, ?_, ?_, fun hs => ?_⟩
  · rw [hsub]
    exact h.nodup t
  · rw [hsub]
    exact h.subscribed r t
  · show (o.polled r ++ b'.queue r).map unnumbered =
      if (true && o.isFor msg r) = true then
        o.accepted r ++ [unnumbered { msg with timestampMs := t₂ }] else o.accepted r
    rw [Bool.true_and]
    by_cases hr : b.GoesTo msg r
    · rw [if_pos ((isFor_iff h msg r).2 hr), ha.inside r hr, ← List.append_assoc, List.map_append,
        h.fifo r]
      rfl
    · rw [if_neg (mt (isFor_iff h msg r).1 hr), ha.outside r hr]
      exact h.fifo r
  · obtain ⟨n, hn, hqueued⟩ := ha.count
    rw [hn, h.delivered, hqueued, ← UInt64.ofNat_add, Nat.add_assoc]
    rfl
  · rw [ha.totalSent, h.sent]
    exact (UInt64.ofNat_add _ 1).symm
  · obtain ⟨rejected, limited, hrej, hlim, hsum⟩ := h.refused
    refine ⟨rejected, limited, ha.totalRejected.trans hrej, ha.totalRateLimited.trans hlim, ?_⟩
    show o.sends + 1 = o.acceptedSends + 1 + rejected + limited
    omega
  · replace hs : o.sends + 1 < 2 ^ 64 := hs
    have hn := h.numbered (by omega)
    have hb := bounds_next hn hs (.inr ha.sequences)
    refine ⟨fun x => (hb x).1, fun x r => ?_, fun x r n hmem => ?_⟩
    · show (numbers x (o.polled r ++ b'.queue r)).Pairwise (· < ·)
      by_cases hr : b.GoesTo msg r
      · rw [ha.inside r hr]
        exact (numbers_stamped hn hs t₂ x r).1
      · rw [ha.outside r hr]
        exact hn.increasing x r
    · replace hmem : n ∈ numbers x (o.polled r ++ b'.queue r) := hmem
      by_cases hr : b.GoesTo msg r
      · rw [ha.inside r hr] at hmem
        rw [sequenceOf_insert ha.sequences]
        exact (numbers_stamped hn hs t₂ x r).2 n hmem
      · rw [ha.outside r hr] at hmem
        exact UInt64.le_trans (hn.used x r n hmem) (hb x).2

theorem agrees_poll (h : Agrees b o) (id : Bytes) (n : ℕ) :
    Agrees (b.poll id n).2 (o.note (.poll id n) (.polled (b.poll id n).1)) := by
  obtain ⟨q, hb, hid, hother, hqueued⟩ := poll_spec b id n
  have hseq : ∀ x, (b.poll id n).2.sequenceOf x = b.sequenceOf x := fun x => by rw [hb]; rfl
  have hsub : ∀ t, (b.poll id n).2.subscribers t = b.subscribers t := fun t => by rw [hb]; rfl
  have hstats : (b.poll id n).2.stats = b.stats := by rw [hb]
  generalize b.poll id n = p at *
  obtain ⟨ms, b'⟩ := p
  simp only at *
  -- polling moves messages from the queue to the ledger, in their order
  have hmoved : ∀ r, (if r = id then o.polled r ++ ms else o.polled r) ++ b'.queue r =
      o.polled r ++ b.queue r := fun r => by
    split_ifs with hr
    · rw [hr, hid, List.append_assoc]
    · rw [hother r hr]
  refine ⟨fun t => ?_, fun r t => ?_, fun r => ?_, ?_, ?_, ?_, fun hs => ?_⟩
  · rw [hsub]
    exact h.nodup t
  · rw [hsub]
    exact h.subscribed r t
  · exact (congrArg (List.map unnumbered) (hmoved r)).trans (h.fifo r)
  · rw [hstats, h.delivered, hqueued, ← Nat.add_assoc]
    rfl
  · rw [hstats]
    exact h.sent
  · rw [hstats]
    exact h.refused
  · have hn := h.numbered hs
    refine ⟨fun x => ?_, fun x r => ?_, fun x r k hk => ?_⟩
    · rw [hseq]
      exact hn.bound x
    · show (numbers x ((if r = id then o.polled r ++ ms else o.polled r) ++ b'.queue r)).Pairwise
        (· < ·)
      rw [hmoved]
      exact hn.increasing x r
    · replace hk : k ∈ numbers x
        ((if r = id then o.polled r ++ ms else o.polled r) ++ b'.queue r) := hk
      rw [hmoved] at hk
      rw [hseq]
      exact hn.used x r k hk

theorem agrees_subscribers (h : Agrees b o) {id topic : Bytes} {subs : List Bytes}
    (hnd : subs.Nodup) {now : Bool}
    (hmem : ∀ r, r ∈ subs ↔ if r = id then now = true else r ∈ b.subscribers topic) :
    Agrees { b with subscriptions := b.subscriptions.insert topic subs }
      { o with
        subscribed := fun r t => if r = id ∧ t = topic then now else o.subscribed r t } := by
  have hsub : ∀ t, ({ b with subscriptions := b.subscriptions.insert topic subs } :
      ModuleBus).subscribers t = if t = topic then subs else b.subscribers t := fun t => by
    unfold subscribers
    split_ifs with ht
    · rw [ht, AList.lookup_insert]
      rfl
    · rw [AList.lookup_insert_ne ht]
  refine ⟨fun t => ?_, fun r t => ?_, h.fifo, h.delivered, h.sent, h.refused, fun hs => ?_⟩
  · rw [hsub]
    split_ifs
    · exact hnd
    · exact h.nodup t
  · rw [hsub]
    simp only
    by_cases ht : t = topic
    · subst ht
      rw [if_pos rfl, hmem r]
      by_cases hr : r = id
      · simp [hr]
      · simp [hr, h.subscribed r t]
    · rw [if_neg ht, if_neg fun e => ht e.2]
      exact h.subscribed r t
  · have hn := h.numbered hs
    exact ⟨hn.bound, hn.increasing, hn.used⟩

theorem agrees_subscribe (h : Agrees b o) (id topic : Bytes) :
    Agrees (b.subscribe id topic) (o.note (.subscribe id topic) .void) := by
  refine agrees_subscribers h ?_ fun r => ?_
  · split_ifs with hc
    · exact h.nodup topic
    · have hid : id ∉ b.subscribers topic := fun hm => hc (List.contains_iff_mem.2 hm)
      refine List.nodup_append.2 ⟨h.nodup topic, List.nodup_singleton id, ?_⟩
      rintro r hr _ hr' rfl
      exact hid (List.mem_singleton.1 hr' ▸ hr)
  · by_cases hr : r = id
    · subst hr
      rw [if_pos rfl]
      split_ifs with hc
      · simpa using hc
      · simp
    · rw [if_neg hr]
      split_ifs
      · exact Iff.rfl
      · simp [hr]

theorem agrees_unsubscribe (h : Agrees b o) (id topic : Bytes) :
    Agrees (b.unsubscribe id topic) (o.note (.unsubscribe id topic) .void) := by
  unfold unsubscribe
  cases hl : b.subscriptions.lookup topic with
  | none =>
    -- a topic nobody has ever subscribed to has no entry, and nothing is there to remove
    have hsub : b.subscribers topic = [] := by rw [subscribers, hl]; rfl
    refine ⟨h.nodup, fun r t => ?_, h.fifo, h.delivered, h.sent, h.refused, fun hs => ?_⟩
    · show (if r = id ∧ t = topic then false else o.subscribed r t) = true ↔ _
      split_ifs with hr
      · rw [hr.2, hsub]
        simp
      · exact h.subscribed r t
    · have hn := h.numbered hs
      exact ⟨hn.bound, hn.increasing, hn.used⟩
  | some subs =>
    have hsub : b.subscribers topic = subs := by rw [subscribers, hl]; rfl
    refine agrees_subscribers h (List.Nodup.filter _ (hsub ▸ h.nodup topic)) fun r => ?_
    rw [hsub]
    by_cases hr : r = id
    · simp [hr]
    · simp [hr]

/-- **Bus and ledger agree after every call.** -/
theorem agrees_step {s : ModuleBus × Ledger} (h : Agrees s.1 s.2) (c : Call) :
    Agrees (step s c).1 (step s c).2 := by
  unfold step call
  cases c with
  | send msg st rt rs t₁ t₂ =>
    rcases send_cases h.nodup msg st rt rs t₁ t₂ with ⟨b', hb, hr⟩ | ⟨b', hb, ha⟩
    · simp only [hb]
      exact agrees_refused h hr st rt rs t₁ t₂
    · simp only [hb]
      exact agrees_accepted h ha st rt rs t₁
  | poll id n => exact agrees_poll h id n
  | subscribe id topic => exact agrees_subscribe h id topic
  | unsubscribe id topic => exact agrees_unsubscribe h id topic

theorem agrees_run (cs : List Call) :
    Agrees (Runs.run step (empty, Ledger.empty) cs).1
      (Runs.run step (empty, Ledger.empty) cs).2 :=
  Runs.run_invariant (I := fun s : ModuleBus × Ledger => Agrees s.1 s.2)
    (fun _ c h => agrees_step h c) agrees_empty cs

/-- **Every accepted message is delivered once and in order.**  After any calls, with any readings
of the clock: what a recipient has polled, followed by its queue, are the messages accepted for it;
the numbers of one sender's messages increase; and the counters add up. -/
theorem delivery (cs : List Call) :
    let s := Runs.run step (empty, Ledger.empty) cs
    (∀ r, (s.2.polled r ++ s.1.queue r).map unnumbered = s.2.accepted r) ∧
    (s.2.sends < 2 ^ 64 → ∀ x r, (numbers x (s.2.polled r ++ s.1.queue r)).Pairwise (· < ·)) ∧
    (s.2.polls + s.1.queued < 2 ^ 64 →
      s.1.stats.totalDelivered.toNat = s.2.polls + s.1.queued) ∧
    (s.2.sends < 2 ^ 64 →
      s.1.stats.totalSent.toNat = s.2.acceptedSends + s.1.stats.totalRejected.toNat +
        s.1.stats.totalRateLimited.toNat) := by
  intro s
  have h : Agrees s.1 s.2 := agrees_run cs
  refine ⟨h.fifo, fun hs => (h.numbered hs).increasing, fun hd => ?_, fun hs => ?_⟩
  · rw [h.delivered]
    exact UInt64.toNat_ofNat_of_lt' hd
  · obtain ⟨rejected, limited, hrej, hlim, hsum⟩ := h.refused
    have h₁ : rejected < 2 ^ 64 := by omega
    have h₂ : limited < 2 ^ 64 := by omega
    rw [h.sent, hrej, hlim, UInt64.toNat_ofNat_of_lt' hs, UInt64.toNat_ofNat_of_lt' h₁,
      UInt64.toNat_ofNat_of_lt' h₂]
    exact hsum

/-- Two modules subscribe to a topic; the first broadcasts to it, sends to the second directly
and, without a token for the recipient, once more; the second polls one message. -/
def sampleCalls : List Call :=
  [.subscribe [97] [116], .subscribe [98] [116],
    .send ⟨[97], [], [116], [1], 0, 0⟩ true false false 5000 5001,
    .send ⟨[97], [98], [], [2], 0, 0⟩ true true true 5002 5003,
    .send ⟨[97], [98], [], [3], 0, 0⟩ true false true 5004 5005,
    .poll [98] 1]

theorem delivery_sampleCalls :
    (Runs.run step (empty, Ledger.empty) sampleCalls).2.sends = 3 ∧
    (Runs.run step (empty, Ledger.empty) sampleCalls).2.polls = 1 ∧
    (Runs.run step (empty, Ledger.empty) sampleCalls).1.queued = 1 ∧
    (Runs.run step (empty, Ledger.empty) sampleCalls).1.stats.totalDelivered.toNat = 1 + 1 :=
  ⟨by decide, by decide, by decide, (delivery sampleCalls).2.2.1 (by decide)⟩

end ModuleBus

end AstraVeil.Daemon
