import AstraVeil.Daemon.ModuleBus

/-!
# Who receives what on the bus

The four rules that `daemon/include/astra/ipc/module_bus.hpp` states for every message, over all
sequences of calls.  Which modules hold the tokens `ipc_send` and `ipc_receive` may change from call
to call; the caller of `send` passes on what it looked up for the sender and for the recipient.

* `send_eq_true_iff`: the checks of `send`;
* `put_send_iff`: the queues that a `send` puts a message in;
* `guarded_call_iff`: when one call keeps the rules;
* `guarded_run_iff`: the runs that keep them are those whose broadcasts reach holders of the token
  only.
-/

namespace AstraVeil.Daemon.ModuleBus

open Runs

/-- The holders of the two capabilities, at the time of a call. -/
structure Tokens where
  ipcSend : Bytes → Bool
  ipcReceive : Bytes → Bool

/-- What is asked of the bus. -/
inductive Request
  | send (msg : ModuleMessage) (recipientSubscribed : Bool) (rateNow stampNow : UInt64)
  | poll (moduleId : Bytes) (maxMessages : ℕ)
  | subscribe (moduleId topic : Bytes)
  | unsubscribe (moduleId topic : Bytes)

/-- The call that is made: `send` is told whether the sender and the recipient hold their tokens. -/
def Request.call (tokens : Tokens) : Request → Call
  | .send msg recipientSubscribed rateNow stampNow =>
      .send msg (tokens.ipcSend msg.senderId) (tokens.ipcReceive msg.recipientId)
        recipientSubscribed rateNow stampNow
  | .poll moduleId maxMessages => .poll moduleId maxMessages
  | .subscribe moduleId topic => .subscribe moduleId topic
  | .unsubscribe moduleId topic => .unsubscribe moduleId topic

/-- One request, under the tokens of its time. -/
def stepWith (s : ModuleBus × Ledger) (a : Tokens × Request) : ModuleBus × Ledger :=
  step s (a.2.call a.1)

/-- The queue of `r` holds something that was not there before. -/
def Put (b b' : ModuleBus) (r : Bytes) : Prop := ¬ b'.queue r <:+ b.queue r

/-- Whatever the call puts in a queue was sent by a holder of `ipc_send`, is no longer than allowed,
has passed the rate check, and is for a holder of `ipc_receive`. -/
def Guarded (b : ModuleBus) (a : Tokens × Request) : Prop :=
  ∀ r, Put b (b.call (a.2.call a.1)).2 r →
    match a.2 with
    | .send msg _ rateNow _ =>
        a.1.ipcSend msg.senderId = true ∧ msg.payload.length ≤ maxPayloadBytes ∧
          (b.checkRateLimit msg.senderId rateNow).1 = true ∧ a.1.ipcReceive r = true
    | _ => False

/-- A broadcast that passes the checks of the sender goes to a topic all of whose subscribers, the
sender apart, hold `ipc_receive`. -/
def BroadcastCovered (b : ModuleBus) (a : Tokens × Request) : Prop :=
  match a.2 with
  | .send msg _ rateNow _ =>
      msg.recipientId = [] → a.1.ipcSend msg.senderId = true →
        msg.payload.length ≤ maxPayloadBytes →
        (b.checkRateLimit msg.senderId rateNow).1 = true →
        ∀ r ∈ b.subscribers msg.topic, r ≠ msg.senderId → a.1.ipcReceive r = true
  | _ => True

/-! ### The checks of `send` -/

theorem route_eq_true_iff (b : ModuleBus) (m : ModuleMessage) (rt rs : Bool) :
    (b.route m rt rs).1 = true ↔
      if m.recipientId = [] then b.subscribers m.topic ≠ [] else rt = true ∧ rs = true := by
  unfold route reject
  split_ifs with hrec hsubs hrt hrs <;> simp_all

theorem send_eq_true_iff (b : ModuleBus) (msg : ModuleMessage) (st rt rs : Bool) (t₁ t₂ : UInt64) :
    (b.send msg st rt rs t₁ t₂).1 = true ↔
      msg.payload.length ≤ maxPayloadBytes ∧ st = true ∧
        (b.checkRateLimit msg.senderId t₁).1 = true ∧
        if msg.recipientId = [] then b.subscribers msg.topic ≠ [] else rt = true ∧ rs = true := by
  unfold send
  simp only
  by_cases hlen : msg.payload.length > maxPayloadBytes
  · rw [if_pos hlen]
    exact iff_of_false (by simp [reject]) fun h => absurd h.1 (Nat.not_le.2 hlen)
  by_cases hst : st = false
  · rw [if_neg hlen, if_pos hst, hst]
    exact iff_of_false (by simp [reject]) fun h => by simp at h
  rw [if_neg hlen, if_neg hst, checkRateLimit_stats]
  cases hok : (b.checkRateLimit msg.senderId t₁).1 with
  | false => simp
  | true =>
    obtain ⟨ok, limits, hc⟩ := checkRateLimit_eq b msg.senderId t₁
    simp only [Nat.not_lt.1 hlen, Bool.eq_true_of_not_eq_false hst, true_and, hc]
    exact route_eq_true_iff _ _ rt rs

/-! ### What is put where -/

theorem put_append (b b' : ModuleBus) {r : Bytes} {m : ModuleMessage}
    (h : b'.queue r = b.queue r ++ [m]) : Put b b' r := by
  intro hsuffix
  have hlen := hsuffix.length_le
  rw [h, List.length_append, List.length_singleton] at hlen
  omega

theorem not_put_of_eq {b b' : ModuleBus} {r : Bytes} (h : b'.queue r = b.queue r) :
    ¬ Put b b' r := by
  intro hput
  exact hput (h ▸ List.suffix_refl _)

theorem put_send_iff {b : ModuleBus} (hnd : ∀ t, (b.subscribers t).Nodup) (msg : ModuleMessage)
    (st rt rs : Bool) (t₁ t₂ : UInt64) (r : Bytes) :
    Put b (b.send msg st rt rs t₁ t₂).2 r ↔
      (b.send msg st rt rs t₁ t₂).1 = true ∧ b.GoesTo msg r := by
  rcases send_cases hnd msg st rt rs t₁ t₂ with ⟨b', hb, hrefused⟩ | ⟨b', hb, haccepted⟩
  · rw [hb]
    refine iff_of_false (not_put_of_eq ?_) fun h => by cases h.1
    rw [queue, hrefused.queues]
    rfl
  · rw [hb]
    by_cases hgoes : b.GoesTo msg r
    · exact iff_of_true (put_append b b' (haccepted.inside r hgoes)) ⟨rfl, hgoes⟩
    · exact iff_of_false (not_put_of_eq (haccepted.outside r hgoes)) fun h => hgoes h.2

/-- The other calls put nothing in a queue. -/
theorem not_put_poll (b : ModuleBus) (id : Bytes) (n : ℕ) (r : Bytes) :
    ¬ Put b (b.poll id n).2 r := by
  obtain ⟨q, -, hid, hother, -⟩ := poll_spec b id n
  by_cases hr : r = id
  · subst hr
    intro hput
    exact hput ⟨(b.poll r n).1, hid.symm⟩
  · exact not_put_of_eq (hother r hr)

theorem not_put_unsubscribe (b : ModuleBus) (id topic r : Bytes) :
    ¬ Put b (b.unsubscribe id topic) r := by
  unfold unsubscribe
  cases b.subscriptions.lookup topic with
  | none => exact not_put_of_eq rfl
  | some subs => exact not_put_of_eq rfl

theorem guarded_call_iff {b : ModuleBus} (hnd : ∀ t, (b.subscribers t).Nodup)
    (a : Tokens × Request) : Guarded b a ↔ BroadcastCovered b a := by
  obtain ⟨tokens, request⟩ := a
  cases request with
  | send msg rs t₁ t₂ =>
    have hput : ∀ r, Put b (b.call ((Request.send msg rs t₁ t₂).call tokens)).2 r ↔ _ :=
      fun r => put_send_iff hnd msg (tokens.ipcSend msg.senderId)
        (tokens.ipcReceive msg.recipientId) rs t₁ t₂ r
    simp only [send_eq_true_iff] at hput
    unfold Guarded BroadcastCovered
    simp only [hput, GoesTo]
    by_cases hrec : msg.recipientId = []
    · simp only [hrec, if_true, true_imp_iff]
      constructor
      · intro h hst hlen hrate r hr hne
        exact (h r ⟨⟨hlen, hst, hrate, List.ne_nil_of_mem hr⟩, hr, hne⟩).2.2.2
      · rintro h r ⟨⟨hlen, hst, hrate, -⟩, hr, hne⟩
        exact ⟨hst, hlen, hrate, h hst hlen hrate r hr hne⟩
    · -- a direct message: the token that is checked is the one of the receiver
      simp only [hrec, if_false, false_imp_iff, iff_true]
      rintro r ⟨⟨hlen, hst, hrate, htoken, -⟩, rfl⟩
      exact ⟨hst, hlen, hrate, htoken⟩
  | poll id n => exact iff_of_true (fun r h => not_put_poll b id n r h) trivial
  | subscribe id topic => exact iff_of_true (fun r h => not_put_of_eq rfl h) trivial
  | unsubscribe id topic =>
    exact iff_of_true (fun r h => not_put_unsubscribe b id topic r h) trivial

/-- **In a run of the bus a message gets into a queue only from a holder of `ipc_send`, within the
size and rate limits, and for a holder of `ipc_receive`, exactly when every broadcast that passes
the checks of its sender goes to a topic whose other subscribers all hold `ipc_receive`.** -/
theorem guarded_run_iff (as : List (Tokens × Request)) :
    (∀ pre a post, as = pre ++ a :: post →
        Guarded (run stepWith (empty, Ledger.empty) pre).1 a) ↔
      Along stepWith (fun s a => BroadcastCovered s.1 a) (empty, Ledger.empty) as := by
  have hcuts : Along stepWith (fun s a => Guarded s.1 a) (empty, Ledger.empty) as ↔ _ := along_iff
  rw [← hcuts]
  exact along_congr_of (I := fun s : ModuleBus × Ledger => Agrees s.1 s.2)
    (fun s a h => guarded_call_iff h.nodup a) (fun s a h _ => agrees_step h _) agrees_empty

/-- Only the module `a` holds tokens. -/
def sampleTokens : Tokens := ⟨fun id => id = [97], fun id => id = [97]⟩

/-- The module `b` subscribes without a token and is sent what `a` broadcasts. -/
theorem not_guarded_broadcast :
    ¬ ∀ as pre a post, as = pre ++ a :: post →
      Guarded (run stepWith (empty, Ledger.empty) pre).1 a := by
  intro h
  have hguarded := h [(sampleTokens, .subscribe [98] [116]),
      (sampleTokens, .send ⟨[97], [], [116], [1], 0, 0⟩ false 5000 5001)]
    [(sampleTokens, .subscribe [98] [116])] _ [] rfl
  have hcovered := (guarded_call_iff (agrees_run [.subscribe [98] [116]]).nodup _).1 hguarded
    rfl (by decide) (by decide) (by decide) [98] (by decide) (by decide)
  exact absurd hcovered (by decide)

end AstraVeil.Daemon.ModuleBus
