import AstraVeil.Daemon.ModuleBus
import AstraVeil.Lib.FixedWindow

/-!
# The rate limit of the bus

`checkRateLimit` of `daemon/src/ipc/module_bus.cpp` is a fixed-window limiter for each sender.
`Watched` is the bus together with the times of the sends that have passed, those of the current
window apart from those of earlier windows.

* `rateLimits_call`: what a call does to the table of limits;
* `limiter_watch`: seen from one sender, every call is one event of its limiter or none;
* `limiter_filter`: so a sender's limit depends on its own sends only;
* `rateLimited_run_iff`: the runs in which no sender passes more often than allowed in any second;
  no run passes more than twice as many, and it is never more than allowed where a window opens only
  when all passes of its sender are a second old.
-/

namespace AstraVeil.Daemon.ModuleBus

open Finmaps Runs

/-- `rate_limits_[id]`: the start of the window and the count. -/
def rateLimit (b : ModuleBus) (id : Bytes) : UInt64 × UInt32 := (b.rateLimits.lookup id).getD (0, 0)

/-- The sender and the clock reading of a `send` that gets as far as the rate check. -/
def Call.checked : Call → Option (Bytes × UInt64)
  | .send msg senderHasToken _ _ rateNow _ =>
      if msg.payload.length > maxPayloadBytes then none
      else if senderHasToken = false then none
      else some (msg.senderId, rateNow)
  | _ => none

/-- A bus and the times at which sends have passed the check, in the current window of their sender
and in earlier ones; `clock` is the last reading of a check. -/
structure Watched where
  bus : ModuleBus
  current : Bytes → List ℕ
  earlier : Bytes → List ℕ
  clock : ℕ

namespace Watched

/-- A new bus. -/
def start : Watched := ⟨ModuleBus.empty, fun _ => [], fun _ => [], 0⟩

/-- The times of all passes of a sender. -/
def passed (w : Watched) (id : Bytes) : List ℕ := w.current id ++ w.earlier id

/-- One call, watched. -/
def watch (w : Watched) (c : Call) : Watched :=
  let w' := { w with bus := (w.bus.call c).2 }
  match c.checked with
  | none => w'
  | some (id, now) =>
      if (w.bus.checkRateLimit id now).1 = false then { w' with clock := now.toNat }
      else if now - (w.bus.rateLimit id).1 ≥ 1000 then
        { w' with
          clock := now.toNat
          current := Function.update w.current id [now.toNat]
          earlier := Function.update w.earlier id (w.current id ++ w.earlier id) }
      else
        { w' with
          clock := now.toNat
          current := Function.update w.current id (now.toNat :: w.current id) }

/-- No sender has passed more than `MAX_MESSAGES_PER_SEC` times in an interval of 1000 ms. -/
def RateLimited (w : Watched) : Prop :=
  ∀ id a, (w.passed id).countP (fun t => decide (a ≤ t ∧ t < a + 1000)) ≤ maxMessagesPerSec.toNat

/-- The subtraction of two clock readings. -/
def elapsed (a b : ℕ) : ℕ := (UInt64.ofNat b - UInt64.ofNat a).toNat

/-- The limiter of a sender. -/
def limiter (w : Watched) (id : Bytes) : FixedWindow.State where
  start := (w.bus.rateLimit id).1.toNat
  count := (w.bus.rateLimit id).2.toNat
  current := w.current id
  earlier := w.earlier id

/-- A send that passes leaves room for what its window does not count: the passes of earlier windows
that are less than 1000 ms old and the count of the window it falls in are fewer than
`MAX_MESSAGES_PER_SEC`. -/
def LeavesRoom (w : Watched) (c : Call) : Prop :=
  match c.checked with
  | none => True
  | some (id, now) =>
      FixedWindow.LeavesRoom elapsed 1000 maxMessagesPerSec.toNat (w.limiter id) now.toNat

/-- A send opens a new window only when all passes of its sender are at least 1000 ms old. -/
def Rested (w : Watched) (c : Call) : Prop :=
  match c.checked with
  | none => True
  | some (id, now) => FixedWindow.Rested elapsed 1000 (w.limiter id) now.toNat

/-- No sender has passed more than twice `MAX_MESSAGES_PER_SEC` times in an interval of 1000 ms. -/
def TwiceLimited (w : Watched) : Prop :=
  ∀ id a, (w.passed id).countP (fun t => decide (a ≤ t ∧ t < a + 1000)) ≤
    2 * maxMessagesPerSec.toNat

instance (w : Watched) (c : Call) : Decidable (w.LeavesRoom c) :=
  match hc : c.checked with
  | none => isTrue (by simp [LeavesRoom, hc])
  | some (id, now) =>
      decidable_of_iff
        (FixedWindow.LeavesRoom elapsed 1000 maxMessagesPerSec.toNat (w.limiter id) now.toNat)
        (by simp [LeavesRoom, hc])

end Watched

/-- The readings of the checks do not decrease. -/
def Ordered (t : ℕ) : List Call → Prop
  | [] => True
  | c :: cs =>
      match c.checked with
      | none => Ordered t cs
      | some (_, now) => t ≤ now.toNat ∧ Ordered now.toNat cs

instance decidableOrdered : ∀ t cs, Decidable (Ordered t cs)
  | _, [] => isTrue trivial
  | t, c :: cs =>
      match hc : c.checked with
      | none =>
          have := decidableOrdered t cs
          decidable_of_iff (Ordered t cs) (by simp [Ordered, hc])
      | some (_, now) =>
          have := decidableOrdered now.toNat cs
          decidable_of_iff (t ≤ now.toNat ∧ Ordered now.toNat cs) (by simp [Ordered, hc])

/-! ### The table of limits -/

theorem rateLimits_broadcast (b : ModuleBus) (m : ModuleMessage) (subs : List Bytes) :
    (b.broadcast m subs).rateLimits = b.rateLimits := by
  unfold broadcast
  induction subs generalizing b with
  | nil => rfl
  | cons sub subs ih =>
    rw [List.foldl_cons, ih]
    split_ifs <;> rfl

theorem rateLimits_route (b : ModuleBus) (m : ModuleMessage) (rt rs : Bool) :
    (b.route m rt rs).2.rateLimits = b.rateLimits := by
  unfold route
  split_ifs
  · rfl
  · exact rateLimits_broadcast b m _
  · rfl
  · rfl
  · rfl

/-- The table of limits after a call is the one after the check, if there is one. -/
theorem rateLimits_call (b : ModuleBus) (c : Call) :
    (b.call c).2.rateLimits =
      match c.checked with
      | none => b.rateLimits
      | some (id, now) => (b.checkRateLimit id now).2.rateLimits := by
  cases c with
  | send msg st rt rs t₁ t₂ =>
    show (b.send msg st rt rs t₁ t₂).2.rateLimits = _
    unfold send Call.checked
    simp only
    split_ifs with hlen hst
    · rfl
    · rfl
    · rw [checkRateLimit_stats]
      cases hok : (b.checkRateLimit msg.senderId t₁).1 with
      | false => rfl
      | true => exact rateLimits_route _ _ rt rs
  | poll id n =>
    obtain ⟨q, hb, -⟩ := poll_spec b id n
    show (b.poll id n).2.rateLimits = b.rateLimits
    rw [hb]
  | subscribe id topic => rfl
  | unsubscribe id topic =>
    show (b.unsubscribe id topic).rateLimits = b.rateLimits
    unfold unsubscribe
    cases b.subscriptions.lookup topic <;> rfl

theorem checkRateLimit_cases (b : ModuleBus) (id : Bytes) (now : UInt64) :
    (now - (b.rateLimit id).1 ≥ 1000 ∧ b.checkRateLimit id now =
        (true, { b with rateLimits := b.rateLimits.insert id (now, 1) })) ∨
      (¬ now - (b.rateLimit id).1 ≥ 1000 ∧ (b.rateLimit id).2 ≥ maxMessagesPerSec ∧
        b.checkRateLimit id now =
          (false, { b with rateLimits := b.rateLimits.insert id (b.rateLimit id) })) ∨
      (¬ now - (b.rateLimit id).1 ≥ 1000 ∧ (b.rateLimit id).2 < maxMessagesPerSec ∧
        b.checkRateLimit id now =
          (true, { b with rateLimits :=
            b.rateLimits.insert id ((b.rateLimit id).1, (b.rateLimit id).2 + 1) })) := by
  unfold checkRateLimit
  by_cases hopens : now - (b.rateLimit id).1 ≥ 1000
  · exact Or.inl ⟨hopens, if_pos hopens⟩
  · by_cases hfull : (b.rateLimit id).2 ≥ maxMessagesPerSec
    · exact Or.inr (Or.inl ⟨hopens, hfull, (if_neg hopens).trans (if_pos hfull)⟩)
    · exact Or.inr (Or.inr ⟨hopens, UInt32.not_le.1 hfull, (if_neg hopens).trans (if_neg hfull)⟩)

theorem rateLimit_insert {b b' : ModuleBus} {id : Bytes} {e : UInt64 × UInt32}
    (h : b'.rateLimits = b.rateLimits.insert id e) (x : Bytes) :
    b'.rateLimit x = if x = id then e else b.rateLimit x := by
  unfold rateLimit
  rw [h]
  split_ifs with hx
  · rw [hx, AList.lookup_insert]
    rfl
  · rw [AList.lookup_insert_ne hx]

/-! ### The limiter of a sender -/

namespace Watched

theorem elapsed_toNat (a b : UInt64) : elapsed a.toNat b.toNat = (b - a).toNat := by
  rw [elapsed, UInt64.ofNat_toNat, UInt64.ofNat_toNat]

theorem opens_iff (w : Watched) (id : Bytes) (now : UInt64) :
    FixedWindow.Opens elapsed 1000 (w.limiter id) now.toNat ↔
      now - (w.bus.rateLimit id).1 ≥ 1000 := by
  unfold FixedWindow.Opens limiter
  rw [elapsed_toNat, ge_iff_le, UInt64.le_iff_toNat_le]
  rfl

theorem toNat_succ_of_lt {n : UInt32} (h : n < maxMessagesPerSec) :
    (n + 1).toNat = n.toNat + 1 := by
  have hlt : n.toNat < maxMessagesPerSec.toNat := UInt32.lt_iff_toNat_lt.1 h
  have hmax : maxMessagesPerSec.toNat = 100 := rfl
  have hone : (1 : UInt32).toNat = 1 := rfl
  rw [UInt32.toNat_add]
  refine Nat.mod_eq_of_lt ?_
  omega

/-- A send that gets as far as the check is an event of its sender's limiter. -/
theorem limiter_watch_own (w : Watched) {c : Call} {id : Bytes} {now : UInt64}
    (h : c.checked = some (id, now)) :
    (w.watch c).limiter id =
      FixedWindow.check elapsed 1000 maxMessagesPerSec.toNat (w.limiter id) now.toNat := by
  have hlimits := rateLimits_call w.bus c
  have hopens := opens_iff w id now
  unfold watch
  rw [h] at hlimits ⊢
  simp only at hlimits ⊢
  rcases checkRateLimit_cases w.bus id now with
    ⟨ho, hc⟩ | ⟨ho, hfull, hc⟩ | ⟨ho, hroom, hc⟩
  · rw [hc] at hlimits ⊢
    rw [if_neg (by simp), if_pos ho, FixedWindow.check, if_pos (hopens.2 ho)]
    simp [limiter, rateLimit_insert hlimits]
  · have hcount : ¬ (w.limiter id).count < maxMessagesPerSec.toNat :=
      Nat.not_lt.2 (UInt32.le_iff_toNat_le.1 hfull)
    rw [hc] at hlimits ⊢
    rw [if_pos rfl, FixedWindow.check, if_neg (mt hopens.1 ho), if_neg hcount]
    simp [limiter, rateLimit_insert hlimits]
  · have hcount : (w.limiter id).count < maxMessagesPerSec.toNat :=
      UInt32.lt_iff_toNat_lt.1 hroom
    rw [hc] at hlimits ⊢
    rw [if_neg (by simp), if_neg ho, FixedWindow.check, if_neg (mt hopens.1 ho), if_pos hcount]
    simp only [limiter, rateLimit_insert hlimits, if_true, toNat_succ_of_lt hroom,
      Function.update_self]

/-- Any other call leaves the limiter alone. -/
theorem limiter_watch_other (w : Watched) {c : Call} {x : Bytes}
    (h : ∀ now, c.checked ≠ some (x, now)) : (w.watch c).limiter x = w.limiter x := by
  have hlimits := rateLimits_call w.bus c
  unfold watch
  cases hchecked : c.checked with
  | none =>
    rw [hchecked] at hlimits
    simp only [limiter, rateLimit, hlimits]
  | some p =>
    obtain ⟨id, now⟩ := p
    have hx : x ≠ id := fun hx => h now (by rw [hchecked, hx])
    rw [hchecked] at hlimits
    simp only at hlimits ⊢
    rcases checkRateLimit_cases w.bus id now with ⟨-, hc⟩ | ⟨-, -, hc⟩ | ⟨-, -, hc⟩
    all_goals
      rw [hc] at hlimits ⊢
      split_ifs <;> simp [limiter, rateLimit_insert hlimits, hx]

/-- Seen from one sender, a call is one event of its limiter or none. -/
theorem limiter_watch (w : Watched) (c : Call) (x : Bytes) :
    (w.watch c).limiter x =
      match c.checked with
      | none => w.limiter x
      | some (id, now) =>
          if x = id then
            FixedWindow.check elapsed 1000 maxMessagesPerSec.toNat (w.limiter x) now.toNat
          else w.limiter x := by
  cases hchecked : c.checked with
  | none => exact limiter_watch_other w (by simp [hchecked])
  | some p =>
    obtain ⟨id, now⟩ := p
    by_cases hx : x = id
    · subst hx
      simp only [if_true]
      exact limiter_watch_own w hchecked
    · simp only [if_neg hx]
      exact limiter_watch_other w (by simp [hchecked, Ne.symm hx])

theorem rateLimited_iff (w : Watched) :
    RateLimited w ↔ ∀ id, FixedWindow.Within 1000 maxMessagesPerSec.toNat (w.limiter id) := Iff.rfl

/-- The calls in which a sender gets as far as the check. -/
def isCheckOf (id : Bytes) (c : Call) : Bool := decide (c.checked.map Prod.fst = some id)

/-- A sender's limiter is moved by its own sends only. -/
theorem limiter_filter (id : Bytes) (cs : List Call) :
    (run watch start cs).limiter id = (run watch start (cs.filter (isCheckOf id))).limiter id := by
  have key : ∀ (w w' : Watched), w.limiter id = w'.limiter id →
      (run watch w cs).limiter id = (run watch w' (cs.filter (isCheckOf id))).limiter id := by
    induction cs with
    | nil => exact fun w w' h => h
    | cons c cs ih =>
      intro w w' h
      rw [List.filter_cons]
      split_ifs with hc
      · refine ih _ _ ?_
        rw [limiter_watch, limiter_watch, h]
      · refine ih _ _ ?_
        rw [limiter_watch, ← h]
        cases hchecked : c.checked with
        | none => rfl
        | some p =>
          have hne : id ≠ p.1 := by
            intro he
            exact hc (by simp [isCheckOf, hchecked, he])
          exact if_neg hne
  exact key start start rfl

/-! ### Whole runs -/

/-- What is known of a watched bus at any time. -/
def Sound (w : Watched) : Prop := ∀ id, FixedWindow.Windowed (w.limiter id) w.clock

/-- The next check reads a time that is not before the last one. -/
def InOrder (w : Watched) (c : Call) : Prop :=
  match c.checked with
  | none => True
  | some (_, now) => w.clock ≤ now.toNat

theorem clock_watch (w : Watched) (c : Call) :
    (w.watch c).clock =
      match c.checked with
      | none => w.clock
      | some (_, now) => now.toNat := by
  unfold watch
  cases c.checked with
  | none => rfl
  | some p =>
    simp only
    split_ifs <;> rfl

theorem sound_start : Sound start :=
  fun _ => ⟨rfl, fun _ h => absurd h List.not_mem_nil, le_rfl, fun _ h => absurd h List.not_mem_nil⟩

theorem sound_watch {w : Watched} (h : Sound w) {c : Call} (hc : InOrder w c) :
    Sound (w.watch c) := by
  intro id
  rw [limiter_watch, clock_watch]
  unfold InOrder at hc
  cases hchecked : c.checked with
  | none => exact h id
  | some p =>
    rw [hchecked] at hc
    simp only at hc ⊢
    split_ifs
    · exact FixedWindow.windowed_check (h id) hc
    · exact (h id).mono hc

theorem elapsed_eq {a b : ℕ} (hab : a ≤ b) (hb : b < 2 ^ 64) : elapsed a b = b - a := by
  rw [elapsed, UInt64.toNat_sub_of_le, UInt64.toNat_ofNat_of_lt' hb,
    UInt64.toNat_ofNat_of_lt' (lt_of_le_of_lt hab hb)]
  rw [UInt64.le_iff_toNat_le, UInt64.toNat_ofNat_of_lt' hb,
    UInt64.toNat_ofNat_of_lt' (lt_of_le_of_lt hab hb)]
  exact hab

theorem along_inOrder {w : Watched} {cs : List Call} (h : Ordered w.clock cs) :
    Along watch InOrder w cs := by
  induction cs generalizing w with
  | nil => trivial
  | cons c cs ih =>
    have hclock := clock_watch w c
    unfold Ordered at h
    unfold Along InOrder
    cases hchecked : c.checked with
    | none =>
      rw [hchecked] at h hclock
      exact ⟨trivial, ih (hclock ▸ h)⟩
    | some p =>
      rw [hchecked] at h hclock
      exact ⟨h.1, ih (hclock ▸ h.2)⟩

theorem elapsed_limiter {w : Watched} (hs : Sound w) {id : Bytes} {now : UInt64}
    (hc : w.clock ≤ now.toNat) :
    elapsed (w.limiter id).start now.toNat = now.toNat - (w.limiter id).start :=
  elapsed_eq ((hs id).start.trans hc) now.toNat_lt

/-- The step lemma. -/
theorem rateLimited_watch_iff {w : Watched} (hs : Sound w) (hw : RateLimited w) {c : Call}
    (hc : InOrder w c) : RateLimited (w.watch c) ↔ LeavesRoom w c := by
  rw [rateLimited_iff] at hw ⊢
  simp only [limiter_watch]
  unfold LeavesRoom
  unfold InOrder at hc
  cases hchecked : c.checked with
  | none => exact iff_of_true hw trivial
  | some p =>
    obtain ⟨id, now⟩ := p
    rw [hchecked] at hc
    simp only at hc ⊢
    have hiff := FixedWindow.within_check_iff (by decide) (elapsed_limiter hs hc) (hs id) hc (hw id)
    constructor
    · intro h
      have hid := h id
      rw [if_pos rfl] at hid
      exact hiff.1 hid
    · intro h x
      split_ifs with hx
      · subst hx
        exact hiff.2 h
      · exact hw x

/-- What two windows in a row can let pass, for every sender. -/
def Paced (w : Watched) : Prop :=
  ∀ id, FixedWindow.Paced 1000 maxMessagesPerSec.toNat (w.limiter id)

theorem paced_start : Paced start := fun _ =>
  ⟨Nat.zero_le _, fun _ h => absurd h List.not_mem_nil, fun _ _ => Nat.zero_le _,
    fun _ => Nat.zero_le _⟩

theorem paced_watch {w : Watched} (hs : Sound w) (hp : Paced w) {c : Call} (hc : InOrder w c) :
    Paced (w.watch c) := by
  intro id
  rw [limiter_watch]
  unfold InOrder at hc
  cases hchecked : c.checked with
  | none => exact hp id
  | some p =>
    rw [hchecked] at hc
    simp only at hc ⊢
    split_ifs
    · exact FixedWindow.paced_check (by decide) (elapsed_limiter hs hc) (hs id) hc (hp id)
    · exact hp id

/-- The passes of earlier windows were a second old when the current one opened. -/
def Apart (w : Watched) : Prop := ∀ id, FixedWindow.Apart 1000 (w.limiter id)

theorem apart_watch {w : Watched} (hw : Apart w) {c : Call} (hr : Rested w c) :
    Apart (w.watch c) := by
  intro id
  rw [limiter_watch]
  unfold Rested at hr
  cases hchecked : c.checked with
  | none => exact hw id
  | some p =>
    rw [hchecked] at hr
    simp only at hr ⊢
    split_ifs with hid
    · subst hid
      exact FixedWindow.apart_check (hw _) hr
    · exact hw id

theorem leavesRoom_of_rested {w : Watched} (hs : Sound w) (hw : Apart w) {c : Call}
    (hc : InOrder w c) (hr : Rested w c) : LeavesRoom w c := by
  unfold LeavesRoom
  unfold InOrder at hc
  unfold Rested at hr
  cases hchecked : c.checked with
  | none => trivial
  | some p =>
    rw [hchecked] at hc hr
    exact FixedWindow.leavesRoom_of_rested (by decide) (hs _) hc (hw _) hr

end Watched

open Watched in
/-- **With clock readings that do not decrease, no sender passes the rate check more than 100 times
in an interval of 1000 ms exactly when every send that passes leaves room for the passes of earlier
windows that are less than 1000 ms old, as it does where windows open only when all passes are that
old.  No sender ever passes more than 200 times in such an interval.  The limit of a sender depends
on its own sends only.** -/
theorem rateLimited_run_iff (cs : List Call) (hclock : Ordered 0 cs) :
    ((∀ pre post, cs = pre ++ post → RateLimited (run watch start pre)) ↔
      Along watch LeavesRoom start cs) ∧
    (Along watch Rested start cs → Along watch LeavesRoom start cs) ∧
    (∀ pre post, cs = pre ++ post → TwiceLimited (run watch start pre)) ∧
    ∀ id, (run watch start cs).limiter id =
      (run watch start (cs.filter (isCheckOf id))).limiter id := by
  have horder : Along watch InOrder start cs := along_inOrder hclock
  refine ⟨?_, fun hrested => ?_, ?_, fun id => limiter_filter id cs⟩
  · exact prefixes_iff_along_on (I := Sound) (P := RateLimited) (c := InOrder)
      (fun w c hs hw hc => rateLimited_watch_iff hs hw hc) (fun w c hs hc => sound_watch hs hc)
      sound_start (fun id a => Nat.zero_le _) horder
  · refine along_of_invariant (I := fun w => Sound w ∧ Apart w) ?_
      ⟨sound_start, fun _ _ h => absurd h List.not_mem_nil⟩ (along_and.2 ⟨horder, hrested⟩)
    rintro w c ⟨hs, hw⟩ ⟨hc, hr⟩
    exact ⟨leavesRoom_of_rested hs hw hc hr, sound_watch hs hc, apart_watch hw hr⟩
  · rintro pre post rfl
    have hpaced := run_invariant_of (I := fun w => Sound w ∧ Paced w)
      (fun w c h hc => ⟨sound_watch h.1 hc, paced_watch h.1 h.2 hc⟩) ⟨sound_start, paced_start⟩
      (along_append.1 horder).1
    exact fun id => (hpaced.2 id).twice

/-- A direct message of one byte from `a` to `b`, with both tokens. -/
def sampleSend (now : UInt64) : Call := .send ⟨[97], [98], [], [1], 0, 0⟩ true true true now now

open Watched in
/-- Two sends one second apart. -/
theorem rateLimited_sampleSend :
    Ordered 0 [sampleSend 5000, sampleSend 6000] ∧
      ∀ pre post, [sampleSend 5000, sampleSend 6000] = pre ++ post →
        RateLimited (run watch start pre) := by
  have hclock : Ordered 0 [sampleSend 5000, sampleSend 6000] := ⟨by decide, by decide, trivial⟩
  exact ⟨hclock, (rateLimited_run_iff _ hclock).1.2 ⟨by decide, by decide, trivial⟩⟩

/-- One send opens a window, 99 follow at its end and two at the start of the next one. -/
def sampleBurst : List Call :=
  sampleSend 5000 :: (List.replicate 99 (sampleSend 5999) ++ [sampleSend 6000, sampleSend 6000])

open Watched in
/-- The interval from 5999 on has 101 passes. -/
theorem not_rateLimited_sampleBurst :
    ¬ ∀ cs, Ordered 0 cs → ∀ pre post, cs = pre ++ post → RateLimited (run watch start pre) := by
  intro h
  have hburst := h sampleBurst (by decide +kernel) sampleBurst [] (List.append_nil _).symm [97] 5999
  revert hburst
  decide +kernel

end AstraVeil.Daemon.ModuleBus
