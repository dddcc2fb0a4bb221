import Mathlib.Tactic

/-!
# Length-prefixed frames over a byte stream

A frame is a 32-bit big-endian length followed by that many bytes.  A reader asks the stream for
the bytes it still needs and gets some non-empty part of them; how much is up to the stream
(`wish`).  Where nothing is pending the stream either is closed or the read gives up.

* `ofBe32_be32`: the length survives;
* `readFully_eq`: the result of reading `n` bytes does not depend on the parts they come in.
-/

namespace Framing

/-- A 32-bit number in network byte order. -/
def be32 (n : ℕ) : List UInt8 :=
  [UInt8.ofNat (n / 2 ^ 24), UInt8.ofNat (n / 2 ^ 16), UInt8.ofNat (n / 2 ^ 8), UInt8.ofNat n]

/-- The number whose big-endian digits are the given bytes. -/
def ofBe (bs : List UInt8) : ℕ := bs.foldl (fun acc b => acc * 256 + b.toNat) 0

/-- A payload with its length in front. -/
def frame (payload : List UInt8) : List UInt8 := be32 payload.length ++ payload

@[simp] theorem length_be32 (n : ℕ) : (be32 n).length = 4 := rfl

@[simp] theorem take_be32_append (n : ℕ) (rest : List UInt8) :
    (be32 n ++ rest).take 4 = be32 n := rfl

@[simp] theorem drop_be32_append (n : ℕ) (rest : List UInt8) :
    (be32 n ++ rest).drop 4 = rest := rfl

theorem length_frame (payload : List UInt8) : (frame payload).length = 4 + payload.length := by
  rw [frame, List.length_append, length_be32]

theorem ofBe_be32 {n : ℕ} (h : n < 2 ^ 32) : ofBe (be32 n) = n := by
  simp only [ofBe, be32, List.foldl_cons, List.foldl_nil, UInt8.toNat_ofNat']
  omega

/-- Why a read found no byte. -/
inductive Ended
  | eof
  | timeout
  deriving DecidableEq

/-- What a read finds where nothing is pending. -/
def silence (closed : Bool) : Ended := if closed then .eof else .timeout

/-- The size of the part a read of at most `asked` bytes returns, with `pending` bytes there. -/
def part (wish asked pending : ℕ) : ℕ := max 1 (min wish (min asked pending))

theorem part_pos (wish asked pending : ℕ) : 0 < part wish asked pending :=
  lt_of_lt_of_le Nat.one_pos (Nat.le_max_left 1 _)

theorem part_le (wish : ℕ) {asked pending : ℕ} (ha : 0 < asked) (hp : 0 < pending) :
    part wish asked pending ≤ asked ∧ part wish asked pending ≤ pending := by
  unfold part
  omega

/-- Reads until `remaining` more bytes have arrived; what is left of the stream comes with it. -/
def readFully (closed : Bool) (wish : ℕ → ℕ) (remaining : ℕ) (stream got : List UInt8) :
    Except Ended (List UInt8) × List UInt8 :=
  if remaining = 0 then (.ok got, stream)
  else if stream = [] then (.error (silence closed), [])
  else
    let n := part (wish 0) remaining stream.length
    readFully closed (fun i => wish (i + 1)) (remaining - n) (stream.drop n) (got ++ stream.take n)
  termination_by remaining
  decreasing_by
    have := part_pos (wish 0) remaining stream.length
    omega

/-- The parts do not matter. -/
theorem readFully_eq (closed : Bool) (wish : ℕ → ℕ) (remaining : ℕ) (stream got : List UInt8) :
    readFully closed wish remaining stream got =
      if remaining ≤ stream.length then (.ok (got ++ stream.take remaining), stream.drop remaining)
      else (.error (silence closed), []) := by
  induction remaining using Nat.strong_induction_on generalizing wish stream got with
  | _ remaining ih =>
    rw [readFully]
    by_cases h0 : remaining = 0
    · simp [h0]
    rw [if_neg h0]
    by_cases hs : stream = []
    · rw [if_pos hs, hs, List.length_nil, if_neg (by omega)]
    rw [if_neg hs]
    have hn := part_pos (wish 0) remaining stream.length
    obtain ⟨hn1, hn2⟩ := part_le (wish 0) (Nat.pos_of_ne_zero h0) (List.length_pos_iff.2 hs)
    generalize part (wish 0) remaining stream.length = n at hn hn1 hn2 ⊢
    rw [ih _ (by omega), List.length_drop]
    by_cases hle : remaining ≤ stream.length
    · have htake : stream.take n ++ (stream.drop n).take (remaining - n) =
          stream.take remaining := by
        rw [← List.take_add, Nat.add_sub_cancel' hn1]
      rw [if_pos (by omega), if_pos hle, List.append_assoc, htake, List.drop_drop,
        Nat.add_sub_cancel' hn1]
    · rw [if_neg (by omega), if_neg hle]

end Framing
