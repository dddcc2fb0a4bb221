import AstraVeil.Lib.KotlinString

/-!
# Base64

The encoder of `java.util.Base64`, with its padding.

* `trim_text`: its text has no white space.
-/

namespace AstraVeil.Base64

open Utf16 KotlinString

/-- The alphabet. -/
def alphabet : List Char :=
  "ABCDEFGHIJKLMNOPQRSTUVWXYZabcdefghijklmnopqrstuvwxyz0123456789+/".toList

/-- The character of six bits. -/
def digit (i : ℕ) : Char := alphabet.getD i '='

/-- `Base64.getEncoder()`, three bytes at a time. -/
def encode : List UInt8 → List Char
  | [] => []
  | [a] => [digit (a.toNat / 4), digit (a.toNat % 4 * 16), '=', '=']
  | [a, b] =>
      [digit (a.toNat / 4), digit (a.toNat % 4 * 16 + b.toNat / 16), digit (b.toNat % 16 * 4), '=']
  | a :: b :: c :: rest =>
      digit (a.toNat / 4) :: digit (a.toNat % 4 * 16 + b.toNat / 16) ::
        digit (b.toNat % 16 * 4 + c.toNat / 64) :: digit (c.toNat % 64) :: encode rest

/-- `encodeToString`. -/
def text (bytes : List UInt8) : JString := ofString (String.ofList (encode bytes))

theorem digit_mem (i : ℕ) : digit i ∈ '=' :: alphabet := by
  unfold digit
  rw [List.getD_eq_getElem?_getD]
  cases hi : alphabet[i]? with
  | none => exact List.mem_cons_self
  | some c => exact List.mem_cons_of_mem _ (List.mem_of_getElem? hi)

theorem encode_mem (bytes : List UInt8) : ∀ c ∈ encode bytes, c ∈ '=' :: alphabet := by
  have hpad : '=' ∈ '=' :: alphabet := List.mem_cons_self
  induction bytes using encode.induct with
  | case1 => exact fun c hc => absurd hc List.not_mem_nil
  | case2 a =>
    simp only [encode, List.forall_mem_cons]
    exact ⟨digit_mem _, digit_mem _, hpad, hpad, fun c hc => absurd hc List.not_mem_nil⟩
  | case3 a b =>
    simp only [encode, List.forall_mem_cons]
    exact ⟨digit_mem _, digit_mem _, digit_mem _, hpad, fun c hc => absurd hc List.not_mem_nil⟩
  | case4 a b c rest ih =>
    simp only [encode, List.forall_mem_cons]
    exact ⟨digit_mem _, digit_mem _, digit_mem _, digit_mem _, ih⟩

theorem trim_text (bytes : List UInt8) : trim (text bytes) = text bytes := by
  have hunits : ('=' :: alphabet).all
      (fun c => (unitsOf c).all fun u => !isWhitespace u) = true := by
    decide
  refine trim_of_forall fun u hu => ?_
  obtain ⟨c, hc, hu⟩ := List.mem_flatMap.1 hu
  rw [String.toList_ofList] at hc
  have hc' := List.all_eq_true.1 (List.all_eq_true.1 hunits c (encode_mem bytes c hc)) u hu
  rwa [Bool.not_eq_true'] at hc'

example : encode [77, 97] = "TWE=".toList := by decide

end AstraVeil.Base64
