import AstraVeil.Lib.Digits

/-!
# Compact JSON texts

What the JSON writers of Rust and Kotlin print for strings, numbers, records and arrays, over any
type of code units whose first codes are those of ASCII.

* `Delimited`: a printed form that shows where it ends, whatever follows it;
* `delimited_of_free`: a form that a mark ends;
* `Units.delimited_quote`, `delimited_number`, `delimited_array`: strings, numbers, arrays;
* `read_print`: the reader that inverts a delimited form.
-/

namespace JsonText

variable {α β : Type*}

/-- The printed form ends by itself: no two values have forms that start the same text. -/
def Delimited (print : β → List α) : Prop :=
  ∀ (a b : β) (x y : List α), print a ++ x = print b ++ y → a = b ∧ x = y

theorem Delimited.injective {print : β → List α} (h : Delimited print) :
    Function.Injective print := by
  intro a b hab
  exact (h a b [] [] (by rw [hab])).1

/-- A form without the mark `sep`, with the mark behind it. -/
theorem delimited_of_free {f : β → List α} {sep : α} (hf : Function.Injective f)
    (hfree : ∀ b, sep ∉ f b) : Delimited fun b => f b ++ [sep] := by
  have key : ∀ s t x y : List α, sep ∉ s → sep ∉ t → s ++ sep :: x = t ++ sep :: y →
      s = t ∧ x = y := by
    intro s
    induction s with
    | nil =>
      intro t x y _ ht h
      cases t with
      | nil => exact ⟨rfl, (List.cons.inj h).2⟩
      | cons c t => exact absurd (List.cons.inj h).1 fun hc => ht (hc ▸ List.mem_cons_self)
    | cons c s ih =>
      intro t x y hs ht h
      cases t with
      | nil => exact absurd (List.cons.inj h).1 fun hc => hs (hc ▸ List.mem_cons_self)
      | cons d t =>
        rw [List.cons_append, List.cons_append, List.cons.injEq] at h
        obtain ⟨rfl, h⟩ := h
        obtain ⟨rfl, hxy⟩ := ih t x y (fun hm => hs (List.mem_cons_of_mem _ hm))
          (fun hm => ht (List.mem_cons_of_mem _ hm)) h
        exact ⟨rfl, hxy⟩
  intro a b x y h
  rw [List.append_assoc, List.append_assoc] at h
  obtain ⟨hab, hxy⟩ := key _ _ x y (hfree a) (hfree b) h
  exact ⟨hf hab, hxy⟩

/-- The reader of a printed form. -/
noncomputable def read (print : β → List α) : List α → Option β := Function.partialInv print

theorem read_print {print : β → List α} (h : Delimited print) (b : β) :
    read print (print b) = some b :=
  Function.partialInv_left h.injective b

/-! ### Strings -/

/-- The codes of an escaped character: `\"`, `\\`, the five short escapes, `\u00XX` for the other
control characters. -/
def escapeCode (c : ℕ) : List ℕ :=
  if c = 0x22 then [0x5C, 0x22]
  else if c = 0x5C then [0x5C, 0x5C]
  else if c = 0x08 then [0x5C, 0x62]
  else if c = 0x0C then [0x5C, 0x66]
  else if c = 0x0A then [0x5C, 0x6E]
  else if c = 0x0D then [0x5C, 0x72]
  else if c = 0x09 then [0x5C, 0x74]
  else if c < 0x20 then
    [0x5C, 0x75, 0x30, 0x30, (Nat.digitChar (c / 16)).toNat, (Nat.digitChar (c % 16)).toNat]
  else [c]

/-- The code a short escape stands for. -/
def shortEscape (c : ℕ) : ℕ :=
  if c = 0x62 then 0x08 else if c = 0x66 then 0x0C else if c = 0x6E then 0x0A
  else if c = 0x72 then 0x0D else if c = 0x74 then 0x09 else c

/-- The first character of an escaped text, and what follows it. -/
def readCode : List ℕ → Option (ℕ × List ℕ)
  | [] => none
  | c :: rest =>
      if c ≠ 0x5C then some (c, rest)
      else match rest with
        | 0x75 :: _ :: _ :: h :: l :: rest =>
            some ((h - 0x30) * 16 + if l < 0x3A then l - 0x30 else l - 0x57, rest)
        | e :: rest => some (shortEscape e, rest)
        | [] => none

theorem readCode_escapeCode (c : ℕ) (rest : List ℕ) :
    readCode (escapeCode c ++ rest) = some (c, rest) := by
  by_cases hlow : c < 0x20
  · interval_cases c <;> rfl
  · by_cases hquote : c = 0x22
    · subst hquote
      rfl
    · by_cases hback : c = 0x5C
      · subst hback
        rfl
      · have hplain : escapeCode c = [c] := by
          unfold escapeCode
          repeat' split_ifs
          all_goals first | rfl | omega
        rw [hplain]
        simp [readCode, hback]

theorem quote_not_mem_head (c : ℕ) (x y : List ℕ) : escapeCode c ++ x ≠ 0x22 :: y := by
  intro h
  have hread := readCode_escapeCode c x
  rw [h] at hread
  obtain ⟨rfl, -⟩ : 0x22 = c ∧ y = x := by simpa [readCode] using hread
  simp [escapeCode] at h

/-- Escaped text up to the closing quote. -/
def quoteCodes (s : List ℕ) : List ℕ := s.flatMap escapeCode ++ [0x22]

theorem delimited_quoteCodes : Delimited quoteCodes := by
  intro s
  induction s with
  | nil =>
    intro t x y h
    cases t with
    | nil => exact ⟨rfl, by simpa [quoteCodes] using h⟩
    | cons c t =>
      simp only [quoteCodes, List.flatMap_cons, List.append_assoc] at h
      exact absurd h.symm (quote_not_mem_head c _ _)
  | cons c s ih =>
    intro t x y h
    cases t with
    | nil =>
      simp only [quoteCodes, List.flatMap_cons, List.append_assoc] at h
      exact absurd h (quote_not_mem_head c _ _)
    | cons d t =>
      simp only [quoteCodes, List.flatMap_cons, List.append_assoc] at h
      have hread := congrArg readCode h
      rw [readCode_escapeCode, readCode_escapeCode, Option.some.injEq, Prod.mk.injEq] at hread
      obtain ⟨rfl, htail⟩ := hread
      obtain ⟨rfl, hxy⟩ := ih t x y (by simpa [quoteCodes] using htail)
      exact ⟨rfl, hxy⟩

/-- A type of code units: the codes tell the units apart, and ASCII is there. -/
structure Units (α : Type*) where
  code : α → ℕ
  ascii : ℕ → α
  code_injective : Function.Injective code
  code_ascii : ∀ n < 128, code (ascii n) = n

namespace Units

variable (U : Units α)

/-- A literal text of ASCII characters. -/
def lit (s : String) : List α := s.toList.map fun c => U.ascii c.toNat

/-- An escaped code unit. -/
def escape (u : α) : List α :=
  if escapeCode (U.code u) = [U.code u] then [u] else (escapeCode (U.code u)).map U.ascii

/-- A string in quotes. -/
def quote (s : List α) : List α := U.ascii 0x22 :: (s.flatMap U.escape ++ [U.ascii 0x22])

variable {U}

theorem map_code_escape (u : α) : (U.escape u).map U.code = escapeCode (U.code u) := by
  unfold escape
  split_ifs with hplain
  · rw [hplain]
    rfl
  · have hascii : ∀ c, escapeCode c ≠ [c] → ∀ d ∈ escapeCode c, d < 128 := by
      intro c hc
      by_cases hlow : c < 0x5D
      · interval_cases c <;> first | exact absurd rfl hc | decide
      · refine absurd ?_ hc
        unfold escapeCode
        repeat' split_ifs
        all_goals first | rfl | omega
    rw [List.map_map]
    conv_rhs => rw [← List.map_id (escapeCode (U.code u))]
    exact List.map_congr_left fun d hd => U.code_ascii d (hascii _ hplain d hd)

theorem delimited_quote : Delimited U.quote := by
  have hcodes : ∀ s : List α, (s.flatMap U.escape ++ [U.ascii 0x22]).map U.code =
      quoteCodes (s.map U.code) := by
    intro s
    have hquote : U.code (U.ascii 0x22) = 0x22 := U.code_ascii _ (by decide)
    rw [quoteCodes, List.map_append, List.map_flatMap, List.flatMap_map, List.map_singleton, hquote]
    simp only [map_code_escape]
  intro s t x y h
  simp only [quote, List.cons_append, List.cons.injEq, true_and] at h
  have hmap : quoteCodes (s.map U.code) ++ x.map U.code =
      quoteCodes (t.map U.code) ++ y.map U.code := by
    rw [← hcodes, ← hcodes, ← List.map_append, ← List.map_append, h]
  have hst : s = t := U.code_injective.list_map (delimited_quoteCodes _ _ _ _ hmap).1
  subst hst
  exact ⟨rfl, List.append_cancel_left h⟩

end Units

/-! ### Numbers and arrays -/

section

variable (U : Units α)

/-- A number with a comma behind it. -/
def Units.number (z : ℤ) : List α :=
  (Digits.intDigits z).map (fun c => U.ascii c.toNat) ++ [U.ascii 0x2C]

variable {U}

theorem code_digit {z : ℤ} {c : Char} (h : c ∈ Digits.intDigits z) :
    U.code (U.ascii c.toNat) = c.toNat ∧ c.toNat ≠ 0x2C := by
  have hc : c.toNat < 128 ∧ c.toNat ≠ 0x2C := by
    rcases Digits.mem_intDigits h with rfl | hd
    · decide
    · simp only [Char.isDigit, Bool.and_eq_true, decide_eq_true_eq] at hd
      obtain ⟨h1, h2⟩ := hd
      have hle : c.toNat ≤ 57 := UInt32.le_iff_toNat_le.1 h2
      have hge : 48 ≤ c.toNat := UInt32.le_iff_toNat_le.1 h1
      omega
  exact ⟨U.code_ascii _ hc.1, hc.2⟩

theorem delimited_number : Delimited U.number := by
  have hcodes : ∀ z, ((Digits.intDigits z).map fun c => U.ascii c.toNat).map U.code =
      (Digits.intDigits z).map Char.toNat := by
    intro z
    rw [List.map_map]
    exact List.map_congr_left fun c hc => (code_digit hc).1
  refine delimited_of_free ?_ ?_
  · intro a b hab
    have hmap := congrArg (List.map U.code) hab
    rw [hcodes, hcodes] at hmap
    exact Digits.intDigits_injective
      (Function.Injective.list_map (fun c d hcd => Char.toNat_inj.1 hcd) hmap)
  · intro z hmem
    obtain ⟨c, hc, hcomma⟩ := List.mem_map.1 hmem
    have hcode := congrArg U.code hcomma
    rw [(code_digit hc).1, U.code_ascii _ (by decide)] at hcode
    exact (code_digit (U := U) hc).2 hcode

/-- The elements of an array behind the first one. -/
def Units.elements (U : Units α) (print : β → List α) : List β → List α
  | [] => [U.ascii 0x5D]
  | b :: bs => U.ascii 0x2C :: (print b ++ U.elements print bs)

/-- An array. -/
def Units.array (U : Units α) (print : β → List α) : List β → List α
  | [] => [U.ascii 0x5B, U.ascii 0x5D]
  | b :: bs => U.ascii 0x5B :: (print b ++ U.elements print bs)

theorem ascii_ne {m n : ℕ} (hm : m < 128) (hn : n < 128) (h : m ≠ n) : U.ascii m ≠ U.ascii n := by
  intro he
  have hcode := congrArg U.code he
  rw [U.code_ascii m hm, U.code_ascii n hn] at hcode
  exact h hcode

theorem delimited_elements {print : β → List α} (hprint : Delimited print) :
    Delimited (U.elements print) := by
  have hclose : U.ascii 0x5D ≠ U.ascii 0x2C := ascii_ne (by decide) (by decide) (by decide)
  intro as
  induction as with
  | nil =>
    intro bs x y h
    cases bs with
    | nil => exact ⟨rfl, by simpa [Units.elements] using h⟩
    | cons b bs => exact absurd (List.cons.inj h).1 hclose
  | cons a as ih =>
    intro bs x y h
    cases bs with
    | nil => exact absurd (List.cons.inj h).1.symm hclose
    | cons b bs =>
      simp only [Units.elements, List.cons_append, List.append_assoc, List.cons.injEq,
        true_and] at h
      obtain ⟨rfl, htail⟩ := hprint _ _ _ _ h
      obtain ⟨rfl, hxy⟩ := ih bs x y htail
      exact ⟨rfl, hxy⟩

/-- Arrays of forms that start with a brace. -/
theorem delimited_array {print : β → List α} (hprint : Delimited print)
    (hopen : ∀ b, (print b).head? = some (U.ascii 0x7B)) : Delimited (U.array print) := by
  have hbrace : U.ascii 0x5D ≠ U.ascii 0x7B := ascii_ne (by decide) (by decide) (by decide)
  have hne : ∀ (b : β) (x y : List α), U.ascii 0x5D :: x ≠ print b ++ y := by
    intro b x y h
    have hhead := congrArg List.head? h
    rw [List.head?_cons, List.head?_append, hopen] at hhead
    exact hbrace (Option.some.inj hhead)
  intro as bs x y h
  cases as <;> cases bs <;>
    simp only [Units.array, List.cons_append, List.append_assoc, List.nil_append, List.cons.injEq,
      true_and] at h
  case nil.nil => exact ⟨rfl, h⟩
  case nil.cons b bs => exact absurd h (hne b _ _)
  case cons.nil a as => exact absurd h.symm (hne a _ _)
  case cons.cons a as b bs =>
    obtain ⟨rfl, htail⟩ := hprint _ _ _ _ h
    obtain ⟨rfl, hxy⟩ := delimited_elements hprint _ _ _ _ htail
    exact ⟨rfl, hxy⟩

end

end JsonText
