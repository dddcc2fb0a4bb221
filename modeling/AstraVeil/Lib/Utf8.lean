import Mathlib.Tactic

/-!
# Well-formed UTF-8

The bytes of a text, read one by one as a decoder does: the state of the decoder is the list of
the ranges in which the bytes still missing from the current code point must lie.

* `valid_append_ascii`: an ASCII text in the middle cuts well-formed text in two;
* `run_flatMap`: replacing ASCII characters by ASCII texts does not matter to the decoder;
* `Valid.induction`: well-formed text is a sequence of code points;
* `valid_encode`: the bytes of a code point are well formed.
-/

namespace Utf8

/-- The ranges of the bytes that still belong to the current code point. -/
abbrev State := List (UInt8 × UInt8)

/-- The range of a trailing byte. -/
def tail : UInt8 × UInt8 := (0x80, 0xBF)

/-- What the first byte of a code point announces. -/
def lead (c : UInt8) : Option State :=
  if c < 0x80 then some []
  else if 0xC2 ≤ c ∧ c ≤ 0xDF then some [tail]
  else if c = 0xE0 then some [(0xA0, 0xBF), tail]
  else if c = 0xED then some [(0x80, 0x9F), tail]
  else if 0xE1 ≤ c ∧ c ≤ 0xEF then some [tail, tail]
  else if c = 0xF0 then some [(0x90, 0xBF), tail, tail]
  else if 0xF1 ≤ c ∧ c ≤ 0xF3 then some [tail, tail, tail]
  else if c = 0xF4 then some [(0x80, 0x8F), tail, tail]
  else none

/-- A byte in a range. -/
def InRange (r : UInt8 × UInt8) (c : UInt8) : Prop := r.1 ≤ c ∧ c ≤ r.2

instance (r : UInt8 × UInt8) (c : UInt8) : Decidable (InRange r c) :=
  inferInstanceAs (Decidable (_ ∧ _))

/-- One byte; `none` where the text is malformed. -/
def step : State → UInt8 → Option State
  | [], c => lead c
  | r :: q, c => if InRange r c then some q else none

/-- A list of bytes. -/
def run : State → List UInt8 → Option State
  | q, [] => some q
  | q, c :: t => (step q c).bind fun q' => run q' t

/-- Well-formed text: the decoder ends between two code points. -/
def Valid (s : List UInt8) : Prop := run [] s = some []

instance (s : List UInt8) : Decidable (Valid s) := inferInstanceAs (Decidable (_ = _))

/-- A text of ASCII characters. -/
def Ascii (s : List UInt8) : Prop := ∀ c ∈ s, c < 0x80

instance (s : List UInt8) : Decidable (Ascii s) := List.decidableBAll (fun c => c < 0x80) s

/-- The bytes of one code point. -/
inductive CodePoint : List UInt8 → Prop
  | mk {c : UInt8} {q : State} {t : List UInt8} :
      lead c = some q → List.Forall₂ InRange q t → CodePoint (c :: t)

/-! ### Runs -/

theorem run_cons (q : State) (c : UInt8) (t : List UInt8) :
    run q (c :: t) = (step q c).bind fun q' => run q' t := rfl

theorem run_append (q : State) (s t : List UInt8) :
    run q (s ++ t) = (run q s).bind fun q' => run q' t := by
  induction s generalizing q with
  | nil => rfl
  | cons c s ih =>
    rw [List.cons_append, run_cons, run_cons]
    cases step q c with
    | none => rfl
    | some q' => exact ih q'

theorem Valid.nil : Valid [] := rfl

theorem Valid.append {s t : List UInt8} (hs : Valid s) (ht : Valid t) : Valid (s ++ t) := by
  rw [Valid, run_append, hs, Option.bind_some]
  exact ht

/-! ### Trailing bytes are never ASCII -/

/-- The ranges a decoder waits for lie above ASCII. -/
def High (q : State) : Prop := ∀ r ∈ q, 0x80 ≤ r.1

theorem High.nil : High [] := fun _ h => absurd h List.not_mem_nil

theorem high_lead {c : UInt8} {q : State} (h : lead c = some q) : High q := by
  unfold lead at h
  repeat' split at h
  all_goals
    cases h
  all_goals
    simp [High, tail]

theorem high_step {q q' : State} {c : UInt8} (hq : High q) (h : step q c = some q') : High q' := by
  cases q with
  | nil => exact high_lead h
  | cons r q =>
    rw [step] at h
    split at h
    · cases h
      exact fun r' hr' => hq r' (List.mem_cons_of_mem r hr')
    · cases h

theorem high_run {q q' : State} {s : List UInt8} (hq : High q) (h : run q s = some q') :
    High q' := by
  induction s generalizing q with
  | nil =>
    cases h
    exact hq
  | cons c s ih =>
    rw [run_cons] at h
    obtain ⟨q₁, h₁, h⟩ := Option.bind_eq_some_iff.1 h
    exact ih (high_step hq h₁) h

theorem lead_ascii {c : UInt8} (hc : c < 0x80) : lead c = some [] := if_pos hc

theorem step_ascii {q : State} (hq : High q) (hq0 : q ≠ []) {c : UInt8} (hc : c < 0x80) :
    step q c = none := by
  cases q with
  | nil => exact absurd rfl hq0
  | cons r q =>
    have hr : ¬ InRange r c := fun h =>
      UInt8.not_lt.2 h.1 (UInt8.lt_of_lt_of_le hc (hq r List.mem_cons_self))
    rw [step, if_neg hr]

theorem Ascii.valid {s : List UInt8} (h : Ascii s) : Valid s := by
  induction s with
  | nil => exact Valid.nil
  | cons c s ih =>
    have hs := ih fun d hd => h d (List.mem_cons_of_mem c hd)
    rw [Valid, run_cons, step, lead_ascii (h c List.mem_cons_self), Option.bind_some]
    exact hs

theorem run_ascii {q : State} (hq : High q) (hq0 : q ≠ []) {s : List UInt8} (hs : Ascii s)
    (hs0 : s ≠ []) : run q s = none := by
  cases s with
  | nil => exact absurd rfl hs0
  | cons c s => rw [run_cons, step_ascii hq hq0 (hs c List.mem_cons_self), Option.bind_none]

theorem Ascii.append {s t : List UInt8} (hs : Ascii s) (ht : Ascii t) : Ascii (s ++ t) := by
  intro c hc
  rcases List.mem_append.1 hc with hc | hc
  · exact hs c hc
  · exact ht c hc

theorem ascii_cons {c : UInt8} {s : List UInt8} : Ascii (c :: s) ↔ c < 0x80 ∧ Ascii s :=
  List.forall_mem_cons

/-- ASCII text in the middle separates. -/
theorem valid_append_ascii {s a t : List UInt8} (ha : Ascii a) (ha0 : a ≠ []) :
    Valid (s ++ (a ++ t)) ↔ Valid s ∧ Valid t := by
  constructor
  · intro h
    rw [Valid, run_append] at h
    obtain ⟨q, hs, h⟩ := Option.bind_eq_some_iff.1 h
    rw [run_append] at h
    obtain ⟨q', hq', h⟩ := Option.bind_eq_some_iff.1 h
    by_cases hq0 : q = []
    · subst hq0
      rw [ha.valid] at hq'
      cases hq'
      exact ⟨hs, h⟩
    · rw [run_ascii (high_run High.nil hs) hq0 ha ha0] at hq'
      cases hq'
  · rintro ⟨hs, ht⟩
    exact hs.append (ha.valid.append ht)

theorem valid_ascii_append {a t : List UInt8} (ha : Ascii a) : Valid (a ++ t) ↔ Valid t := by
  rw [Valid, run_append, ha.valid, Option.bind_some, Valid]

/-- ASCII text behind. -/
theorem valid_append_ascii_right {s a : List UInt8} (ha : Ascii a) : Valid (s ++ a) ↔ Valid s := by
  by_cases ha0 : a = []
  · rw [ha0, List.append_nil]
  · have h := valid_append_ascii (s := s) (t := []) ha ha0
    rw [List.append_nil] at h
    exact h.trans (and_iff_left Valid.nil)

/-- Well-formed texts with ASCII separators. -/
theorem valid_intercalate {a : List UInt8} (ha : Ascii a) (ha0 : a ≠ []) (l : List (List UInt8)) :
    Valid (a.intercalate l) ↔ ∀ s ∈ l, Valid s := by
  induction l with
  | nil => simp [List.intercalate, Valid.nil]
  | cons s l ih =>
    cases l with
    | nil => simp [List.intercalate]
    | cons t l =>
      have hcons : a.intercalate (s :: t :: l) = s ++ (a ++ a.intercalate (t :: l)) := by
        simp [List.intercalate]
      rw [hcons, valid_append_ascii ha ha0, ih, List.forall_mem_cons (a := s)]

/-! ### Escaping -/

theorem forall_byte {P : UInt8 → Prop} (h : ∀ n < 256, P (UInt8.ofNat n)) (c : UInt8) : P c := by
  have hc := h c.toNat c.toNat_lt
  rwa [UInt8.ofNat_toNat] at hc

/-- An escaping replaces ASCII characters by ASCII texts and copies all other bytes. -/
structure Escaping (esc : UInt8 → List UInt8) : Prop where
  ascii : ∀ c < 0x80, Ascii (esc c)
  ne_nil : ∀ c < 0x80, esc c ≠ []
  copied : ∀ c, ¬ c < 0x80 → esc c = [c]

theorem run_flatMap {esc : UInt8 → List UInt8} (he : Escaping esc) {q : State} (hq : High q)
    (s : List UInt8) : run q (s.flatMap esc) = run q s := by
  induction s generalizing q with
  | nil => rfl
  | cons c s ih =>
    rw [List.flatMap_cons, run_append, run_cons]
    by_cases hc : c < 0x80
    · by_cases hq0 : q = []
      · subst hq0
        rw [(he.ascii c hc).valid, step, lead_ascii hc, Option.bind_some, Option.bind_some,
          ih High.nil]
      · rw [run_ascii hq hq0 (he.ascii c hc) (he.ne_nil c hc), step_ascii hq hq0 hc]
        rfl
    · rw [he.copied c hc, run_cons]
      cases hstep : step q c with
      | none => rfl
      | some q' => exact ih (high_step hq hstep)

theorem valid_flatMap {esc : UInt8 → List UInt8} (he : Escaping esc) (s : List UInt8) :
    Valid (s.flatMap esc) ↔ Valid s := by
  rw [Valid, run_flatMap he High.nil, Valid]

/-! ### Code points -/

theorem exists_tail {q : State} {t : List UInt8} (h : run q t = some []) :
    ∃ x y, t = x ++ y ∧ List.Forall₂ InRange q x ∧ Valid y := by
  induction q generalizing t with
  | nil => exact ⟨[], t, rfl, List.Forall₂.nil, h⟩
  | cons r q ih =>
    cases t with
    | nil => cases h
    | cons c t =>
      rw [run_cons, step] at h
      split at h
      · next hr =>
        obtain ⟨x, y, rfl, hx, hy⟩ := ih h
        exact ⟨c :: x, y, rfl, List.Forall₂.cons hr hx, hy⟩
      · cases h

theorem run_tail {q : State} {x : List UInt8} (h : List.Forall₂ InRange q x) :
    run q x = some [] := by
  induction h with
  | nil => rfl
  | cons hr _ ih => rw [run_cons, step, if_pos hr, Option.bind_some, ih]

theorem CodePoint.valid {u : List UInt8} (h : CodePoint u) : Valid u := by
  obtain ⟨hlead, ht⟩ := h
  rw [Valid, run_cons, step, hlead, Option.bind_some, run_tail ht]

/-- The induction rule: well-formed text is read code point by code point. -/
theorem Valid.induction {P : List UInt8 → Prop} (nil : P [])
    (append : ∀ u s, CodePoint u → Valid s → P s → P (u ++ s)) {s : List UInt8} (hs : Valid s) :
    P s := by
  induction hn : s.length using Nat.strong_induction_on generalizing s with
  | _ n ih =>
    cases s with
    | nil => exact nil
    | cons c t =>
      rw [Valid, run_cons, step] at hs
      obtain ⟨q, hlead, ht⟩ := Option.bind_eq_some_iff.1 hs
      obtain ⟨x, y, rfl, hx, hy⟩ := exists_tail ht
      have hlen : y.length < n := by
        rw [← hn, List.length_cons, List.length_append]
        omega
      exact append (c :: x) y (CodePoint.mk hlead hx) hy (ih _ hlen hy rfl)

/-- A code point is one ASCII character or consists of bytes above ASCII. -/
theorem CodePoint.ascii_or_high {u : List UInt8} (h : CodePoint u) :
    (∃ c < 0x80, u = [c]) ∨ ∀ c ∈ u, ¬ c < 0x80 := by
  obtain @⟨c, q, t, hlead, ht⟩ := h
  by_cases hc : c < 0x80
  · rw [lead_ascii hc] at hlead
    cases hlead
    cases ht
    exact Or.inl ⟨c, hc, rfl⟩
  · refine Or.inr (List.forall_mem_cons.2 ⟨hc, ?_⟩)
    have hhigh := high_lead hlead
    clear hlead hc
    induction ht with
    | nil => exact fun _ h => absurd h List.not_mem_nil
    | cons hr _ ih =>
      obtain ⟨hr', hhigh⟩ := List.forall_mem_cons.1 hhigh
      exact List.forall_mem_cons.2 ⟨UInt8.not_lt.2 (UInt8.le_trans hr' hr.1), ih hhigh⟩

/-! ### Encoding -/

/-- The bytes of a code point. -/
def encode (cp : ℕ) : List UInt8 :=
  if cp < 0x80 then [UInt8.ofNat cp]
  else if cp ≤ 0x7FF then [UInt8.ofNat (0xC0 + cp / 0x40), UInt8.ofNat (0x80 + cp % 0x40)]
  else if cp ≤ 0xFFFF then
    [UInt8.ofNat (0xE0 + cp / 0x1000), UInt8.ofNat (0x80 + cp / 0x40 % 0x40),
      UInt8.ofNat (0x80 + cp % 0x40)]
  else
    [UInt8.ofNat (0xF0 + cp / 0x40000), UInt8.ofNat (0x80 + cp / 0x1000 % 0x40),
      UInt8.ofNat (0x80 + cp / 0x40 % 0x40), UInt8.ofNat (0x80 + cp % 0x40)]

/-- A code point that is no surrogate. -/
def Scalar (cp : ℕ) : Prop := cp ≤ 0x10FFFF ∧ ¬ (0xD800 ≤ cp ∧ cp ≤ 0xDFFF)

theorem inRange_ofNat {l u n : ℕ} (hu : u < 256) (h : l ≤ n ∧ n ≤ u) :
    InRange (UInt8.ofNat l, UInt8.ofNat u) (UInt8.ofNat n) := by
  simp only [InRange, UInt8.le_iff_toNat_le, UInt8.toNat_ofNat']
  omega

theorem inRange_tail {n : ℕ} (h : n < 0x40) : InRange tail (UInt8.ofNat (0x80 + n)) :=
  inRange_ofNat (l := 0x80) (u := 0xBF) (by omega) (by omega)

theorem lead_two : ∀ n : ℕ, n < 0x20 → 2 ≤ n → lead (UInt8.ofNat (0xC0 + n)) = some [tail] := by
  decide

theorem lead_three : ∀ n : ℕ, n < 0x10 → n ≠ 0 ∧ n ≠ 0xD →
    lead (UInt8.ofNat (0xE0 + n)) = some [tail, tail] := by
  decide

theorem lead_four : ∀ n : ℕ, n < 4 → n ≠ 0 →
    lead (UInt8.ofNat (0xF0 + n)) = some [tail, tail, tail] := by
  decide

/-- The bytes of a code point are well formed. -/
theorem valid_encode {cp : ℕ} (h : Scalar cp) : Valid (encode cp) := by
  obtain ⟨hmax, hsur⟩ := h
  have tail₀ : InRange tail (UInt8.ofNat (0x80 + cp % 0x40)) := inRange_tail (by omega)
  have tail₁ : InRange tail (UInt8.ofNat (0x80 + cp / 0x40 % 0x40)) := inRange_tail (by omega)
  have tail₂ : InRange tail (UInt8.ofNat (0x80 + cp / 0x1000 % 0x40)) := inRange_tail (by omega)
  unfold encode
  split
  · next h1 =>
    have hlt : UInt8.ofNat cp < 0x80 := by
      simp only [UInt8.lt_iff_toNat_lt, UInt8.toNat_ofNat']
      change cp % 2 ^ 8 < 128
      omega
    exact Ascii.valid (ascii_cons.2 ⟨hlt, fun _ h => absurd h List.not_mem_nil⟩)
  split
  · exact (CodePoint.mk (lead_two _ (by omega) (by omega)) (.cons tail₀ .nil)).valid
  split
  · -- the two rows of the table whose second byte is restricted
    by_cases h0 : cp / 0x1000 = 0
    · rw [h0]
      have hsnd := inRange_ofNat (l := 0xA0) (u := 0xBF) (n := 0x80 + cp / 0x40 % 0x40)
        (by omega) (by omega)
      exact (CodePoint.mk (q := [(0xA0, 0xBF), tail]) rfl (.cons hsnd (.cons tail₀ .nil))).valid
    by_cases hd : cp / 0x1000 = 0xD
    · rw [hd]
      have hsnd := inRange_ofNat (l := 0x80) (u := 0x9F) (n := 0x80 + cp / 0x40 % 0x40)
        (by omega) (by omega)
      exact (CodePoint.mk (q := [(0x80, 0x9F), tail]) rfl (.cons hsnd (.cons tail₀ .nil))).valid
    · exact (CodePoint.mk (lead_three _ (by omega) ⟨h0, hd⟩) (.cons tail₁ (.cons tail₀ .nil))).valid
  · by_cases h0 : cp / 0x40000 = 0
    · rw [h0]
      have hsnd := inRange_ofNat (l := 0x90) (u := 0xBF) (n := 0x80 + cp / 0x1000 % 0x40)
        (by omega) (by omega)
      exact (CodePoint.mk (q := [(0x90, 0xBF), tail, tail]) rfl
        (.cons hsnd (.cons tail₁ (.cons tail₀ .nil)))).valid
    by_cases h4 : cp / 0x40000 = 4
    · rw [h4]
      have hsnd := inRange_ofNat (l := 0x80) (u := 0x8F) (n := 0x80 + cp / 0x1000 % 0x40)
        (by omega) (by omega)
      exact (CodePoint.mk (q := [(0x80, 0x8F), tail, tail]) rfl
        (.cons hsnd (.cons tail₁ (.cons tail₀ .nil)))).valid
    · exact (CodePoint.mk (lead_four _ (by omega) h0)
        (.cons tail₂ (.cons tail₁ (.cons tail₀ .nil)))).valid

end Utf8
