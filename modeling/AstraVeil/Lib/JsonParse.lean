import AstraVeil.Lib.Json

/-!
# Reading JSON

A reader of JSON texts as two machines: a scanner that takes the text byte by byte and emits
tokens, and a parser that takes the tokens one by one and keeps the arrays and objects that are
still open on a stack.  It follows RFC 8259 with three peculiarities: a byte order mark in front is
skipped, a zero byte between two tokens ends the input, and escapes of unpaired surrogates are
errors.  The members of an object are kept in the order of their names, and the last of several
members of one name wins.

* `clean_parse`: the strings of a value that was read are well-formed UTF-8.
-/

namespace Json

open Utf16 (ascii)
open Utf8 (Valid)

variable {F : Type}

/-! ### Objects -/

/-- The members of an object. -/
abbrev Members (F : Type) := List (List UInt8 × Value F)

/-- Sets a member. -/
def insert (k : List UInt8) (v : Value F) : Members F → Members F
  | [] => [(k, v)]
  | (k', v') :: ms =>
      if k < k' then (k, v) :: (k', v') :: ms
      else if k = k' then (k, v) :: ms
      else (k', v') :: insert k v ms

/-- The value of a member. -/
def find (k : List UInt8) (ms : Members F) : Option (Value F) := ms.lookup k

/-! ### Strings -/

/-- Where the scanner is inside a string: in the text, behind a backslash, at the digits of an
escape (with the high surrogate of the escape before and the number of digits behind the next), or
at the two characters that begin the escape of a low surrogate. -/
inductive StringState
  | text (q : Utf8.State)
  | escape
  | hex (high : Option ℕ) (left acc : ℕ)
  | lowBackslash (high : ℕ)
  | lowU (high : ℕ)

/-- What a byte does inside a string. -/
inductive StringStep
  | error
  | closed
  | next (q : StringState) (out : List UInt8)

/-- The character of a one-letter escape. -/
def unescape (c : UInt8) : Option UInt8 :=
  if c = 0x22 ∨ c = 0x5C ∨ c = 0x2F then some c
  else if c = 0x62 then some 0x08
  else if c = 0x66 then some 0x0C
  else if c = 0x6E then some 0x0A
  else if c = 0x72 then some 0x0D
  else if c = 0x74 then some 0x09
  else none

/-- The value of a hexadecimal digit. -/
def hexValue (c : UInt8) : Option ℕ :=
  if 0x30 ≤ c ∧ c ≤ 0x39 then some (c.toNat - 0x30)
  else if 0x41 ≤ c ∧ c ≤ 0x46 then some (c.toNat - 0x37)
  else if 0x61 ≤ c ∧ c ≤ 0x66 then some (c.toNat - 0x57)
  else none

/-- A high surrogate. -/
def IsHigh (cp : ℕ) : Prop := 0xD800 ≤ cp ∧ cp ≤ 0xDBFF

/-- A low surrogate. -/
def IsLow (cp : ℕ) : Prop := 0xDC00 ≤ cp ∧ cp ≤ 0xDFFF

instance (cp : ℕ) : Decidable (IsHigh cp) := inferInstanceAs (Decidable (_ ∧ _))
instance (cp : ℕ) : Decidable (IsLow cp) := inferInstanceAs (Decidable (_ ∧ _))

/-- The end of an escape with four digits. -/
def finishEscape : Option ℕ → ℕ → StringStep
  | none, cp =>
      if IsHigh cp then .next (.lowBackslash cp) []
      else if IsLow cp then .error
      else .next (.text []) (Utf8.encode cp)
  | some high, cp =>
      if IsLow cp then
        .next (.text []) (Utf8.encode (0x10000 + (high - 0xD800) * 0x400 + (cp - 0xDC00)))
      else .error

/-- One byte of a string behind its opening quote. -/
def scanStringByte : StringState → UInt8 → StringStep
  | .text q, c =>
      if q = [] ∧ c = 0x22 then .closed
      else if q = [] ∧ c = 0x5C then .next .escape []
      -- control characters must be escaped
      else if q = [] ∧ c < 0x20 then .error
      else
        match Utf8.step q c with
        | some q' => .next (.text q') [c]
        | none => .error
  | .escape, c =>
      if c = 0x75 then .next (.hex none 3 0) []
      else
        match unescape c with
        | some e => .next (.text []) [e]
        | none => .error
  | .hex high left acc, c =>
      match hexValue c with
      | none => .error
      | some d =>
        if left = 0 then finishEscape high (acc * 16 + d)
        else .next (.hex high (left - 1) (acc * 16 + d)) []
  | .lowBackslash high, c => if c = 0x5C then .next (.lowU high) [] else .error
  | .lowU high, c => if c = 0x75 then .next (.hex (some high) 3 0) [] else .error

/-! ### Numbers -/

/-- Where the scanner is inside a number. -/
inductive NumberState
  | minus
  | zero
  | any1
  | decimal1
  | decimal2
  | exponent
  | sign
  | any2
  deriving DecidableEq

/-- One byte of a number; `none` where the number does not go on. -/
def scanNumberByte (q : NumberState) (c : UInt8) : Option NumberState :=
  match q with
  | .minus => if c = 0x30 then some .zero else if IsDigit c then some .any1 else none
  | .zero =>
      if c = 0x2E then some .decimal1
      else if c = 0x65 ∨ c = 0x45 then some .exponent
      else none
  | .any1 =>
      if IsDigit c then some .any1
      else if c = 0x2E then some .decimal1
      else if c = 0x65 ∨ c = 0x45 then some .exponent
      else none
  | .decimal1 => if IsDigit c then some .decimal2 else none
  | .decimal2 =>
      if IsDigit c then some .decimal2
      else if c = 0x65 ∨ c = 0x45 then some .exponent
      else none
  | .exponent =>
      if c = 0x2B ∨ c = 0x2D then some .sign else if IsDigit c then some .any2 else none
  | .sign => if IsDigit c then some .any2 else none
  | .any2 => if IsDigit c then some .any2 else none

/-- The number of a list of digits. -/
def ofDecimal (ds : List UInt8) : ℕ := ds.foldl (fun n c => n * 10 + (c.toNat - 0x30)) 0

/-- The value of a numeral without fraction and exponent: a 64-bit integer if it fits. -/
def integerValue (fl : FloatText F) (buf : List UInt8) : Option (Value F) :=
  match buf with
  | 0x2D :: ds =>
      -- numerals outside the 64 bits are read as floating-point numbers
      if ofDecimal ds ≤ 2 ^ 63 then some (.integer (-(ofDecimal ds : ℤ)))
      else (fl.strtod buf).map .float
  | ds => if ofDecimal ds < 2 ^ 64 then some (.unsigned (ofDecimal ds))
      else (fl.strtod buf).map .float

/-- The value of a numeral that ends in the given state. -/
def numberValue (fl : FloatText F) (q : NumberState) (buf : List UInt8) : Option (Value F) :=
  match q with
  | .zero => integerValue fl buf
  | .any1 => integerValue fl buf
  | .decimal2 => (fl.strtod buf).map .float
  | .any2 => (fl.strtod buf).map .float
  | _ => none

/-! ### Tokens -/

/-- A token. -/
inductive Token (F : Type)
  | beginArray
  | endArray
  | beginObject
  | endObject
  | nameSeparator
  | valueSeparator
  | string (s : List UInt8)
  | scalar (v : Value F)

/-- Where the scanner is. -/
inductive LexState (F : Type)
  | idle
  | literal (c : UInt8) (rest : List UInt8) (v : Value F)
  | string (q : StringState) (buf : List UInt8)
  | number (q : NumberState) (buf : List UInt8)

/-- What a byte does: an error, the end of the input, or the next state and the tokens it ends. -/
inductive LexStep (F : Type)
  | error
  | stop (ts : List (Token F))
  | next (q : LexState F) (ts : List (Token F))

/-- A token in front. -/
def LexStep.emit (t : Token F) : LexStep F → LexStep F
  | .error => .error
  | .stop ts => .stop (t :: ts)
  | .next q ts => .next q (t :: ts)

/-- A byte between two tokens. -/
def scanIdle (c : UInt8) : LexStep F :=
  if c = 0x20 ∨ c = 0x09 ∨ c = 0x0A ∨ c = 0x0D then .next .idle []
  else if c = 0x5B then .next .idle [.beginArray]
  else if c = 0x5D then .next .idle [.endArray]
  else if c = 0x7B then .next .idle [.beginObject]
  else if c = 0x7D then .next .idle [.endObject]
  else if c = 0x3A then .next .idle [.nameSeparator]
  else if c = 0x2C then .next .idle [.valueSeparator]
  else if c = 0x74 then .next (.literal 0x72 [0x75, 0x65] (.boolean true)) []
  else if c = 0x66 then .next (.literal 0x61 [0x6C, 0x73, 0x65] (.boolean false)) []
  else if c = 0x6E then .next (.literal 0x75 [0x6C, 0x6C] .null) []
  else if c = 0x22 then .next (.string (.text []) []) []
  else if c = 0x2D then .next (.number .minus [c]) []
  else if c = 0x30 then .next (.number .zero [c]) []
  else if IsDigit c then .next (.number .any1 [c]) []
  -- the library takes a zero byte for the end of the input
  else if c = 0x00 then .stop []
  else .error

/-- One byte. -/
def scanByte (fl : FloatText F) : LexState F → UInt8 → LexStep F
  | .idle, c => scanIdle c
  | .literal d rest v, c =>
      if c = d then
        match rest with
        | [] => .next .idle [.scalar v]
        | d' :: rest' => .next (.literal d' rest' v) []
      else .error
  | .string q buf, c =>
      match scanStringByte q c with
      | .error => .error
      | .closed => .next .idle [.string buf]
      | .next q' out => .next (.string q' (buf ++ out)) []
  | .number q buf, c =>
      match scanNumberByte q c with
      | some q' => .next (.number q' (buf ++ [c])) []
      | none =>
        match numberValue fl q buf with
        | some v => (scanIdle c).emit (.scalar v)
        | none => .error

/-- The end of the text. -/
def scanEnd (fl : FloatText F) : LexState F → Option (List (Token F))
  | .idle => some []
  | .number q buf => (numberValue fl q buf).map fun v => [.scalar v]
  | _ => none

/-- The tokens of a text; `none` is a lexical error. -/
def scan (fl : FloatText F) : LexState F → List UInt8 → Option (List (Token F))
  | q, [] => scanEnd fl q
  | q, c :: t =>
      match scanByte fl q c with
      | .error => none
      | .stop ts => some ts
      | .next q' ts => (scan fl q' t).map (ts ++ ·)

/-! ### Values -/

/-- An array with its elements so far, or an object with its members so far and the name of the
one being read. -/
inductive Frame (F : Type)
  | array (vs : List (Value F))
  | object (ms : Members F) (k : List UInt8)

/-- What the parser expects next. -/
inductive ParseState (F : Type)
  | value (stack : List (Frame F))
  | firstElement (stack : List (Frame F))
  | firstName (stack : List (Frame F))
  | name (ms : Members F) (stack : List (Frame F))
  | colon (ms : Members F) (k : List UInt8) (stack : List (Frame F))
  | afterElement (vs : List (Value F)) (stack : List (Frame F))
  | afterMember (ms : Members F) (stack : List (Frame F))
  | done (v : Value F)

/-- A value is complete. -/
def complete (v : Value F) : List (Frame F) → ParseState F
  | [] => .done v
  | .array vs :: stack => .afterElement (vs ++ [v]) stack
  | .object ms k :: stack => .afterMember (insert k v ms) stack

/-- A token where a value must begin. -/
def parseValue (stack : List (Frame F)) : Token F → Option (ParseState F)
  | .scalar v => some (complete v stack)
  | .string s => some (complete (.string s) stack)
  | .beginArray => some (.firstElement stack)
  | .beginObject => some (.firstName stack)
  | _ => none

/-- One token. -/
def parseToken : ParseState F → Token F → Option (ParseState F)
  | .value stack, t => parseValue stack t
  | .firstElement stack, .endArray => some (complete (.array []) stack)
  | .firstElement stack, t => parseValue (.array [] :: stack) t
  | .firstName stack, .endObject => some (complete (.object []) stack)
  | .firstName stack, .string k => some (.colon [] k stack)
  | .name ms stack, .string k => some (.colon ms k stack)
  | .colon ms k stack, .nameSeparator => some (.value (.object ms k :: stack))
  | .afterElement vs stack, .valueSeparator => some (.value (.array vs :: stack))
  | .afterElement vs stack, .endArray => some (complete (.array vs) stack)
  | .afterMember ms stack, .valueSeparator => some (.name ms stack)
  | .afterMember ms stack, .endObject => some (complete (.object ms) stack)
  | _, _ => none

/-- The value of a list of tokens; `none` is a syntax error. -/
def parseTokens : ParseState F → List (Token F) → Option (Value F)
  | .done v, [] => some v
  | _, [] => none
  | q, t :: ts => (parseToken q t).bind fun q' => parseTokens q' ts

/-- Skips a byte order mark. -/
def skipBom : List UInt8 → Option (List UInt8)
  | 0xEF :: 0xBB :: 0xBF :: t => some t
  | 0xEF :: _ => none
  | t => some t

/-- Reads a text; `none` is an exception. -/
def parse (fl : FloatText F) (b : List UInt8) : Option (Value F) := do
  let t ← skipBom b
  let ts ← scan fl .idle t
  parseTokens (.value []) ts

/-! ### Members of an object -/

theorem find_insert_self (k : List UInt8) (v : Value F) (ms : Members F) :
    find k (insert k v ms) = some v := by
  induction ms with
  | nil => simp [insert, find]
  | cons m ms ih =>
    obtain ⟨k', v'⟩ := m
    rw [insert]
    split
    · simp [find]
    split
    · simp [find]
    · next hne =>
      rw [find, List.lookup_cons, beq_false_of_ne hne]
      exact ih

theorem find_insert_of_ne {k k' : List UInt8} (h : k ≠ k') (v : Value F) (ms : Members F) :
    find k (insert k' v ms) = find k ms := by
  induction ms with
  | nil => simp [insert, find, List.lookup_cons, beq_false_of_ne h]
  | cons m ms ih =>
    obtain ⟨k'', v''⟩ := m
    rw [insert]
    split
    · simp [find, List.lookup_cons, beq_false_of_ne h]
    split
    · next heq =>
      subst heq
      simp [find, List.lookup_cons, beq_false_of_ne h]
    · simp only [find, List.lookup_cons] at ih ⊢
      rw [ih]

/-! ### What the scanner emits -/

/-- The invariant of an escape: few digits so far, and a high surrogate before a second one. -/
def StringState.Ok : StringState → Prop
  | .text _ => True
  | .escape => True
  | .hex high left acc => left ≤ 3 ∧ acc < 16 ^ (3 - left) ∧ ∀ h ∈ high, IsHigh h
  | .lowBackslash high => IsHigh high
  | .lowU high => IsHigh high

/-- The state of a decoder of the text read so far. -/
def StringState.pending : StringState → Utf8.State
  | .text q => q
  | _ => []

theorem hexValue_lt {c : UInt8} {d : ℕ} (h : hexValue c = some d) : d < 16 := by
  unfold hexValue at h
  split at h
  · next hc =>
    have hle : c.toNat ≤ 0x39 := UInt8.le_iff_toNat_le.1 hc.2
    cases h
    omega
  split at h
  · next hc =>
    have hle : c.toNat ≤ 0x46 := UInt8.le_iff_toNat_le.1 hc.2
    cases h
    omega
  split at h
  · next hc =>
    have hle : c.toNat ≤ 0x66 := UInt8.le_iff_toNat_le.1 hc.2
    cases h
    omega
  · cases h

theorem unescape_ascii {c e : UInt8} (h : unescape c = some e) : Utf8.Ascii [e] := by
  unfold unescape at h
  split at h
  · next hc =>
    cases h
    rcases hc with rfl | rfl | rfl <;> decide
  · repeat' split at h
    all_goals
      cases h
    all_goals
      decide

/-- How a string goes on: the inversion of `scanStringByte`. -/
inductive StringNext : StringState → UInt8 → StringState → List UInt8 → Prop
  | plain {u u' : Utf8.State} {c : UInt8} : (u = [] → 0x20 ≤ c ∧ c ≠ 0x22 ∧ c ≠ 0x5C) →
      Utf8.step u c = some u' → StringNext (.text u) c (.text u') [c]
  | backslash : StringNext (.text []) 0x5C .escape []
  | unicode : StringNext .escape 0x75 (.hex none 3 0) []
  | short {c e : UInt8} : unescape c = some e → StringNext .escape c (.text []) [e]
  | digit {high : Option ℕ} {left acc d : ℕ} {c : UInt8} : hexValue c = some d → left ≠ 0 →
      StringNext (.hex high left acc) c (.hex high (left - 1) (acc * 16 + d)) []
  | high {acc d : ℕ} {c : UInt8} : hexValue c = some d → IsHigh (acc * 16 + d) →
      StringNext (.hex none 0 acc) c (.lowBackslash (acc * 16 + d)) []
  | scalar {acc d : ℕ} {c : UInt8} : hexValue c = some d → ¬ IsHigh (acc * 16 + d) →
      ¬ IsLow (acc * 16 + d) →
      StringNext (.hex none 0 acc) c (.text []) (Utf8.encode (acc * 16 + d))
  | low {high acc d : ℕ} {c : UInt8} : hexValue c = some d → IsLow (acc * 16 + d) →
      StringNext (.hex (some high) 0 acc) c (.text [])
        (Utf8.encode (0x10000 + (high - 0xD800) * 0x400 + (acc * 16 + d - 0xDC00)))
  | lowBackslash {high : ℕ} : StringNext (.lowBackslash high) 0x5C (.lowU high) []
  | lowU {high : ℕ} : StringNext (.lowU high) 0x75 (.hex (some high) 3 0) []

theorem stringNext_finishEscape {high : Option ℕ} {acc d : ℕ} {c : UInt8} (hd : hexValue c = some d)
    {q : StringState} {out : List UInt8} (h : finishEscape high (acc * 16 + d) = .next q out) :
    StringNext (.hex high 0 acc) c q out := by
  cases high with
  | none =>
    rw [finishEscape] at h
    split at h
    · next hhigh =>
      cases h
      exact .high hd hhigh
    split at h
    · cases h
    · next hhigh hlow =>
      cases h
      exact .scalar hd hhigh hlow
  | some high =>
    rw [finishEscape] at h
    split at h
    · next hlow =>
      cases h
      exact .low hd hlow
    · cases h

theorem stringNext_of_eq {q q' : StringState} {c : UInt8} {out : List UInt8}
    (h : scanStringByte q c = .next q' out) : StringNext q c q' out := by
  cases q with
  | text u =>
    rw [scanStringByte] at h
    split at h
    · cases h
    split at h
    · next hback =>
      obtain ⟨rfl, rfl⟩ := hback
      cases h
      exact .backslash
    split at h
    · cases h
    split at h
    · next hquote hback hctrl _ u' hstep =>
      cases h
      refine .plain (fun hu => ⟨UInt8.not_lt.1 fun hlt => hctrl ⟨hu, hlt⟩, ?_, ?_⟩) hstep
      · exact fun hc => hquote ⟨hu, hc⟩
      · exact fun hc => hback ⟨hu, hc⟩
    · cases h
  | escape =>
    rw [scanStringByte] at h
    split at h
    · next hu =>
      subst hu
      cases h
      exact .unicode
    split at h
    · next he =>
      cases h
      exact .short he
    · cases h
  | hex high left acc =>
    rw [scanStringByte] at h
    split at h
    · cases h
    · next d hd =>
      split at h
      · next h0 =>
        subst h0
        exact stringNext_finishEscape hd h
      · next h0 =>
        cases h
        exact .digit hd h0
  | lowBackslash high =>
    rw [scanStringByte] at h
    split at h
    · next hc =>
      subst hc
      cases h
      exact .lowBackslash
    · cases h
  | lowU high =>
    rw [scanStringByte] at h
    split at h
    · next hc =>
      subst hc
      cases h
      exact .lowU
    · cases h

/-- One byte inside a string. -/
theorem scanStringByte_next {q q' : StringState} {c : UInt8} {out : List UInt8} (hq : q.Ok)
    (h : scanStringByte q c = .next q' out) :
    q'.Ok ∧ Utf8.run q.pending out = some q'.pending := by
  cases stringNext_of_eq h with
  | plain _ hstep =>
    refine ⟨trivial, ?_⟩
    rw [StringState.pending, Utf8.run_cons, hstep]
    rfl
  | backslash => exact ⟨trivial, rfl⟩
  | unicode => exact ⟨⟨by omega, by decide, fun _ h => by cases h⟩, rfl⟩
  | short he => exact ⟨trivial, (unescape_ascii he).valid⟩
  | @digit high left acc d _ hd h0 =>
    obtain ⟨hleft, hacc, hhigh⟩ := hq
    have hd' := hexValue_lt hd
    have hpow : 16 ^ (3 - (left - 1)) = 16 ^ (3 - left) * 16 := by
      rw [← pow_succ]
      congr 1
      omega
    refine ⟨⟨by omega, ?_, hhigh⟩, rfl⟩
    rw [hpow]
    omega
  | high _ hhigh => exact ⟨hhigh, rfl⟩
  | @scalar acc d _ hd hhigh hlow =>
    obtain ⟨-, hacc, -⟩ := hq
    have hd' := hexValue_lt hd
    refine ⟨trivial, Utf8.valid_encode ⟨by omega, ?_⟩⟩
    unfold IsHigh at hhigh
    unfold IsLow at hlow
    omega
  | @low high acc d _ _ hlow =>
    -- the pair encodes a code point above the basic plane
    have hhigh : IsHigh high := hq.2.2 high rfl
    unfold IsHigh at hhigh
    unfold IsLow at hlow
    exact ⟨trivial, Utf8.valid_encode ⟨by omega, by omega⟩⟩
  | lowBackslash => exact ⟨hq, rfl⟩
  | lowU => exact ⟨⟨by omega, by decide, fun _ h => by cases h; exact hq⟩, rfl⟩

theorem scanStringByte_closed {q : StringState} {c : UInt8} (h : scanStringByte q c = .closed) :
    q.pending = [] := by
  cases q with
  | text q =>
    rw [scanStringByte] at h
    split at h
    · next hq => exact hq.1
    split at h
    · cases h
    split at h
    · cases h
    split at h <;> cases h
  | _ => rfl

/-- The texts of a token are well-formed UTF-8. -/
def Token.Clean : Token F → Prop
  | .string s => Valid s
  | .scalar v => Json.Clean v
  | _ => True

/-- The text read so far is well-formed UTF-8, up to the code point in progress. -/
def LexState.Ok : LexState F → Prop
  | .literal _ _ v => Clean v
  | .string q buf => q.Ok ∧ Utf8.run [] buf = some q.pending
  | _ => True

theorem clean_of_strings {v : Value F} (h : strings v = []) : Clean v := by
  rw [Clean, h]
  exact fun _ h => absurd h List.not_mem_nil

theorem clean_float {o : Option F} {v : Value F} (h : o.map Value.float = some v) : Clean v := by
  obtain ⟨x, -, rfl⟩ := Option.map_eq_some_iff.1 h
  exact clean_of_strings rfl

theorem clean_integerValue {fl : FloatText F} {buf : List UInt8} {v : Value F}
    (h : integerValue fl buf = some v) : Clean v := by
  unfold integerValue at h
  split at h
  all_goals
    split at h
    · cases h
      exact clean_of_strings rfl
    · exact clean_float h

theorem clean_numberValue {fl : FloatText F} {q : NumberState} {buf : List UInt8} {v : Value F}
    (h : numberValue fl q buf = some v) : Clean v := by
  cases q with
  | zero => exact clean_integerValue h
  | any1 => exact clean_integerValue h
  | decimal2 => exact clean_float h
  | any2 => exact clean_float h
  | _ => cases h

/-- A step of the scanner keeps the invariant and emits clean tokens. -/
def LexStep.Ok : LexStep F → Prop
  | .error => True
  | .stop ts => ∀ t ∈ ts, t.Clean
  | .next q ts => q.Ok ∧ ∀ t ∈ ts, t.Clean

theorem LexStep.Ok.emit {t : Token F} (ht : t.Clean) {s : LexStep F} (hs : s.Ok) :
    (s.emit t).Ok := by
  cases s with
  | error => trivial
  | stop ts => exact List.forall_mem_cons.2 ⟨ht, hs⟩
  | next q ts => exact ⟨hs.1, List.forall_mem_cons.2 ⟨ht, hs.2⟩⟩

theorem LexStep.Ok.ite {p : Prop} [Decidable p] {a b : LexStep F} (ha : a.Ok) (hb : b.Ok) :
    (if p then a else b).Ok := by
  split
  · exact ha
  · exact hb

theorem ok_scanIdle (c : UInt8) : (scanIdle c : LexStep F).Ok := by
  have hnone : ∀ t ∈ ([] : List (Token F)), t.Clean := fun _ h => absurd h List.not_mem_nil
  have hone : ∀ {t : Token F}, t.Clean → ∀ t' ∈ [t], t'.Clean := fun ht =>
    List.forall_mem_singleton.2 ht
  unfold scanIdle
  repeat' apply LexStep.Ok.ite
  all_goals first
    | exact ⟨trivial, hnone⟩
    | exact ⟨trivial, hone trivial⟩
    | exact ⟨clean_of_strings rfl, hnone⟩
    | exact ⟨⟨trivial, rfl⟩, hnone⟩
    | exact hnone
    | trivial

theorem ok_scanByte (fl : FloatText F) {q : LexState F} (hq : q.Ok) (c : UInt8) :
    (scanByte fl q c).Ok := by
  have hnone : ∀ t ∈ ([] : List (Token F)), t.Clean := fun _ h => absurd h List.not_mem_nil
  cases q with
  | idle => exact ok_scanIdle c
  | literal d rest v =>
    unfold scanByte
    by_cases hc : c = d
    · cases rest with
      | nil =>
        simp only [if_pos hc]
        exact ⟨trivial, List.forall_mem_singleton.2 hq⟩
      | cons d' rest' =>
        simp only [if_pos hc]
        exact ⟨hq, hnone⟩
    · simp only [if_neg hc]
      trivial
  | string q buf =>
    obtain ⟨hok, hbuf⟩ := hq
    rw [scanByte]
    cases hstep : scanStringByte q c with
    | error => trivial
    | closed =>
      rw [scanStringByte_closed hstep] at hbuf
      exact ⟨trivial, List.forall_mem_singleton.2 hbuf⟩
    | next q' out =>
      obtain ⟨hok', hout⟩ := scanStringByte_next hok hstep
      refine ⟨⟨hok', ?_⟩, hnone⟩
      rw [Utf8.run_append, hbuf, Option.bind_some, hout]
  | number q buf =>
    rw [scanByte]
    cases scanNumberByte q c with
    | some q' => exact ⟨trivial, hnone⟩
    | none =>
      cases hv : numberValue fl q buf with
      | none => trivial
      | some v => exact (ok_scanIdle c).emit (t := .scalar v) (clean_numberValue hv)

/-- A step keeps the states in `I` and emits tokens in `T` only. -/
def LexStep.Within (I : LexState F → Prop) (T : Token F → Prop) : LexStep F → Prop
  | .error => True
  | .stop ts => ∀ t ∈ ts, T t
  | .next q ts => I q ∧ ∀ t ∈ ts, T t

/-- What every step of the scanner keeps holds of all tokens of a text. -/
theorem scan_within {fl : FloatText F} {I : LexState F → Prop} {T : Token F → Prop}
    (hstep : ∀ q c, I q → (scanByte fl q c).Within I T)
    (hnumber : ∀ q buf v, numberValue fl q buf = some v → T (.scalar v)) {q : LexState F} (hq : I q)
    {b : List UInt8} {ts : List (Token F)} (h : scan fl q b = some ts) : ∀ t ∈ ts, T t := by
  induction b generalizing q ts with
  | nil =>
    cases q with
    | idle =>
      cases h
      exact fun _ h => absurd h List.not_mem_nil
    | number q buf =>
      obtain ⟨v, hv, rfl⟩ := Option.map_eq_some_iff.1 h
      exact List.forall_mem_singleton.2 (hnumber q buf v hv)
    | _ => cases h
  | cons c b ih =>
    have hwithin := hstep q c hq
    rw [scan] at h
    split at h
    · cases h
    · next hc =>
      cases h
      rw [hc] at hwithin
      exact hwithin
    · next q' ts' hc =>
      rw [hc] at hwithin
      obtain ⟨ts'', hts'', rfl⟩ := Option.map_eq_some_iff.1 h
      exact List.forall_mem_append.2 ⟨hwithin.2, ih hwithin.1 hts''⟩

theorem LexStep.Ok.within {s : LexStep F} (h : s.Ok) : s.Within LexState.Ok Token.Clean := by
  cases s with
  | error => trivial
  | stop ts => exact h
  | next q ts => exact h

/-- Every token of a text is clean. -/
theorem clean_scan (fl : FloatText F) {q : LexState F} (hq : q.Ok) {b : List UInt8}
    {ts : List (Token F)} (h : scan fl q b = some ts) : ∀ t ∈ ts, t.Clean :=
  scan_within (fun _ c hq => (ok_scanByte fl hq c).within) (fun _ _ _ => clean_numberValue) hq h

/-! ### What the parser builds -/

theorem stringsElements_append (vs ws : List (Value F)) :
    stringsElements (vs ++ ws) = stringsElements vs ++ stringsElements ws := by
  induction vs with
  | nil => rfl
  | cons v vs ih => rw [List.cons_append, stringsElements, ih, stringsElements, List.append_assoc]

theorem clean_elements {vs : List (Value F)} (hvs : Clean (.array vs)) {v : Value F}
    (hv : Clean v) : Clean (.array (vs ++ [v])) := by
  rw [Clean, strings, stringsElements_append]
  refine List.forall_mem_append.2 ⟨hvs, ?_⟩
  rw [stringsElements, stringsElements, List.append_nil]
  exact hv

theorem clean_object_cons {k : List UInt8} {v : Value F} {ms : Members F} :
    Clean (.object ((k, v) :: ms)) ↔ Valid k ∧ Clean v ∧ Clean (.object ms) := by
  rw [Clean, strings, stringsMembers, List.forall_mem_cons, List.forall_mem_append]
  rfl

theorem clean_insert {k : List UInt8} (hk : Valid k) {v : Value F} (hv : Clean v)
    {ms : Members F} (hms : Clean (.object ms)) : Clean (.object (insert k v ms)) := by
  induction ms with
  | nil => exact clean_object_cons.2 ⟨hk, hv, hms⟩
  | cons m ms ih =>
    obtain ⟨k', v'⟩ := m
    obtain ⟨hk', hv', hms'⟩ := clean_object_cons.1 hms
    rw [insert]
    split
    · exact clean_object_cons.2 ⟨hk, hv, hms⟩
    split
    · exact clean_object_cons.2 ⟨hk, hv, hms'⟩
    · exact clean_object_cons.2 ⟨hk', hv', ih hms'⟩

theorem mem_insert {k : List UInt8} {v : Value F} {ms : Members F} {m : List UInt8 × Value F}
    (h : m ∈ insert k v ms) : m = (k, v) ∨ m ∈ ms := by
  induction ms with
  | nil => exact Or.inl (List.mem_singleton.1 h)
  | cons m' ms ih =>
    obtain ⟨k', v'⟩ := m'
    rw [insert] at h
    split at h
    · exact List.mem_cons.1 h
    split at h
    · rcases List.mem_cons.1 h with h | h
      · exact Or.inl h
      · exact Or.inr (List.mem_cons_of_mem _ h)
    · rcases List.mem_cons.1 h with h | h
      · exact Or.inr (h ▸ List.mem_cons_self)
      · exact (ih h).imp_right (List.mem_cons_of_mem _)

/-- A new member is clean with the object. -/
theorem clean_insert_iff {k : List UInt8} {v : Value F} {ms : Members F}
    (hk : ∀ m ∈ ms, m.1 ≠ k) :
    Clean (.object (insert k v ms)) ↔ Valid k ∧ Clean v ∧ Clean (.object ms) := by
  refine ⟨?_, fun h => clean_insert h.1 h.2.1 h.2.2⟩
  induction ms with
  | nil => exact clean_object_cons.1
  | cons m ms ih =>
    obtain ⟨k', v'⟩ := m
    obtain ⟨hk', hms⟩ := List.forall_mem_cons.1 hk
    intro h
    rw [insert] at h
    split at h
    · exact clean_object_cons.1 h
    · rw [if_neg fun heq => hk' heq.symm] at h
      obtain ⟨hvk', hv', h⟩ := clean_object_cons.1 h
      obtain ⟨hvk, hv, h⟩ := ih hms h
      exact ⟨hvk, hv, clean_object_cons.2 ⟨hvk', hv', h⟩⟩

/-- The values of a frame are clean. -/
def Frame.Clean : Frame F → Prop
  | .array vs => Json.Clean (.array vs)
  | .object ms k => Json.Clean (.object ms) ∧ Valid k

/-- Everything the parser has read is clean. -/
def ParseState.Clean : ParseState F → Prop
  | .value stack => ∀ f ∈ stack, f.Clean
  | .firstElement stack => ∀ f ∈ stack, f.Clean
  | .firstName stack => ∀ f ∈ stack, f.Clean
  | .name ms stack => Json.Clean (.object ms) ∧ ∀ f ∈ stack, f.Clean
  | .colon ms k stack => (Json.Clean (.object ms) ∧ Valid k) ∧ ∀ f ∈ stack, f.Clean
  | .afterElement vs stack => Json.Clean (.array vs) ∧ ∀ f ∈ stack, f.Clean
  | .afterMember ms stack => Json.Clean (.object ms) ∧ ∀ f ∈ stack, f.Clean
  | .done v => Json.Clean v

theorem clean_complete {v : Value F} (hv : Clean v) {stack : List (Frame F)}
    (hs : ∀ f ∈ stack, f.Clean) : (complete v stack).Clean := by
  cases stack with
  | nil => exact hv
  | cons f stack =>
    obtain ⟨hf, hstack⟩ := List.forall_mem_cons.1 hs
    cases f with
    | array vs => exact ⟨clean_elements hf hv, hstack⟩
    | object ms k => exact ⟨clean_insert hf.2 hv hf.1, hstack⟩

theorem clean_string {s : List UInt8} (h : Valid s) : Clean (.string s : Value F) :=
  List.forall_mem_singleton.2 h

theorem clean_parseValue {stack : List (Frame F)} (hs : ∀ f ∈ stack, f.Clean) {t : Token F}
    (ht : t.Clean) {q : ParseState F} (h : parseValue stack t = some q) : q.Clean := by
  cases t with
  | scalar v =>
    cases h
    exact clean_complete ht hs
  | string s =>
    cases h
    exact clean_complete (clean_string ht) hs
  | beginArray =>
    cases h
    exact hs
  | beginObject =>
    cases h
    exact hs
  | _ => cases h

/-- A token keeps the parser clean. -/
theorem clean_parseToken {q : ParseState F} (hq : q.Clean) {t : Token F} (ht : t.Clean)
    {q' : ParseState F} (h : parseToken q t = some q') : q'.Clean := by
  have hempty : Clean (.array [] : Value F) := clean_of_strings rfl
  have hobject : Clean (.object [] : Value F) := clean_of_strings rfl
  unfold parseToken at h
  split at h
  · exact clean_parseValue hq ht h
  · cases h
    exact clean_complete hempty hq
  · next stack t =>
    have hstack : ∀ f ∈ Frame.array [] :: stack, f.Clean := List.forall_mem_cons.2 ⟨hempty, hq⟩
    exact clean_parseValue hstack ht h
  · cases h
    exact clean_complete hobject hq
  · cases h
    exact ⟨⟨hobject, ht⟩, hq⟩
  · cases h
    exact ⟨⟨hq.1, ht⟩, hq.2⟩
  · cases h
    exact List.forall_mem_cons.2 hq
  · cases h
    exact List.forall_mem_cons.2 hq
  · cases h
    exact clean_complete hq.1 hq.2
  · cases h
    exact hq
  · cases h
    exact clean_complete hq.1 hq.2
  · cases h

theorem clean_parseTokens {q : ParseState F} (hq : q.Clean) {ts : List (Token F)}
    (hts : ∀ t ∈ ts, t.Clean) {v : Value F} (h : parseTokens q ts = some v) : Clean v := by
  induction ts generalizing q with
  | nil =>
    cases q with
    | done v' =>
      cases h
      exact hq
    | _ => cases h
  | cons t ts ih =>
    obtain ⟨ht, hts⟩ := List.forall_mem_cons.1 hts
    rw [parseTokens] at h
    obtain ⟨q', hq', h⟩ := Option.bind_eq_some_iff.1 h
    exact ih (clean_parseToken hq ht hq') hts h

/-- **The strings of a value that was read are well-formed UTF-8.** -/
theorem clean_parse {fl : FloatText F} {b : List UInt8} {v : Value F} (h : parse fl b = some v) :
    Clean v := by
  unfold parse at h
  obtain ⟨t, -, h⟩ := Option.bind_eq_some_iff.1 h
  obtain ⟨ts, hts, h⟩ := Option.bind_eq_some_iff.1 h
  exact clean_parseTokens (q := .value []) (fun _ h => absurd h List.not_mem_nil)
    (clean_scan fl (q := .idle) trivial hts) h

end Json
