import AstraVeil.Lib.JsonParse

/-!
# Where the strings of a JSON value stand in its text

The reader of `JsonParse` followed step by step, for texts of which only a part is known: every
string member of an object that was read stands in the tokens behind its name and a colon, and a
string that the scanner emits is no longer than the bytes it was read from.

* `infix_of_parse`: name, colon and value of a string member are neighbours;
* `scan_quoted`: a text without escapes between two quotes is one token;
* `Ends`: a rest of a text that can only close a string that is open;
* `scan_string`: what a part of a text in front of such a rest can become;
* `plainText_of_scan`: a string as long as the text it was read from is that text.
-/

namespace Json

open Utf8 (Valid)

variable {F : Type}

/-! ### Names and values -/

/-- A scalar that is neither a string nor an object. -/
def Token.Simple : Token F → Prop
  | .scalar v => (∀ s, v ≠ .string s) ∧ ∀ ms, v ≠ .object ms
  | _ => True

/-- The string members stand behind their names. -/
def Recorded (pre : List (Token F)) (ms : Members F) : Prop :=
  ∀ k s, (k, Value.string s) ∈ ms → [.string k, .nameSeparator, .string s] <:+: pre

/-- The string members of a frame stand behind their names. -/
def Frame.Recorded (pre : List (Token F)) : Frame F → Prop
  | .array _ => True
  | .object ms _ => Json.Recorded pre ms

/-- The tokens so far explain everything the parser has read. -/
def ParseState.Recorded (pre : List (Token F)) : ParseState F → Prop
  | .value stack => (∀ f ∈ stack, f.Recorded pre) ∧
      ∀ ms k rest, stack = .object ms k :: rest → [.string k, .nameSeparator] <:+ pre
  | .firstElement stack => ∀ f ∈ stack, f.Recorded pre
  | .firstName stack => ∀ f ∈ stack, f.Recorded pre
  | .name ms stack => Json.Recorded pre ms ∧ ∀ f ∈ stack, f.Recorded pre
  | .colon ms k stack =>
      (Json.Recorded pre ms ∧ ∀ f ∈ stack, f.Recorded pre) ∧ [.string k] <:+ pre
  | .afterElement _ stack => ∀ f ∈ stack, f.Recorded pre
  | .afterMember ms stack => Json.Recorded pre ms ∧ ∀ f ∈ stack, f.Recorded pre
  | .done v => ∀ ms, v = .object ms → Json.Recorded pre ms

theorem recorded_nil (pre : List (Token F)) : Recorded pre [] :=
  fun _ _ h => absurd h List.not_mem_nil

section Parser

variable {pre : List (Token F)} {t : Token F} {stack : List (Frame F)}

theorem Recorded.snoc {ms : Members F} (h : Recorded pre ms) (t : Token F) :
    Recorded (pre ++ [t]) ms :=
  fun k s hm => (h k s hm).trans (List.prefix_append pre [t]).isInfix

theorem Frame.Recorded.snoc {f : Frame F} (h : f.Recorded pre) (t : Token F) :
    f.Recorded (pre ++ [t]) := by
  cases f with
  | array vs => trivial
  | object ms k => exact Json.Recorded.snoc h t

theorem recorded_complete {v : Value F} (hstack : ∀ f ∈ stack, f.Recorded pre)
    (hobject : ∀ ms, v = .object ms → Recorded pre ms)
    (hstring : ∀ s ms k rest, v = .string s → stack = .object ms k :: rest →
      [.string k, .nameSeparator, .string s] <:+: pre) :
    (complete v stack).Recorded pre := by
  cases stack with
  | nil => exact hobject
  | cons f stack =>
    obtain ⟨hf, hrest⟩ := List.forall_mem_cons.1 hstack
    cases f with
    | array vs => exact hrest
    | object ms k =>
      refine ⟨fun k' s hm => ?_, hrest⟩
      rcases mem_insert hm with heq | hm
      · obtain ⟨rfl, hv⟩ := Prod.mk.inj heq
        exact hstring s ms k' stack hv.symm rfl
      · exact hf k' s hm

theorem recorded_parseValue (hstack : ∀ f ∈ stack, f.Recorded pre)
    (hkey : ∀ ms k rest, stack = .object ms k :: rest → [.string k, .nameSeparator] <:+ pre)
    (ht : t.Simple) {q : ParseState F} (h : parseValue stack t = some q) :
    q.Recorded (pre ++ [t]) := by
  have hstack' : ∀ f ∈ stack, f.Recorded (pre ++ [t]) := fun f hf => (hstack f hf).snoc t
  cases t with
  | scalar v =>
    cases h
    exact recorded_complete hstack' (fun ms hv => absurd hv (ht.2 ms))
      (fun s _ _ _ hv => absurd hv (ht.1 s))
  | string s =>
    cases h
    refine recorded_complete hstack' (fun ms hv => by cases hv) ?_
    intro s' ms k rest hv hs
    cases hv
    -- the name and its colon are the last two tokens
    obtain ⟨front, rfl⟩ := hkey ms k rest hs
    exact ⟨front, [], by simp⟩
  | beginArray =>
    cases h
    exact hstack'
  | beginObject =>
    cases h
    exact hstack'
  | _ => cases h

/-- A token keeps everything explained. -/
theorem recorded_parseToken {q q' : ParseState F} (hq : q.Recorded pre) (ht : t.Simple)
    (h : parseToken q t = some q') : q'.Recorded (pre ++ [t]) := by
  have snoc : ∀ {stack : List (Frame F)}, (∀ f ∈ stack, f.Recorded pre) →
      ∀ f ∈ stack, f.Recorded (pre ++ [t]) := fun hs f hf => (hs f hf).snoc t
  unfold parseToken at h
  split at h
  · exact recorded_parseValue hq.1 hq.2 ht h
  · cases h
    exact recorded_complete (snoc hq) (fun ms hv => by cases hv) (fun s _ _ _ hv => by cases hv)
  · next stack t =>
    have hstack : ∀ f ∈ Frame.array [] :: stack, f.Recorded pre :=
      List.forall_mem_cons.2 ⟨trivial, hq⟩
    exact recorded_parseValue hstack (fun ms k rest hs => by cases hs) ht h
  · cases h
    refine recorded_complete (snoc hq) (fun ms hv => ?_) (fun s _ _ _ hv => by cases hv)
    cases hv
    exact recorded_nil _
  · cases h
    exact ⟨⟨recorded_nil _, snoc hq⟩, List.suffix_append pre _⟩
  · cases h
    exact ⟨⟨hq.1.snoc _, snoc hq.2⟩, List.suffix_append pre _⟩
  · cases h
    refine ⟨List.forall_mem_cons.2 ⟨hq.1.1.snoc _, snoc hq.1.2⟩, ?_⟩
    intro ms k rest hs
    cases hs
    obtain ⟨front, rfl⟩ := hq.2
    exact ⟨front, by simp⟩
  · cases h
    exact ⟨List.forall_mem_cons.2 ⟨trivial, snoc hq⟩, fun ms k rest hs => by cases hs⟩
  · cases h
    exact recorded_complete (snoc hq) (fun ms hv => by cases hv) (fun s _ _ _ hv => by cases hv)
  · cases h
    exact ⟨hq.1.snoc _, snoc hq.2⟩
  · cases h
    refine recorded_complete (snoc hq.2) (fun ms hv => ?_) (fun s _ _ _ hv => by cases hv)
    cases hv
    exact hq.1.snoc _
  · cases h

theorem recorded_parseTokens {q : ParseState F} (hq : q.Recorded pre) {ts : List (Token F)}
    (hts : ∀ t ∈ ts, t.Simple) {ms : Members F} (h : parseTokens q ts = some (.object ms)) :
    Recorded (pre ++ ts) ms := by
  induction ts generalizing q pre with
  | nil =>
    cases q with
    | done v =>
      cases h
      rw [List.append_nil]
      exact hq ms rfl
    | _ => cases h
  | cons t ts ih =>
    obtain ⟨ht, hts⟩ := List.forall_mem_cons.1 hts
    rw [parseTokens] at h
    obtain ⟨q', hq', h⟩ := Option.bind_eq_some_iff.1 h
    rw [← List.singleton_append, ← List.append_assoc]
    exact ih (recorded_parseToken hq ht hq') hts h

end Parser

/-! ### One byte of the scanner -/

/-- The bytes of an escape that has begun. -/
def StringState.credit : StringState → ℕ
  | .text _ => 0
  | .escape => 1
  | .hex none left _ => 5 - left
  | .hex (some _) left _ => 11 - left
  | .lowBackslash _ => 6
  | .lowU _ => 7

/-- The bytes that the open string has at least taken. -/
def LexState.size : LexState F → ℕ
  | .string q buf => buf.length + q.credit
  | _ => 0

/-- A literal has no quotes, and is no string and no object. -/
def LexState.Fine : LexState F → Prop
  | .literal d rest v => (d :: rest).contains 0x22 = false ∧ (Token.scalar v).Simple
  | _ => True

/-- A token that is no string longer than this. -/
def Token.Short (n : ℕ) (t : Token F) : Prop := t.Simple ∧ ∀ s, t = .string s → s.length ≤ n

/-- A step adds at most one byte to the open string and emits no longer one. -/
def LexStep.Bounded (n : ℕ) : LexStep F → Prop
  | .error => True
  | .stop ts => ∀ t ∈ ts, t.Simple ∧ ∀ s, t ≠ .string s
  | .next q ts => (q.Fine ∧ q.size ≤ n + 1) ∧ ∀ t ∈ ts, t.Short n

theorem LexStep.Bounded.ite {n : ℕ} {p : Prop} [Decidable p] {a b : LexStep F} (ha : a.Bounded n)
    (hb : b.Bounded n) : (if p then a else b).Bounded n := by
  split
  · exact ha
  · exact hb

theorem LexStep.Bounded.emit {v : Value F} (hv : (Token.scalar v).Simple) {n : ℕ} {s : LexStep F}
    (hs : s.Bounded n) : (s.emit (.scalar v)).Bounded n := by
  cases s with
  | error => trivial
  | stop ts => exact List.forall_mem_cons.2 ⟨⟨hv, fun s h => by cases h⟩, hs⟩
  | next q ts => exact ⟨hs.1, List.forall_mem_cons.2 ⟨⟨hv, fun s h => by cases h⟩, hs.2⟩⟩

theorem bounded_scanIdle (c : UInt8) : (scanIdle c : LexStep F).Bounded 0 := by
  have hnone : ∀ t ∈ ([] : List (Token F)), t.Short 0 := fun _ h => absurd h List.not_mem_nil
  have hone : ∀ {t : Token F}, t.Simple → (∀ s, t ≠ .string s) → ∀ t' ∈ [t], t'.Short 0 :=
    fun ht hs => List.forall_mem_singleton.2 ⟨ht, fun s h => absurd h (hs s)⟩
  have hplain : ∀ {v : Value F}, (∀ s, v ≠ .string s) → (∀ ms, v ≠ .object ms) →
      (Token.scalar v).Simple := fun h₁ h₂ => ⟨h₁, h₂⟩
  unfold scanIdle
  repeat' apply LexStep.Bounded.ite
  all_goals first
    | exact ⟨⟨trivial, Nat.zero_le _⟩, hnone⟩
    | exact ⟨⟨trivial, Nat.zero_le _⟩, hone trivial (fun s h => by cases h)⟩
    | exact ⟨⟨⟨by decide, hplain (fun s h => by cases h) (fun ms h => by cases h)⟩,
        Nat.zero_le _⟩, hnone⟩
    | exact fun _ h => absurd h List.not_mem_nil
    | trivial

theorem simple_numberValue {fl : FloatText F} {q : NumberState} {buf : List UInt8} {v : Value F}
    (h : numberValue fl q buf = some v) : (Token.scalar v).Simple := by
  have hfloat : ∀ {o : Option F}, o.map Value.float = some v → (Token.scalar v).Simple := by
    intro o ho
    obtain ⟨x, -, rfl⟩ := Option.map_eq_some_iff.1 ho
    exact ⟨fun s h => (by cases h), fun ms h => (by cases h)⟩
  have hinteger : integerValue fl buf = some v → (Token.scalar v).Simple := by
    intro hi
    unfold integerValue at hi
    split at hi
    all_goals
      split at hi
      · cases hi
        exact ⟨fun s h => (by cases h), fun ms h => (by cases h)⟩
      · exact hfloat hi
  cases q with
  | zero => exact hinteger h
  | any1 => exact hinteger h
  | decimal2 => exact hfloat h
  | any2 => exact hfloat h
  | _ => cases h

theorem length_encode (cp : ℕ) : (Utf8.encode cp).length ≤ 4 := by
  unfold Utf8.encode
  split_ifs <;> simp

/-- One byte adds at most one, and less at the end of an escape. -/
theorem credit_scanStringByte {q q' : StringState} {c : UInt8} {out : List UInt8}
    (h : scanStringByte q c = .next q' out) :
    out.length + q'.credit ≤ q.credit + 1 ∧
      ((∀ u, q ≠ .text u) → ∀ u', q' = .text u' → out.length ≤ q.credit) := by
  cases stringNext_of_eq h with
  | @plain u => exact ⟨Nat.le_refl _, fun hu => absurd rfl (hu u)⟩
  | backslash => exact ⟨Nat.le_refl _, fun hu => absurd rfl (hu [])⟩
  | unicode => exact ⟨Nat.le_refl _, fun _ u' hu => by cases hu⟩
  | short _ => exact ⟨Nat.le_succ _, fun _ _ _ => Nat.le_refl _⟩
  | @digit high =>
    refine ⟨?_, fun _ u' hu => by cases hu⟩
    cases high with
    | none =>
      simp only [StringState.credit, List.length_nil]
      omega
    | some high =>
      simp only [StringState.credit, List.length_nil]
      omega
  | high => exact ⟨Nat.le_refl _, fun _ u' hu => by cases hu⟩
  | @scalar acc d =>
    -- six bytes of the text become at most four
    have hlen := length_encode (acc * 16 + d)
    simp only [StringState.credit]
    exact ⟨by omega, fun _ _ _ => by omega⟩
  | @low high acc d =>
    have hlen := length_encode (0x10000 + (high - 0xD800) * 0x400 + (acc * 16 + d - 0xDC00))
    simp only [StringState.credit]
    exact ⟨by omega, fun _ _ _ => by omega⟩
  | lowBackslash => exact ⟨Nat.le_refl _, fun _ u' hu => by cases hu⟩
  | lowU => exact ⟨Nat.le_refl _, fun _ u' hu => by cases hu⟩

theorem bounded_scanByte (fl : FloatText F) {q : LexState F} (hq : q.Fine) (c : UInt8) :
    (scanByte fl q c).Bounded q.size := by
  have hnone : ∀ {n : ℕ}, ∀ t ∈ ([] : List (Token F)), t.Short n :=
    fun _ h => absurd h List.not_mem_nil
  cases q with
  | idle => exact bounded_scanIdle c
  | literal d rest v =>
    obtain ⟨hquote, hv⟩ := hq
    unfold scanByte
    by_cases hc : c = d
    · cases rest with
      | nil =>
        simp only [if_pos hc]
        exact ⟨⟨trivial, Nat.zero_le _⟩,
          List.forall_mem_singleton.2 ⟨hv, fun s h => by cases h⟩⟩
      | cons d' rest' =>
        simp only [if_pos hc]
        rw [List.contains_cons, Bool.or_eq_false_iff] at hquote
        exact ⟨⟨⟨hquote.2, hv⟩, Nat.zero_le _⟩, hnone⟩
    · simp only [if_neg hc]
      trivial
  | string q buf =>
    rw [scanByte]
    cases hstep : scanStringByte q c with
    | error => trivial
    | closed =>
      refine ⟨⟨trivial, Nat.zero_le _⟩, List.forall_mem_singleton.2 ⟨trivial, fun s hs => ?_⟩⟩
      cases hs
      exact Nat.le_add_right _ _
    | next q' out =>
      have hcredit := (credit_scanStringByte hstep).1
      refine ⟨⟨trivial, ?_⟩, hnone⟩
      simp only [LexState.size, List.length_append]
      omega
  | number q buf =>
    rw [scanByte]
    cases scanNumberByte q c with
    | some q' => exact ⟨⟨trivial, Nat.zero_le _⟩, hnone⟩
    | none =>
      cases hv : numberValue fl q buf with
      | none => trivial
      | some v => exact (bounded_scanIdle c).emit (simple_numberValue hv)

/-! ### Texts that are copied -/

/-- A text that a string holds as it is. -/
def PlainText (s : List UInt8) : Prop := Valid s ∧ ∀ c ∈ s, 0x20 ≤ c ∧ c ≠ 0x22 ∧ c ≠ 0x5C

instance (s : List UInt8) : Decidable (PlainText s) :=
  @instDecidableAnd _ _ (inferInstanceAs (Decidable (Valid s)))
    (List.decidableBAll (fun c => 0x20 ≤ c ∧ c ≠ 0x22 ∧ c ≠ 0x5C) s)

theorem PlainText.append {s t : List UInt8} (hs : PlainText s) (ht : PlainText t) :
    PlainText (s ++ t) :=
  ⟨hs.1.append ht.1, List.forall_mem_append.2 ⟨hs.2, ht.2⟩⟩

theorem plainText_natDecimal (n : ℕ) : PlainText (natDecimal n) := by
  refine ⟨(digitText_natDecimal n).ascii.valid, fun c hc => ?_⟩
  obtain ⟨hge, hle⟩ := (digitText_natDecimal n).2 c hc
  refine ⟨UInt8.le_trans (by decide) hge, ?_, ?_⟩
  · rintro rfl
    exact absurd hge (by decide)
  · rintro rfl
    exact absurd hle (by decide)

theorem scanStringByte_plain {u u' : Utf8.State} {c : UInt8} (hc : 0x20 ≤ c ∧ c ≠ 0x22 ∧ c ≠ 0x5C)
    (hstep : Utf8.step u c = some u') : scanStringByte (.text u) c = .next (.text u') [c] := by
  rw [scanStringByte, if_neg fun h => hc.2.1 h.2, if_neg fun h => hc.2.2 h.2,
    if_neg fun h => UInt8.not_lt.2 hc.1 h.2, hstep]

/-- Plain bytes inside a string are copied. -/
theorem scan_plain (fl : FloatText F) {s : List UInt8}
    (hs : ∀ c ∈ s, 0x20 ≤ c ∧ c ≠ 0x22 ∧ c ≠ 0x5C) {u u' : Utf8.State}
    (hrun : Utf8.run u s = some u') (buf rest : List UInt8) :
    scan fl (.string (.text u) buf) (s ++ rest) =
      scan fl (.string (.text u') (buf ++ s)) rest := by
  induction s generalizing u buf with
  | nil =>
    cases hrun
    rw [List.nil_append, List.append_nil]
  | cons c s ih =>
    obtain ⟨hc, hs⟩ := List.forall_mem_cons.1 hs
    rw [Utf8.run_cons] at hrun
    obtain ⟨v, hstep, hrun⟩ := Option.bind_eq_some_iff.1 hrun
    rw [List.cons_append, scan, scanByte, scanStringByte_plain hc hstep]
    simp only [List.nil_append, Option.map_id']
    rw [ih hs hrun, List.append_assoc, List.singleton_append]

/-- A quote that is not part of an escape closes the string. -/
theorem scan_close (fl : FloatText F) (buf rest : List UInt8) :
    scan fl (.string (.text []) buf) (0x22 :: rest) =
      (scan fl .idle rest).map (.string buf :: ·) :=
  rfl

theorem scan_beginObject (fl : FloatText F) (rest : List UInt8) :
    scan fl .idle (0x7B :: rest) = (scan fl .idle rest).map (.beginObject :: ·) := rfl

theorem scan_nameSeparator (fl : FloatText F) (rest : List UInt8) :
    scan fl .idle (0x3A :: rest) = (scan fl .idle rest).map (.nameSeparator :: ·) := rfl

theorem scan_valueSeparator (fl : FloatText F) (rest : List UInt8) :
    scan fl .idle (0x2C :: rest) = (scan fl .idle rest).map (.valueSeparator :: ·) := rfl

theorem scan_open (fl : FloatText F) (rest : List UInt8) :
    scan fl .idle (0x22 :: rest) = scan fl (.string (.text []) []) rest := by
  rw [scan]
  show (scan fl (.string (.text []) []) rest).map ([] ++ ·) = _
  exact Option.map_id'

/-- A plain text between quotes is one token. -/
theorem scan_quoted (fl : FloatText F) {s : List UInt8} (hs : PlainText s) (rest : List UInt8) :
    scan fl .idle (0x22 :: (s ++ 0x22 :: rest)) = (scan fl .idle rest).map (.string s :: ·) := by
  rw [scan_open, scan_plain fl hs.2 hs.1, List.nil_append, scan_close]

/-! ### A part of a text in front of a known rest -/

/-- A rest of a text that closes a string, if one is open, and has the tokens `P` behind it; if none
is open, it has no string at all. -/
def Ends (fl : FloatText F) (rest : List UInt8) (P : List (Token F)) : Prop :=
  ∀ (q : LexState F) (toks : List (Token F)), q.Ok → q.Fine → scan fl q rest = some toks →
    (∃ buf, q = .string (.text []) buf ∧ toks = .string buf :: P) ∨
      ((∀ st buf, q ≠ .string st buf) ∧ ∀ s, Token.string s ∉ toks)

/-- The end of the text closes no string. -/
theorem ends_nil (fl : FloatText F) : Ends fl [] [] := by
  intro q toks _ _ h
  right
  cases q with
  | idle =>
    cases h
    exact ⟨fun _ _ h => (by cases h), fun _ h => absurd h List.not_mem_nil⟩
  | number q buf =>
    obtain ⟨v, -, rfl⟩ := Option.map_eq_some_iff.1 h
    refine ⟨fun _ _ h => (by cases h), fun s hs => ?_⟩
    cases List.mem_singleton.1 hs
  | _ => cases h

section Quotes

variable {fl : FloatText F} {c : UInt8} {rest : List UInt8} {P : List (Token F)}

/-- A string that is open in front of a comma and a quote ends there, and an error follows. -/
theorem scan_comma_quote (hc : (scanIdle c : LexStep F) = .error) (buf : List UInt8) :
    scan fl (.string (.text []) buf) (0x2C :: 0x22 :: c :: rest) = none := by
  have hcomma : scan fl (.string (.text []) buf) (0x2C :: 0x22 :: c :: rest) =
      (scan fl (.string (.text []) (buf ++ [0x2C])) (0x22 :: c :: rest)).map ([] ++ ·) := rfl
  have hidle : scan fl .idle (c :: rest) = none := by
    rw [scan, scanByte, hc]
  rw [hcomma, scan_close, hidle]
  rfl

/-- A quote closes a string only where no code point and no escape is open. -/
theorem scan_quote_string (hc : (scanIdle c : LexStep F) = .error)
    (hP : scan fl .idle (0x2C :: 0x22 :: c :: rest) = some P) {st : StringState}
    {buf : List UInt8} (hok : (LexState.string st buf : LexState F).Ok) {toks : List (Token F)}
    (h : scan fl (.string st buf) (0x22 :: 0x2C :: 0x22 :: c :: rest) = some toks) :
    st = .text [] ∧ toks = .string buf :: P := by
  cases st with
  | text u =>
    by_cases hu : u = []
    · subst hu
      rw [scan_close, hP] at h
      cases h
      exact ⟨rfl, rfl⟩
    · have hhigh : Utf8.High u := Utf8.high_run Utf8.High.nil hok.2
      have herror : scanStringByte (.text u) 0x22 = .error := by
        rw [scanStringByte, if_neg fun h => hu h.1, if_neg fun h => hu h.1,
          if_neg fun h => hu h.1, Utf8.step_ascii hhigh hu (by decide)]
      rw [scan, scanByte, herror] at h
      cases h
  | escape =>
    have hescape : scan fl (.string .escape buf) (0x22 :: 0x2C :: 0x22 :: c :: rest) =
        (scan fl (.string (.text []) (buf ++ [0x22])) (0x2C :: 0x22 :: c :: rest)).map
          ([] ++ ·) := rfl
    rw [hescape, scan_comma_quote hc] at h
    cases h
  | _ => cases h

/-- Two quotes with a comma between them, in front of a byte that begins no token: the first of
them must close a string. -/
theorem ends_quotes (hc : (scanIdle c : LexStep F) = .error)
    (hP : scan fl .idle (0x2C :: 0x22 :: c :: rest) = some P) :
    Ends fl (0x22 :: 0x2C :: 0x22 :: c :: rest) P := by
  intro q toks hok hfine h
  cases q with
  | idle =>
    rw [scan_open, scan_comma_quote hc] at h
    cases h
  | literal d l v =>
    have hd : (0x22 : UInt8) ≠ d := by
      rintro rfl
      exact absurd hfine.1 (by simp)
    rw [scan] at h
    unfold scanByte at h
    simp only [if_neg hd] at h
    cases h
  | number q buf =>
    have hnum : scanNumberByte q 0x22 = none := by cases q <;> rfl
    rw [scan, scanByte, hnum] at h
    cases hv : numberValue fl q buf with
    | none =>
      rw [hv] at h
      cases h
    | some v =>
      rw [hv] at h
      have hemit : (scanIdle 0x22 : LexStep F).emit (.scalar v) =
          .next (.string (.text []) []) [.scalar v] := rfl
      simp only [hemit, scan_comma_quote hc] at h
      cases h
  | string st buf =>
    obtain ⟨rfl, rfl⟩ := scan_quote_string hc hP hok h
    exact .inl ⟨buf, rfl, rfl⟩

end Quotes

/-- Tokens with strings shorter than `n`, and perhaps one of at most `m` bytes in front of `P`. -/
def Parts (n m : ℕ) (P toks : List (Token F)) : Prop :=
  ∃ ts tail, toks = ts ++ tail ∧ (∀ s, Token.string s ∈ ts → s.length < n) ∧
    (tail = [] ∨ ∃ buf : List UInt8, tail = .string buf :: P ∧ buf.length ≤ m)

theorem Parts.mono {n n' m m' : ℕ} {P toks : List (Token F)} (h : Parts n m P toks) (hn : n ≤ n')
    (hm : m ≤ m') : Parts n' m' P toks := by
  obtain ⟨ts, tail, rfl, hts, htail⟩ := h
  refine ⟨ts, tail, rfl, fun s hs => (hts s hs).trans_le hn, ?_⟩
  rcases htail with rfl | ⟨buf, rfl, hbuf⟩
  · exact .inl rfl
  · exact .inr ⟨buf, rfl, hbuf.trans hm⟩

theorem Parts.prepend {n m : ℕ} {P toks : List (Token F)} (h : Parts n m P toks)
    {ts : List (Token F)} (hts : ∀ s, Token.string s ∈ ts → s.length < n) :
    Parts n m P (ts ++ toks) := by
  obtain ⟨ts', tail, rfl, hts', htail⟩ := h
  refine ⟨ts ++ ts', tail, (List.append_assoc ..).symm, fun s hs => ?_, htail⟩
  rcases List.mem_append.1 hs with hs | hs
  · exact hts s hs
  · exact hts' s hs

variable {fl : FloatText F} {rest : List UInt8} {P : List (Token F)}

/-- Whatever is read in front of the rest, no string is longer than its bytes. -/
theorem scan_parts (hends : Ends fl rest P) {q : LexState F} (hok : q.Ok) (hq : q.Fine)
    {b : List UInt8} {toks : List (Token F)} (h : scan fl q (b ++ rest) = some toks) :
    Parts (q.size + b.length) (q.size + b.length) P toks := by
  induction b generalizing q toks with
  | nil =>
    rcases hends q toks hok hq h with ⟨buf, rfl, rfl⟩ | ⟨-, hno⟩
    · exact ⟨[], _, rfl, fun s hs => absurd hs List.not_mem_nil, .inr ⟨buf, rfl, Nat.le_refl _⟩⟩
    · exact ⟨toks, [], (List.append_nil toks).symm, fun s hs => absurd hs (hno s), .inl rfl⟩
  | cons c b ih =>
    have hok' := ok_scanByte fl hok c
    have hbounded := bounded_scanByte fl hq c
    rw [List.cons_append, scan] at h
    split at h
    · cases h
    · next ts hstep =>
      cases h
      rw [hstep] at hbounded
      exact ⟨toks, [], (List.append_nil _).symm, fun s hs => absurd rfl ((hbounded _ hs).2 s),
        .inl rfl⟩
    · next q' ts hstep =>
      rw [hstep] at hbounded hok'
      obtain ⟨⟨hfine, hsize⟩, hts⟩ := hbounded
      obtain ⟨toks', htoks', rfl⟩ := Option.map_eq_some_iff.1 h
      have hparts := ih hok'.1 hfine htoks'
      refine Parts.prepend (hparts.mono ?_ ?_) fun s hs => ?_
      · rw [List.length_cons]
        omega
      · rw [List.length_cons]
        omega
      · have hs' := (hts _ hs).2 s rfl
        rw [List.length_cons]
        omega

/-- What a byte does in the text of a string, if it does not close it. -/
theorem scanStringByte_text {u : Utf8.State} (hu : Utf8.High u) {c : UInt8} {q : StringState}
    {out : List UInt8} (h : scanStringByte (.text u) c = .next q out) :
    (q = .escape ∧ out = []) ∨ ((0x20 ≤ c ∧ c ≠ 0x22 ∧ c ≠ 0x5C) ∧
      ∃ u', Utf8.step u c = some u' ∧ q = .text u' ∧ out = [c]) := by
  cases stringNext_of_eq h with
  | backslash => exact .inl ⟨rfl, rfl⟩
  | @plain _ u' _ hc hstep =>
    refine .inr ⟨?_, u', hstep, rfl, rfl⟩
    by_cases hu0 : u = []
    · exact hc hu0
    · -- inside a code point no ASCII byte is accepted
      have hhigh : ¬ c < 0x80 := fun hlt => by
        rw [Utf8.step_ascii hu hu0 hlt] at hstep
        cases hstep
      refine ⟨UInt8.le_trans (by decide) (UInt8.not_lt.1 hhigh), ?_, ?_⟩
      · rintro rfl
        exact hhigh (by decide)
      · rintro rfl
        exact hhigh (by decide)

/-- What an open string has become: a text that is shorter than the bytes, or a copy of them. -/
def Grown (st : StringState) (buf b buf' : List UInt8) : Prop :=
  (∀ u, st = .text u → buf'.length < buf.length + b.length ∨
      (buf' = buf ++ b ∧ Utf8.run u b = some [] ∧ ∀ c ∈ b, 0x20 ≤ c ∧ c ≠ 0x22 ∧ c ≠ 0x5C)) ∧
    ((∀ u, st ≠ .text u) → buf'.length < buf.length + st.credit + b.length)

theorem Grown.cons {st st' : StringState} {c : UInt8} {out buf b buf' : List UInt8}
    (hhigh : ∀ u, st = .text u → Utf8.High u) (hstep : scanStringByte st c = .next st' out)
    (h : Grown st' (buf ++ out) b buf') : Grown st buf (c :: b) buf' := by
  obtain ⟨hcredit, hstrict⟩ := credit_scanStringByte hstep
  obtain ⟨htext, hother⟩ := h
  rw [List.length_append] at htext hother
  refine ⟨?_, fun hst => ?_⟩
  · rintro u rfl
    rcases scanStringByte_text (hhigh u rfl) hstep with ⟨rfl, rfl⟩ | ⟨hc, u', hu', rfl, rfl⟩
    · left
      have hlt := hother fun u hu => by cases hu
      simp only [List.length_nil, StringState.credit] at hlt
      rw [List.length_cons]
      omega
    · rcases htext u' rfl with hlt | ⟨rfl, hrun, hplain⟩
      · left
        simp only [List.length_cons, List.length_nil] at hlt ⊢
        omega
      · right
        refine ⟨by rw [List.append_assoc, List.singleton_append], ?_,
          List.forall_mem_cons.2 ⟨hc, hplain⟩⟩
        rw [Utf8.run_cons, hu']
        exact hrun
  · by_cases htext' : ∃ u', st' = .text u'
    · obtain ⟨u', rfl⟩ := htext'
      have hout := hstrict hst u' rfl
      rcases htext u' rfl with hlt | ⟨rfl, -, -⟩
      · rw [List.length_cons]
        omega
      · simp only [List.length_append, List.length_cons]
        omega
    · have hlt := hother fun u' hu' => htext' ⟨u', hu'⟩
      rw [List.length_cons]
      omega

/-- An open string in front of the rest: it is closed before, and then everything is shorter, or
it is closed by the rest. -/
theorem scan_string (hends : Ends fl rest P) {st : StringState} {buf : List UInt8}
    (hok : (LexState.string st buf : LexState F).Ok) {b : List UInt8} {toks : List (Token F)}
    (h : scan fl (.string st buf) (b ++ rest) = some toks) :
    Parts (buf.length + st.credit + b.length) (b.length - 1) P toks ∨
      ∃ buf', toks = .string buf' :: P ∧ Grown st buf b buf' := by
  induction b generalizing st buf toks with
  | nil =>
    rcases hends _ toks hok trivial h with ⟨buf', hq, rfl⟩ | ⟨hno, -⟩
    · cases hq
      refine .inr ⟨buf, rfl, ?_, fun hst => absurd rfl (hst [])⟩
      rintro u hu
      cases hu
      exact .inr ⟨(List.append_nil buf).symm, rfl, fun c hc => absurd hc List.not_mem_nil⟩
    · exact absurd rfl (hno st buf)
  | cons c b ih =>
    have hok' := ok_scanByte fl hok c
    have hhigh : ∀ u, st = .text u → Utf8.High u := by
      rintro u rfl
      exact Utf8.high_run Utf8.High.nil hok.2
    rw [List.cons_append, scan, scanByte] at h
    rw [scanByte] at hok'
    cases hstep : scanStringByte st c with
    | error =>
      rw [hstep] at h
      cases h
    | closed =>
      rw [hstep] at h
      obtain ⟨toks', htoks', rfl⟩ := Option.map_eq_some_iff.1 h
      -- closed too early: whatever follows is shorter, too
      left
      have hparts := scan_parts hends (q := .idle) trivial trivial htoks'
      refine Parts.prepend (hparts.mono ?_ ?_) fun s hs => ?_
      · show 0 + b.length ≤ _
        rw [List.length_cons]
        omega
      · show 0 + b.length ≤ _
        rw [List.length_cons]
        omega
      · obtain rfl := Token.string.inj (List.mem_singleton.1 hs)
        rw [List.length_cons]
        omega
    | next st' out =>
      rw [hstep] at h hok'
      obtain ⟨toks', htoks', rfl⟩ := Option.map_eq_some_iff.1 h
      have hcredit := (credit_scanStringByte hstep).1
      rcases ih hok'.1 htoks' with hparts | ⟨buf', rfl, hgrown⟩
      · left
        refine hparts.mono ?_ ?_
        · rw [List.length_append, List.length_cons]
          omega
        · rw [List.length_cons]
          omega
      · exact .inr ⟨buf', rfl, hgrown.cons hhigh hstep⟩

/-! ### Finding a string again -/

theorem LexStep.Bounded.within {n : ℕ} {s : LexStep F} (h : s.Bounded n) :
    s.Within LexState.Fine Token.Simple := by
  cases s with
  | error => trivial
  | stop ts => exact fun t ht => (h t ht).1
  | next q ts => exact ⟨h.1.1, fun t ht => (h.2 t ht).1⟩

/-- Every token of a text is simple. -/
theorem simple_scan {q : LexState F} (hq : q.Fine) {b : List UInt8} {ts : List (Token F)}
    (h : scan fl q b = some ts) : ∀ t ∈ ts, t.Simple :=
  scan_within (fun _ c hq => (bounded_scanByte fl hq c).within) (fun _ _ _ => simple_numberValue)
    hq h

theorem mem_of_find {k : List UInt8} {v : Value F} {ms : Members F} (h : find k ms = some v) :
    (k, v) ∈ ms := by
  induction ms with
  | nil => cases h
  | cons m ms ih =>
    obtain ⟨k', v'⟩ := m
    rw [find, List.lookup_cons] at h
    split at h
    · next hk =>
      cases h
      rw [eq_of_beq hk]
      exact List.mem_cons_self
    · exact List.mem_cons_of_mem _ (ih h)

/-- A string member of an object stands in the tokens of its text behind its name. -/
theorem infix_of_parse {b : List UInt8} (hbom : skipBom b = some b) {ms : Members F}
    (h : parse fl b = some (.object ms)) {k s : List UInt8} (hfind : find k ms = some (.string s)) :
    ∃ toks, scan fl .idle b = some toks ∧
      [.string k, .nameSeparator, .string s] <:+: toks := by
  simp only [parse, hbom, Option.bind_eq_bind, Option.bind_some] at h
  obtain ⟨toks, htoks, h⟩ := Option.bind_eq_some_iff.1 h
  refine ⟨toks, htoks, ?_⟩
  have hrecorded : (ParseState.value [] : ParseState F).Recorded [] :=
    ⟨fun _ h => absurd h List.not_mem_nil, fun _ _ _ h => by cases h⟩
  have hsimple : ∀ t ∈ toks, t.Simple := simple_scan (q := .idle) trivial htoks
  exact recorded_parseTokens hrecorded hsimple h k s (mem_of_find hfind)

/-- Where the last of three neighbours can stand. -/
theorem infix_append_cases {α : Type} {x y z : α} {l₁ l₂ : List α} (h : [x, y, z] <:+: l₁ ++ l₂) :
    z ∈ l₁ ∨ z ∈ l₂.head? ∨ y ∈ l₂.head? ∨ x ∈ l₂ := by
  induction l₁ with
  | nil => exact .inr (.inr (.inr (h.subset List.mem_cons_self)))
  | cons a l₁ ih =>
    rcases List.infix_cons_iff.1 h with hfirst | h
    · match l₁, hfirst with
      | [], hfirst =>
        obtain ⟨-, hfirst⟩ := List.cons_prefix_cons.1 hfirst
        obtain ⟨rest, rfl⟩ := hfirst
        exact .inr (.inr (.inl rfl))
      | [b], hfirst =>
        obtain ⟨-, hfirst⟩ := List.cons_prefix_cons.1 hfirst
        obtain ⟨-, hfirst⟩ := List.cons_prefix_cons.1 hfirst
        obtain ⟨rest, rfl⟩ := hfirst
        exact .inr (.inl rfl)
      | b :: c :: l, hfirst =>
        obtain ⟨-, hfirst⟩ := List.cons_prefix_cons.1 hfirst
        obtain ⟨-, hfirst⟩ := List.cons_prefix_cons.1 hfirst
        obtain ⟨rfl, -⟩ := List.cons_prefix_cons.1 hfirst
        exact .inl (by simp)
    · exact (ih h).imp_left (List.mem_cons_of_mem a)

/-- The string `s` comes first or behind the name `k`. -/
def Leads (k s : List UInt8) (toks : List (Token F)) : Prop :=
  toks.head? = some (.string s) ∨ [.string k, .nameSeparator, .string s] <:+: toks

/-- What stands behind a string of which the name `k` is no part. -/
def Foreign (k : List UInt8) (P : List (Token F)) : Prop :=
  Token.string k ∉ P ∧ ∀ t ∈ P.head?, t = .valueSeparator

theorem Leads.mem {k s : List UInt8} {ts : List (Token F)} (h : Leads k s (ts ++ P))
    (hts : ts ≠ []) (hP : Foreign k P) : Token.string s ∈ ts := by
  rcases h with hhead | hnear
  · cases ts with
    | nil => exact absurd rfl hts
    | cons t ts =>
      cases hhead
      exact List.mem_cons_self
  · rcases infix_append_cases hnear with hmem | hhead | hhead | hmem
    · exact hmem
    · cases hP.2 _ hhead
    · cases hP.2 _ hhead
    · exact absurd hmem hP.1

/-- **A string that is no shorter than the text it was read from is that text, without escapes.** -/
theorem plainText_of_scan (hends : Ends fl rest P) {k s b : List UInt8} (hP : Foreign k P)
    (hlen : b.length ≤ s.length) {toks : List (Token F)}
    (h : scan fl (.string (.text []) []) (b ++ rest) = some toks) (hlead : Leads k s toks) :
    b = s ∧ PlainText s := by
  have hok : (LexState.string (.text []) [] : LexState F).Ok := ⟨trivial, rfl⟩
  rcases scan_string hends hok h with ⟨ts, tail, rfl, hts, htail⟩ | ⟨buf, rfl, hgrown, -⟩
  · have hno : Token.string s ∉ ts := fun hs => by
      have hlt := hts s hs
      simp only [List.length_nil, StringState.credit] at hlt
      omega
    rcases htail with rfl | ⟨buf, rfl, hbuf⟩
    · rw [List.append_nil] at hlead
      rcases hlead with hhead | hnear
      · exact absurd (List.mem_of_head? hhead) hno
      · exact absurd (hnear.subset (by simp)) hno
    · rw [List.append_cons] at hlead
      rcases List.mem_append.1 (hlead.mem (by simp) hP) with hs | hs
      · exact absurd hs hno
      · -- the last string is shorter than the text, unless both are empty
        obtain rfl := Token.string.inj (List.mem_singleton.1 hs)
        obtain rfl : b = [] := List.eq_nil_of_length_eq_zero (by omega)
        obtain rfl : s = [] := List.eq_nil_of_length_eq_zero (Nat.le_zero.1 hbuf)
        exact ⟨rfl, Utf8.Valid.nil, fun c hc => absurd hc List.not_mem_nil⟩
  · have hs : Token.string s ∈ [Token.string buf] := Leads.mem hlead (List.cons_ne_nil _ _) hP
    obtain rfl := Token.string.inj (List.mem_singleton.1 hs)
    rcases hgrown [] rfl with hlt | ⟨rfl, hrun, hplain⟩
    · rw [List.length_nil] at hlt
      omega
    · exact ⟨rfl, hrun, hplain⟩

end Json
