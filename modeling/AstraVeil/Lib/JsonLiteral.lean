import AstraVeil.Lib.JsonParse

/-!
# JSON string literals over any bytes

The unescaping rules of RFC 8259 for a string whose text is not decoded: a byte that is no quote,
no backslash and no control character stands for itself.

* `unescape_flatMap`: an escaping that is right for every byte is right for every string;
* `unescape_closed`: a text that unescapes cannot end its literal;
* `Reads`: the strings of a text and the bytes between them, with one lemma for each way a text is
  put together.
-/

namespace Json

/-! ### Unescaping -/

/-- One byte of a string that may hold any bytes. -/
def scanRawByte : StringState → UInt8 → StringStep
  | .text _, c =>
      if c = 0x22 then .closed
      else if c = 0x5C then .next .escape []
      else if c < 0x20 then .error
      else .next (.text []) [c]
  | q, c => scanStringByte q c

/-- The string that the inside of a literal stands for; `none` where a quote would close the literal
before its end, a control character is bare or an escape is malformed or unfinished. -/
def unescapeText : StringState → List UInt8 → Option (List UInt8)
  | .text _, [] => some []
  | _, [] => none
  | q, c :: t =>
      match scanRawByte q c with
      | .next q' out => (unescapeText q' t).map (out ++ ·)
      | _ => none

theorem unescapeText_cons (q : StringState) (c : UInt8) (t : List UInt8) :
    unescapeText q (c :: t) = match scanRawByte q c with
      | .next q' out => (unescapeText q' t).map (out ++ ·)
      | _ => none := by
  cases q <;> rfl

theorem unescapeText_cons_eq_some {q : StringState} {c : UInt8} {t s : List UInt8}
    (h : unescapeText q (c :: t) = some s) :
    ∃ q' out s', scanRawByte q c = .next q' out ∧ unescapeText q' t = some s' ∧
      s = out ++ s' := by
  rw [unescapeText_cons] at h
  cases hstep : scanRawByte q c with
  | error => rw [hstep] at h; cases h
  | closed => rw [hstep] at h; cases h
  | next q' out =>
    rw [hstep] at h
    obtain ⟨s', hs', rfl⟩ := Option.map_eq_some_iff.1 h
    exact ⟨q', out, s', rfl, hs', rfl⟩

theorem unescapeText_text (u : Utf8.State) (t : List UInt8) :
    unescapeText (.text u) t = unescapeText (.text []) t := by
  cases t <;> rfl

theorem unescapeText_append {q : StringState} {a s : List UInt8} (h : unescapeText q a = some s)
    (b : List UInt8) : unescapeText q (a ++ b) = (unescapeText (.text []) b).map (s ++ ·) := by
  induction a generalizing q s with
  | nil =>
    cases q with
    | text u =>
      cases h
      rw [List.nil_append, unescapeText_text]
      exact Option.map_id'.symm
    | _ => cases h
  | cons c a ih =>
    obtain ⟨q', out, s', hstep, ha, rfl⟩ := unescapeText_cons_eq_some h
    rw [List.cons_append, unescapeText_cons, hstep]
    simp only [ih ha, Option.map_map, Function.comp_def, List.append_assoc]

/-- An escaping that is right for every byte is right for every string. -/
theorem unescape_flatMap {esc : UInt8 → List UInt8}
    (h : ∀ c, unescapeText (.text []) (esc c) = some [c]) (s : List UInt8) :
    unescapeText (.text []) (s.flatMap esc) = some s := by
  induction s with
  | nil => rfl
  | cons c s ih => rw [List.flatMap_cons, unescapeText_append (h c), ih]; rfl

/-- A text that needs no escapes stands for itself. -/
theorem unescape_plain {b : List UInt8} (h : ∀ c ∈ b, 0x20 ≤ c ∧ c ≠ 0x22 ∧ c ≠ 0x5C) :
    unescapeText (.text []) b = some b := by
  induction b with
  | nil => rfl
  | cons c b ih =>
    obtain ⟨⟨h20, h22, h5C⟩, hb⟩ := List.forall_mem_cons.1 h
    have hstep : scanRawByte (.text []) c = .next (.text []) [c] := by
      rw [scanRawByte, if_neg h22, if_neg h5C, if_neg (UInt8.not_lt.2 h20)]
    rw [unescapeText_cons, hstep]
    simp only [ih hb]
    rfl

/-! ### A literal ends at its closing quote -/

/-- The text ends behind a backslash that escapes what follows. -/
def afterBackslash (b : List UInt8) : Bool := b.foldl (fun esc c => !esc && c == 0x5C) false

/-- Behind a backslash that escapes what follows. -/
def StringState.escaping : StringState → Bool
  | .escape => true
  | .lowU _ => true
  | _ => false

theorem isSome_hexValue (c : UInt8) :
    (hexValue c).isSome = true → c ≠ 0x5C ∧ c ≠ 0x22 ∧ 0x20 ≤ c :=
  Utf8.forall_byte (P := fun c => (hexValue c).isSome = true → c ≠ 0x5C ∧ c ≠ 0x22 ∧ 0x20 ≤ c)
    (by decide +kernel) c

theorem isSome_unescape (c : UInt8) : (unescape c).isSome = true → 0x20 ≤ c :=
  Utf8.forall_byte (P := fun c => (unescape c).isSome = true → 0x20 ≤ c) (by decide +kernel) c

theorem escaping_finishEscape {high : Option ℕ} {n : ℕ} {q : StringState} {out : List UInt8}
    (h : finishEscape high n = .next q out) : q.escaping = false := by
  cases high with
  | none =>
    simp only [finishEscape] at h
    split_ifs at h
    · cases h
      rfl
    · cases h
      rfl
  | some high =>
    simp only [finishEscape] at h
    split_ifs at h
    cases h
    rfl

/-- What a byte of a literal can be, by where it stands. -/
theorem scanRawByte_next {q q' : StringState} {c : UInt8} {out : List UInt8}
    (h : scanRawByte q c = .next q' out) :
    q'.escaping = (!q.escaping && c == 0x5C) ∧ (c = 0x22 → q.escaping = true) ∧ 0x20 ≤ c := by
  cases q with
  | text u =>
    simp only [scanRawByte] at h
    split_ifs at h with h22 h5C h20
    · cases h
      subst h5C
      exact ⟨rfl, fun hc => absurd hc (by decide), by decide⟩
    · cases h
      exact ⟨by simp [StringState.escaping, h5C], fun hc => absurd hc h22, UInt8.not_lt.1 h20⟩
  | escape =>
    simp only [scanRawByte, scanStringByte] at h
    split_ifs at h with h75
    · cases h
      subst h75
      decide
    · cases he : unescape c with
      | none => rw [he] at h; cases h
      | some e =>
        rw [he] at h
        cases h
        exact ⟨rfl, fun _ => rfl, isSome_unescape c (by rw [he]; rfl)⟩
  | hex high left acc =>
    simp only [scanRawByte, scanStringByte] at h
    cases hd : hexValue c with
    | none => rw [hd] at h; cases h
    | some d =>
      obtain ⟨h5C, h22, h20⟩ := isSome_hexValue c (by rw [hd]; rfl)
      have hq' : q'.escaping = false := by
        simp only [hd] at h
        split_ifs at h with hleft
        · exact escaping_finishEscape h
        · cases h
          rfl
      exact ⟨by simp [hq', h5C], fun hc => absurd hc h22, h20⟩
  | lowBackslash high =>
    simp only [scanRawByte, scanStringByte] at h
    split_ifs at h with h5C
    cases h
    subst h5C
    exact ⟨rfl, fun hc => absurd hc (by decide), by decide⟩
  | lowU high =>
    simp only [scanRawByte, scanStringByte] at h
    split_ifs at h with h75
    cases h
    subst h75
    exact ⟨rfl, fun _ => rfl, by decide⟩

/-- What a reader that unescapes a text has found in it. -/
theorem unescapeText_spec {q : StringState} {b s : List UInt8} (h : unescapeText q b = some s) :
    (∀ c ∈ b, 0x20 ≤ c) ∧
    (∀ x y, b = x ++ 0x22 :: y →
      x.foldl (fun esc c => !esc && c == 0x5C) q.escaping = true) ∧
    b.foldl (fun esc c => !esc && c == 0x5C) q.escaping = false := by
  induction b generalizing q s with
  | nil =>
    refine ⟨fun c hc => absurd hc List.not_mem_nil, fun x y hxy => ?_, ?_⟩
    · exact absurd hxy.symm (List.append_ne_nil_of_right_ne_nil x (List.cons_ne_nil _ _))
    · cases q with
      | text u => rfl
      | _ => cases h
  | cons c b ih =>
    obtain ⟨q', out, s', hstep, hb, -⟩ := unescapeText_cons_eq_some h
    obtain ⟨hesc, hquote, hc⟩ := scanRawByte_next hstep
    obtain ⟨hlow, hquotes, hend⟩ := ih hb
    refine ⟨List.forall_mem_cons.2 ⟨hc, hlow⟩, fun x y hxy => ?_, ?_⟩
    · cases x with
      | nil => exact hquote (List.cons.inj hxy).1
      | cons d x =>
        obtain ⟨rfl, htail⟩ := List.cons.inj hxy
        rw [List.foldl_cons, ← hesc]
        exact hquotes x y htail
    · rw [List.foldl_cons, ← hesc]
      exact hend

/-- A text that unescapes has no control character, no bare quote and no open escape. -/
theorem unescape_closed {b s : List UInt8} (h : unescapeText (.text []) b = some s) :
    (∀ c ∈ b, 0x20 ≤ c) ∧ (∀ x y, b = x ++ 0x22 :: y → afterBackslash x = true) ∧
      afterBackslash b = false :=
  unescapeText_spec h

/-! ### The strings of a text -/

/-- A part of a text: a byte outside of the strings, or a string. -/
inductive Piece
  | mark (c : UInt8)
  | string (s : List UInt8)
  deriving DecidableEq

/-- The pieces of a text, read outside of the strings or inside of one whose beginning is known;
`none` where a string is malformed or does not end. -/
def pieces : Option (StringState × List UInt8) → List UInt8 → Option (List Piece)
  | none, [] => some []
  | some _, [] => none
  | none, c :: t =>
      if c = 0x22 then pieces (some (.text [], [])) t
      else (pieces none t).map (.mark c :: ·)
  | some (q, buf), c :: t =>
      match scanRawByte q c with
      | .error => none
      | .closed => (pieces none t).map (.string buf :: ·)
      | .next q' out => pieces (some (q', buf ++ out)) t

/-- The text stands for the pieces, whatever follows it. -/
def Reads (b : List UInt8) (ps : List Piece) : Prop :=
  ∀ t, pieces none (b ++ t) = (pieces none t).map (ps ++ ·)

theorem Reads.pieces_eq {b : List UInt8} {ps : List Piece} (h : Reads b ps) :
    pieces none b = some ps := by
  simpa [pieces] using h []

theorem Reads.nil : Reads [] [] := fun t => by simp

theorem Reads.append {a b : List UInt8} {ps qs : List Piece} (ha : Reads a ps) (hb : Reads b qs) :
    Reads (a ++ b) (ps ++ qs) := by
  intro t
  rw [List.append_assoc, ha, hb, Option.map_map]
  simp only [Function.comp_def, List.append_assoc]

theorem Reads.mark {c : UInt8} (hc : c ≠ 0x22) : Reads [c] [.mark c] := by
  intro t
  rw [List.singleton_append, pieces, if_neg hc]
  rfl

/-- Bytes without a quote. -/
theorem Reads.marks {b : List UInt8} (hb : 0x22 ∉ b) : Reads b (b.map .mark) := by
  induction b with
  | nil => exact Reads.nil
  | cons c b ih =>
    rw [List.mem_cons, not_or] at hb
    exact (Reads.mark (Ne.symm hb.1)).append (ih hb.2)

theorem quote_not_mem_digits {b : List UInt8} (h : DigitText b) : 0x22 ∉ b :=
  fun hmem => absurd (h.2 _ hmem) (by decide)

theorem quote_not_mem_decimal (z : ℤ) : 0x22 ∉ decimal z := by
  cases z with
  | ofNat n => exact quote_not_mem_digits (digitText_natDecimal n)
  | negSucc n =>
    change 0x22 ∉ 0x2D :: natDecimal (n + 1)
    rw [List.mem_cons, not_or]
    exact ⟨by decide, quote_not_mem_digits (digitText_natDecimal (n + 1))⟩

theorem pieces_literal {q : StringState} {b s : List UInt8} (h : unescapeText q b = some s)
    (buf t : List UInt8) : pieces (some (q, buf)) (b ++ 0x22 :: t) =
      (pieces none t).map (.string (buf ++ s) :: ·) := by
  induction b generalizing q s buf with
  | nil =>
    cases q with
    | text u =>
      cases h
      rw [List.nil_append, pieces, List.append_nil]
      rfl
    | _ => cases h
  | cons c b ih =>
    obtain ⟨q', out, s', hstep, hb, rfl⟩ := unescapeText_cons_eq_some h
    rw [List.cons_append, pieces, hstep]
    simp only [ih hb, List.append_assoc]

/-- A literal is read as the string that its inside stands for. -/
theorem Reads.quoted {b s : List UInt8} (h : unescapeText (.text []) b = some s) :
    Reads (quoted b) [.string s] := by
  intro t
  have hlit := pieces_literal h [] t
  rw [Json.quoted, List.cons_append, List.append_assoc, pieces, if_pos rfl]
  exact hlit

theorem Reads.intercalate {bs : List (List UInt8)} {pss : List (List Piece)}
    (h : List.Forall₂ Reads bs pss) :
    Reads ([0x2C].intercalate bs) ([Piece.mark 0x2C].intercalate pss) := by
  have hcomma : Reads [0x2C] [.mark 0x2C] := Reads.mark (by decide)
  induction h with
  | nil => exact Reads.nil
  | cons hb hbs ih =>
    cases hbs with
    | nil => simpa [List.intercalate] using hb
    | cons hb' hbs' =>
      rw [List.intercalate_cons_cons, List.intercalate_cons_cons]
      exact (hb.append hcomma).append ih

/-- A list between brackets. -/
theorem Reads.bracketed {l r : UInt8} (hl : l ≠ 0x22) (hr : r ≠ 0x22) {bs : List (List UInt8)}
    {pss : List (List Piece)} (h : List.Forall₂ Reads bs pss) :
    Reads (bracketed l r bs) (.mark l :: ([Piece.mark 0x2C].intercalate pss ++ [.mark r])) :=
  (Reads.mark hl).append ((Reads.intercalate h).append (Reads.mark hr))

/-- A member of an object. -/
theorem Reads.member {k v : List UInt8} {ps qs : List Piece} (hk : Reads k ps) (hv : Reads v qs) :
    Reads (member (k, v)) (ps ++ .mark 0x3A :: qs) :=
  hk.append ((Reads.mark (by decide)).append hv)

end Json
