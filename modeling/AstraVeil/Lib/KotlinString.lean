import AstraVeil.Lib.Digits
import AstraVeil.Lib.Utf16
import Mathlib.Data.List.DropRight

/-!
# Kotlin string functions

Functions of the Kotlin standard library for reading text, over UTF-16 strings.

* `hexString_eq_of_equalsIgnoreCase`: two lower-case hex texts that match one text up to case are
  equal;
* `trim_keyword`, `trim_value`: a line with a keyword and a value;
* `lines_append`, `exists_lines_cons`: a text cut at the end of its first line;
* `lines_append_lf`: a text cut at a line feed.
-/

namespace KotlinString

open Utf16

/-- `Char.isWhitespace`: the space, line and paragraph separators and the ASCII control blanks. -/
def isWhitespace (u : UInt16) : Bool :=
  let n := u.toNat
  decide ((0x09 ≤ n ∧ n ≤ 0x0D) ∨ (0x1C ≤ n ∧ n ≤ 0x20) ∨ n = 0xA0 ∨ n = 0x1680 ∨
    (0x2000 ≤ n ∧ n ≤ 0x200A) ∨ n = 0x2028 ∨ n = 0x2029 ∨ n = 0x202F ∨ n = 0x205F ∨ n = 0x3000)

/-- `String.trim`. -/
def trim (s : JString) : JString :=
  ((s.dropWhile isWhitespace).reverse.dropWhile isWhitespace).reverse

/-- The lines of a text whose first line starts with `line`. -/
def linesFrom (line : JString) : JString → List JString
  | [] => [line]
  | 0x0D :: 0x0A :: rest => line :: linesFrom [] rest
  | u :: rest =>
      if u = 0x0A ∨ u = 0x0D then line :: linesFrom [] rest else linesFrom (line ++ [u]) rest

/-- `String.lines`: cut at `\r\n`, `\n` and `\r`. -/
def lines (s : JString) : List JString := linesFrom [] s

/-- `String.startsWith`. -/
def startsWith (s start : JString) : Bool := start.isPrefixOf s

/-- `String.endsWith`. -/
def endsWith (s suffix : JString) : Bool := suffix.isSuffixOf s

/-- `String.removePrefix`. -/
def removePrefix (s start : JString) : JString :=
  if startsWith s start then s.drop start.length else s

/-- `String.removeSuffix`. -/
def removeSuffix (s suffix : JString) : JString :=
  if endsWith s suffix then s.take (s.length - suffix.length) else s

/-- ASCII lower case. -/
def lower (u : UInt16) : UInt16 := if 0x41 ≤ u.toNat ∧ u.toNat ≤ 0x5A then u + 0x20 else u

/-- `equals(ignoreCase = true)` with a text of ASCII letters and digits on one side. -/
def equalsIgnoreCase (s t : JString) : Bool := s.map lower == t.map lower

/-- `joinToString("") { "%02x".format(it) }`. -/
def hexString (bytes : List UInt8) : JString := ofString (String.ofList (Digits.hex bytes))

theorem hexString_injective : Function.Injective hexString := fun _ _ h =>
  Digits.hex_injective (String.ofList_injective (ofString_injective h))

theorem map_lower_hexString (bytes : List UInt8) :
    (hexString bytes).map lower = hexString bytes := by
  have hdigit : ∀ i : Fin 16,
      (unitsOf (Nat.digitChar i)).map lower = unitsOf (Nat.digitChar i) := by
    decide
  have hnat : ∀ i < 16, (unitsOf (Nat.digitChar i)).map lower = unitsOf (Nat.digitChar i) :=
    fun i hi => hdigit ⟨i, hi⟩
  rw [hexString, ofString, String.toList_ofList, Digits.hex]
  induction bytes with
  | nil => rfl
  | cons b bytes ih =>
    have hb := b.toNat_lt
    simp only [List.flatMap_cons, List.flatMap_append, List.map_append, ih, List.flatMap_nil,
      List.map_nil]
    rw [hnat _ (by omega), hnat _ (by omega)]

/-- Two hex texts that match a text up to case are equal. -/
theorem hexString_eq_of_equalsIgnoreCase {x y : List UInt8} {t : JString}
    (hx : equalsIgnoreCase (hexString x) t = true) (hy : equalsIgnoreCase (hexString y) t = true) :
    x = y := by
  rw [equalsIgnoreCase, map_lower_hexString, beq_iff_eq] at hx hy
  exact hexString_injective (hx.trans hy.symm)

/-- The first occurrence of a unit. -/
theorem idxOf?_append_cons {x y : JString} {c : UInt16} (h : c ∉ x) :
    (x ++ c :: y).idxOf? c = some x.length := by
  induction x with
  | nil => simp [List.idxOf?_cons]
  | cons u x ih =>
    obtain ⟨hu, hx⟩ := not_or.1 (List.mem_cons.not.1 h)
    rw [List.cons_append, List.idxOf?_cons, if_neg (by simpa using Ne.symm hu), ih hx]
    rfl

/-- What `split` gives has no separator in it, and nothing new. -/
theorem mem_splitOn {s part : JString} {c : UInt16} (h : part ∈ s.splitOn c) :
    c ∉ part ∧ ∀ u ∈ part, u ∈ s := by
  induction s generalizing part with
  | nil => simp_all
  | cons v s ih =>
    rw [List.splitOn_cons_eq_if_modifyHead] at h
    split_ifs at h with hv
    · rcases List.mem_cons.1 h with rfl | h
      · simp
      · exact ⟨(ih h).1, fun u hu => List.mem_cons_of_mem _ ((ih h).2 u hu)⟩
    · obtain ⟨first, rest, hsplit⟩ := List.exists_cons_of_ne_nil (List.splitOn_ne_nil c s)
      rw [hsplit, List.modifyHead_cons] at h
      rcases List.mem_cons.1 h with rfl | h
      · obtain ⟨hc, hsub⟩ := ih (hsplit ▸ List.mem_cons_self)
        refine ⟨?_, ?_⟩
        · rw [List.mem_cons, not_or]
          exact ⟨fun e => hv (by simp [e]), hc⟩
        · intro u hu
          rcases List.mem_cons.1 hu with rfl | hu
          · exact List.mem_cons_self
          · exact List.mem_cons_of_mem _ (hsub u hu)
      · obtain ⟨hc, hsub⟩ := ih (hsplit ▸ List.mem_cons_of_mem _ h)
        exact ⟨hc, fun u hu => List.mem_cons_of_mem _ (hsub u hu)⟩

/-! ### Trimming -/

/-- `String.trimEnd`. -/
def trimEnd (s : JString) : JString := (s.reverse.dropWhile isWhitespace).reverse

theorem trim_eq_trimEnd (s : JString) : trim s = trimEnd (s.dropWhile isWhitespace) := rfl

theorem dropWhile_of_forall {s : JString} (h : ∀ u ∈ s, isWhitespace u = false) :
    s.dropWhile isWhitespace = s := by
  cases s with
  | nil => rfl
  | cons u s => exact List.dropWhile_cons_of_neg (by simp [h u List.mem_cons_self])

theorem trim_of_forall {s : JString} (h : ∀ u ∈ s, isWhitespace u = false) : trim s = s := by
  have hreverse : ∀ u ∈ s.reverse, isWhitespace u = false := fun u hu => h u (List.mem_reverse.1 hu)
  rw [trim, dropWhile_of_forall h, dropWhile_of_forall hreverse, List.reverse_reverse]

theorem trim_cons_of_whitespace {u : UInt16} (hu : isWhitespace u = true) (s : JString) :
    trim (u :: s) = trim s := by
  rw [trim_eq_trimEnd, List.dropWhile_cons_of_pos hu, ← trim_eq_trimEnd]

/-- A text with no white space at its end keeps it in front of another. -/
theorem trimEnd_append {p : JString} (hp : trimEnd p = p) (s : JString) :
    trimEnd (p ++ s) = p ++ trimEnd s := by
  unfold trimEnd at hp ⊢
  rw [List.reverse_append, List.dropWhile_append]
  split_ifs with h
  · rw [hp, List.isEmpty_iff.1 h]
    exact (List.append_nil p).symm
  · rw [List.reverse_append, List.reverse_reverse]

theorem dropWhile_of_trim {s : JString} (h : trim s = s) : s.dropWhile isWhitespace = s := by
  have hlen : (trimEnd (s.dropWhile isWhitespace)).length ≤ (s.dropWhile isWhitespace).length := by
    rw [trimEnd, List.length_reverse]
    exact (List.dropWhile_suffix _).length_le.trans_eq List.length_reverse
  rw [← trim_eq_trimEnd, h] at hlen
  exact (List.dropWhile_suffix _).eq_of_length_le hlen

theorem trimEnd_of_trim {s : JString} (h : trim s = s) : trimEnd s = s := by
  rwa [trim_eq_trimEnd, dropWhile_of_trim h] at h

/-- A keyword at the start of a line stays. -/
theorem trim_keyword {u : UInt16} {p : JString} (hu : isWhitespace u = false)
    (hp : trimEnd (u :: p) = u :: p) (s : JString) :
    trim (u :: p ++ s) = u :: p ++ trimEnd s := by
  rw [List.cons_append, trim_eq_trimEnd, List.dropWhile_cons_of_neg (by simp [hu]),
    ← List.cons_append, trimEnd_append hp]

/-- The value behind a keyword, if it has no white space around it. -/
theorem trim_value {s : JString} (hs : trim s = s) : trim (trimEnd (0x20 :: s)) = s := by
  cases s with
  | nil => rfl
  | cons v s =>
    have hend : trimEnd (0x20 :: v :: s) = 0x20 :: v :: s := by
      have hv := trimEnd_of_trim hs
      unfold trimEnd at hv ⊢
      rw [List.reverse_cons, List.dropWhile_append]
      split_ifs with h
      · rw [List.isEmpty_iff.1 h] at hv
        cases hv
      · rw [List.reverse_append, hv]
        rfl
    rw [hend, trim_cons_of_whitespace (by decide), hs]

theorem trimEnd_concat {s : JString} {u : UInt16} (hu : isWhitespace u = false) :
    trimEnd (s ++ [u]) = s ++ [u] := by
  rw [trimEnd, List.reverse_append, List.reverse_singleton, List.singleton_append,
    List.dropWhile_cons_of_neg (by simp [hu]), List.reverse_cons, List.reverse_reverse]

theorem trimEnd_concat_of_whitespace {s : JString} {u : UInt16} (hu : isWhitespace u = true) :
    trimEnd (s ++ [u]) = trimEnd s := by
  rw [trimEnd, List.reverse_append, List.reverse_singleton, List.singleton_append,
    List.dropWhile_cons_of_pos hu, ← trimEnd]

/-- Trimming once more does nothing. -/
theorem trim_trim (s : JString) : trim (trim s) = trim s := by
  have hhead : ∀ r : JString, (r.dropWhile isWhitespace).dropWhile isWhitespace =
      r.dropWhile isWhitespace := fun r => List.dropWhile_idempotent _ r
  have hend : ∀ r : JString, trimEnd (trimEnd r) = trimEnd r := fun r => by
    rw [trimEnd, trimEnd, List.reverse_reverse, hhead]
  have hstart : (trimEnd (s.dropWhile isWhitespace)).dropWhile isWhitespace =
      trimEnd (s.dropWhile isWhitespace) := by
    cases ht : trimEnd (s.dropWhile isWhitespace) with
    | nil => rfl
    | cons u t =>
      obtain ⟨r, hr⟩ : trimEnd (s.dropWhile isWhitespace) <+: s.dropWhile isWhitespace := by
        rw [trimEnd, ← List.reverse_suffix, List.reverse_reverse]
        exact List.dropWhile_suffix _
      have hu : isWhitespace u = false := by
        have h := List.head?_dropWhile_not isWhitespace s
        rw [← hr, ht] at h
        exact h
      exact List.dropWhile_cons_of_neg (by simp [hu])
  rw [trim_eq_trimEnd, trim_eq_trimEnd, hstart, hend]

theorem mem_of_mem_trim {s : JString} {u : UInt16} (h : u ∈ trim s) : u ∈ s := by
  have hmem : u ∈ (s.dropWhile isWhitespace).reverse :=
    (List.dropWhile_suffix _).subset (List.mem_reverse.1 h)
  exact (List.dropWhile_suffix _).subset (List.mem_reverse.1 hmem)

theorem mem_dropWhile_whitespace {s : JString} {u : UInt16} (hu : isWhitespace u = false)
    (h : u ∈ s) : u ∈ s.dropWhile isWhitespace := by
  rw [← List.takeWhile_append_dropWhile (p := isWhitespace) (l := s)] at h
  refine (List.mem_append.1 h).resolve_left fun hmem => ?_
  rw [List.mem_takeWhile_imp hmem] at hu
  cases hu

/-- Trimming takes white space away and nothing else. -/
theorem mem_trim {s : JString} {u : UInt16} (hu : isWhitespace u = false) :
    u ∈ trim s ↔ u ∈ s := by
  refine ⟨mem_of_mem_trim, fun h => ?_⟩
  rw [trim, List.mem_reverse]
  exact mem_dropWhile_whitespace hu (List.mem_reverse.2 (mem_dropWhile_whitespace hu h))

/-- Only the ends of a text matter. -/
theorem trim_ends {s : JString} {u v : UInt16} (hs : trim s = s) (hu : isWhitespace u = false)
    (hv : isWhitespace v = false) (t : JString) :
    trim (s ++ u :: (t ++ [v])) = s ++ u :: (t ++ [v]) := by
  have hstart : (s ++ u :: (t ++ [v])).dropWhile isWhitespace = s ++ u :: (t ++ [v]) := by
    rw [List.dropWhile_append, dropWhile_of_trim hs, List.dropWhile_cons_of_neg (by simp [hu])]
    split_ifs with h
    · rw [List.isEmpty_iff.1 h, List.nil_append]
    · rfl
  rw [trim_eq_trimEnd, hstart, ← List.cons_append, ← List.append_assoc, trimEnd_concat hv]

/-! ### Splitting -/

/-- `split(c, limit = n + 1)`: at the first `n` separators. -/
def splitLimit (c : UInt16) : ℕ → JString → List JString
  | 0, s => [s]
  | n + 1, s =>
      if c ∈ s then s.takeWhile (· ≠ c) :: splitLimit c n (s.dropWhile (· ≠ c)).tail else [s]

theorem ne_sep_of_mem {c : UInt16} {x : JString} (hx : c ∉ x) :
    ∀ u ∈ x, decide (u ≠ c) = true :=
  fun _ hu => decide_eq_true fun h => hx (h ▸ hu)

theorem takeWhile_append_sep {c : UInt16} {x : JString} (hx : c ∉ x) (y : JString) :
    (x ++ c :: y).takeWhile (· ≠ c) = x := by
  rw [List.takeWhile_append_of_pos (ne_sep_of_mem hx)]
  simp

theorem splitLimit_append {c : UInt16} {x : JString} (hx : c ∉ x) (n : ℕ) (y : JString) :
    splitLimit c (n + 1) (x ++ c :: y) = x :: splitLimit c n y := by
  rw [splitLimit, if_pos (by simp), takeWhile_append_sep hx,
    List.dropWhile_append_of_pos (ne_sep_of_mem hx), List.dropWhile_cons_of_neg (by simp),
    List.tail_cons]

/-- What is in front of the first separator is the first part. -/
theorem splitLimit_head (c : UInt16) (n : ℕ) (x y : JString) :
    ∃ ps, splitLimit c (n + 1) (x ++ c :: y) = x.takeWhile (· ≠ c) :: ps := by
  by_cases hx : c ∈ x
  · obtain ⟨a, r, rfl, ha⟩ := List.eq_append_cons_of_mem hx
    rw [List.append_assoc, List.cons_append, splitLimit_append ha, takeWhile_append_sep ha]
    exact ⟨_, rfl⟩
  · have hself : x.takeWhile (· ≠ c) = x := by
      exact List.takeWhile_eq_self_iff.2 (ne_sep_of_mem hx)
    rw [splitLimit_append hx, hself]
    exact ⟨_, rfl⟩

/-- With enough separators there are as many parts as the limit says. -/
theorem length_splitLimit {c : UInt16} {n : ℕ} {s : JString} (h : n ≤ s.count c) :
    (splitLimit c n s).length = n + 1 := by
  induction n generalizing s with
  | zero => rfl
  | succ n ih =>
    obtain ⟨a, r, rfl, ha⟩ := List.eq_append_cons_of_mem
      (List.count_pos_iff.1 (Nat.zero_lt_of_lt h))
    rw [List.count_append, List.count_eq_zero_of_not_mem ha, List.count_cons_self] at h
    rw [splitLimit_append ha, List.length_cons, ih (by omega)]

/-- A text that is its own first part has no separator. -/
theorem not_mem_of_trim_takeWhile {c : UInt16} {x : JString}
    (h : trim (x.takeWhile (· ≠ c)) = x) : c ∉ x := by
  intro hx
  rw [← h] at hx
  have hc := List.mem_takeWhile_imp (mem_of_mem_trim hx)
  simp at hc

/-! ### Lines -/

/-- A text without a line break. -/
def SingleLine (s : JString) : Prop := ∀ u ∈ s, u ≠ 0x0A ∧ u ≠ 0x0D

instance (s : JString) : Decidable (SingleLine s) :=
  decidable_of_iff (s.all (fun u => decide (u ≠ 0x0A ∧ u ≠ 0x0D)) = true) (by
    rw [List.all_eq_true]
    exact forall₂_congr fun u _ => decide_eq_true_iff)

@[simp] theorem singleLine_nil : SingleLine [] := by simp [SingleLine]

@[simp] theorem singleLine_cons {u : UInt16} {s : JString} :
    SingleLine (u :: s) ↔ (u ≠ 0x0A ∧ u ≠ 0x0D) ∧ SingleLine s := List.forall_mem_cons

@[simp] theorem singleLine_append {x y : JString} :
    SingleLine (x ++ y) ↔ SingleLine x ∧ SingleLine y := List.forall_mem_append

theorem linesFrom_append {x : JString} (hx : SingleLine x) (line y : JString) :
    linesFrom line (x ++ 0x0A :: y) = (line ++ x) :: lines y := by
  induction x generalizing line with
  | nil =>
    rw [List.nil_append, List.append_nil, linesFrom, if_pos (Or.inl rfl)]
    · rfl
    · intro rest h
      cases h
  | cons u x ih =>
    obtain ⟨hlf, hcr⟩ := hx u List.mem_cons_self
    rw [List.cons_append, linesFrom, if_neg (by simp [hlf, hcr]),
      ih fun v hv => hx v (List.mem_cons_of_mem _ hv)]
    · rw [List.append_assoc]
      rfl
    · intro rest h
      exact fun _ => hcr h

/-- A text is cut behind its first line. -/
theorem lines_append {x : JString} (hx : SingleLine x) (y : JString) :
    lines (x ++ 0x0A :: y) = x :: lines y :=
  linesFrom_append hx [] y

/-- A text with a line break is cut at the first one. -/
theorem exists_lines_cons {x : JString} (hx : SingleLine x) {t : UInt16}
    (ht : t = 0x0A ∨ t = 0x0D) (y : JString) : ∃ y', lines (x ++ t :: y) = x :: lines y' := by
  have key : ∀ line, ∃ y', linesFrom line (x ++ t :: y) = (line ++ x) :: lines y' := by
    induction x with
    | nil =>
      intro line
      rw [List.nil_append, List.append_nil]
      by_cases hcrlf : t = 0x0D ∧ ∃ z, y = 0x0A :: z
      · obtain ⟨rfl, z, rfl⟩ := hcrlf
        exact ⟨z, by rw [linesFrom]; rfl⟩
      · refine ⟨y, ?_⟩
        rw [linesFrom, if_pos ht]
        · rfl
        · exact fun z hcr hy => hcrlf ⟨hcr, z, hy⟩
    | cons u x ih =>
      intro line
      obtain ⟨hlf, hcr⟩ := hx u List.mem_cons_self
      obtain ⟨y', hy'⟩ := ih (fun v hv => hx v (List.mem_cons_of_mem _ hv)) (line ++ [u])
      refine ⟨y', ?_⟩
      rw [List.cons_append, linesFrom, if_neg (by simp [hlf, hcr]), hy', List.append_assoc]
      · rfl
      · exact fun z h => absurd h hcr
  exact key []

theorem lines_ne_nil (s : JString) : lines s ≠ [] := by
  have key : ∀ line, linesFrom line s ≠ [] := by
    intro line
    fun_induction linesFrom line s <;> simp_all
  exact key []

/-- The first line of a text with a line break. -/
theorem exists_first_line {s : JString} (h : 0x0A ∈ s) :
    ∃ x t y, SingleLine x ∧ (t = 0x0A ∨ t = 0x0D) ∧ s = x ++ t :: y := by
  induction s with
  | nil => cases h
  | cons u s ih =>
    by_cases hu : u = 0x0A ∨ u = 0x0D
    · exact ⟨[], u, s, singleLine_nil, hu, rfl⟩
    · obtain ⟨hlf, hcr⟩ := not_or.1 hu
      have hmem : 0x0A ∈ s := by
        rcases List.mem_cons.1 h with h | h
        · exact absurd h.symm hlf
        · exact h
      obtain ⟨x, t, y, hx, ht, rfl⟩ := ih hmem
      exact ⟨u :: x, t, y, singleLine_cons.2 ⟨⟨hlf, hcr⟩, hx⟩, ht, rfl⟩

theorem lines_of_singleLine {x : JString} (hx : SingleLine x) : lines x = [x] := by
  have key : ∀ line, linesFrom line x = [line ++ x] := by
    induction x with
    | nil => intro line; rw [linesFrom, List.append_nil]
    | cons u x ih =>
      intro line
      obtain ⟨hlf, hcr⟩ := hx u List.mem_cons_self
      rw [linesFrom, if_neg (by simp [hlf, hcr]), ih fun v hv => hx v (List.mem_cons_of_mem _ hv),
        List.append_assoc]
      · rfl
      · exact fun z h => absurd h hcr
  exact key []

theorem singleLine_of_mem_lines {s line : JString} (h : line ∈ lines s) : SingleLine line := by
  have key : ∀ first t, SingleLine first → ∀ l ∈ linesFrom first t, SingleLine l := by
    clear h s
    intro first t hfirst
    fun_induction linesFrom first t with
    | case1 first => simpa using hfirst
    | case2 first rest ih =>
      rintro l (_ | ⟨_, hl⟩)
      · exact hfirst
      · exact ih singleLine_nil l hl
    | case3 first u rest _ hu ih =>
      rintro l (_ | ⟨_, hl⟩)
      · exact hfirst
      · exact ih singleLine_nil l hl
    | case4 first u rest _ hu ih =>
      exact ih (by simpa [hfirst] using not_or.1 hu)
  exact key [] s singleLine_nil line h

/-- A text is cut at a line feed that does not belong to a carriage return. -/
theorem lines_append_lf {x : JString} (hx : x.getLast? ≠ some 0x0D) (y : JString) :
    lines (x ++ 0x0A :: y) = lines x ++ lines y := by
  have key : ∀ first, linesFrom first (x ++ 0x0A :: y) = linesFrom first x ++ lines y := by
    intro first
    fun_induction linesFrom first x with
    | case1 first =>
      rw [List.nil_append, linesFrom, if_pos (Or.inl rfl)]
      · rfl
      · exact fun z h => by cases h
    | case2 first rest ih =>
      rw [List.cons_append, List.cons_append, linesFrom, ih (by cases rest <;> simp_all)]
      rfl
    | case3 first u rest hcrlf hu ih =>
      rw [List.cons_append, linesFrom, if_pos hu, ih (by cases rest <;> simp_all)]
      · rfl
      · rintro z rfl hz
        cases rest with
        | nil => exact hx rfl
        | cons v rest =>
          obtain ⟨rfl, -⟩ := List.cons.inj hz
          exact hcrlf _ rfl rfl
    | case4 first u rest hcrlf hu ih =>
      rw [List.cons_append, linesFrom, if_neg hu, ih (by cases rest <;> simp_all)]
      exact fun z h => absurd (Or.inr h) hu
  exact key []

/-- The lines of a text that are over stay when the text goes on. -/
theorem dropLast_lines_append (x y : JString) :
    (lines x).dropLast <+: (lines (x ++ y)).dropLast := by
  have hcons : ∀ (l z : JString),
      (l :: linesFrom [] z).dropLast = l :: (linesFrom [] z).dropLast := fun _ z =>
    List.dropLast_cons_of_ne_nil (lines_ne_nil z)
  have key : ∀ first, (linesFrom first x).dropLast <+: (linesFrom first (x ++ y)).dropLast := by
    intro first
    fun_induction linesFrom first x with
    | case1 first => exact List.nil_prefix
    | case2 first rest ih =>
      rw [List.cons_append, List.cons_append, linesFrom, hcons, hcons]
      exact List.cons_prefix_cons.2 ⟨rfl, ih⟩
    | case3 first u rest hcrlf hu ih =>
      rw [hcons]
      by_cases hsplit : u = 0x0D ∧ rest = [] ∧ ∃ z, y = 0x0A :: z
      · -- the text goes on between `\r` and `\n`
        obtain ⟨rfl, rfl, z, rfl⟩ := hsplit
        have hcut : linesFrom first (0x0D :: 0x0A :: z) = first :: linesFrom [] z := by
          rw [linesFrom]
        rw [List.singleton_append, hcut, hcons]
        exact List.cons_prefix_cons.2 ⟨rfl, List.nil_prefix⟩
      · rw [List.cons_append, linesFrom, if_pos hu, hcons]
        · exact List.cons_prefix_cons.2 ⟨rfl, ih⟩
        · rintro z rfl hz
          cases rest with
          | nil => exact hsplit ⟨rfl, rfl, z, hz⟩
          | cons v rest =>
            obtain ⟨rfl, -⟩ := List.cons.inj hz
            exact hcrlf _ rfl rfl
    | case4 first u rest hcrlf hu ih =>
      rw [List.cons_append, linesFrom, if_neg hu]
      · exact ih
      · exact fun z h => absurd (Or.inr h) hu
  exact key []

end KotlinString
