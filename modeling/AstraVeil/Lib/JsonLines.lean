import AstraVeil.Lib.JsonText
import AstraVeil.Lib.KotlinString

/-!
# JSON lines in a text file

A record is printed on one line and written to a file as UTF-8, where an unpaired surrogate turns
into a question mark.  Quotes and escapes are ASCII, so that what is lost is lost inside a string:
the line that comes back is the one printed for the mended strings.

* `mend_append_of_plain`: text without surrogates is mended by itself;
* `mend_quote_append`: a quoted string is mended inside its quotes;
* `singleLine_quote`: a quoted string has no line breaks;
* `readLines_flatMap`: the lines of a file to which lines were appended.
-/

namespace JsonLines

open Utf16 KotlinString JsonText

/-- No code unit is half of a surrogate pair. -/
def Plain (s : JString) : Prop := ∀ u ∈ s, (isHigh u || isLow u) = false

instance (s : JString) : Decidable (Plain s) :=
  List.decidableBAll (fun u : UInt16 => (isHigh u || isLow u) = false) s

theorem mend_append_of_plain {x : JString} (hx : Plain x) (y : JString) :
    mend (x ++ y) = x ++ mend y := by
  induction x with
  | nil => rfl
  | cons u x ih =>
    have hu := hx u List.mem_cons_self
    have hrest := ih fun v hv => hx v (List.mem_cons_of_mem _ hv)
    obtain ⟨hhigh, hlow⟩ := Bool.or_eq_false_iff.1 hu
    rw [List.cons_append, List.cons_append, ← hrest]
    cases hxy : x ++ y with
    | nil => simp [mend, hu]
    | cons v rest => simp [mend, hhigh, hlow]

theorem mend_cons_of_unpaired {u : UInt16} (hu : (isHigh u || isLow u) = true) {y : JString}
    (hy : ∀ v ∈ y.head?, (isHigh u && isLow v) = false) : mend (u :: y) = 0x3F :: mend y := by
  cases y with
  | nil => simp [mend, hu]
  | cons v rest =>
    have hpair := hy v rfl
    rw [mend, if_neg (by simp [hpair]), if_pos hu]

theorem mend_cons_of_pair {u v : UInt16} (h : (isHigh u && isLow v) = true) (y : JString) :
    mend (u :: v :: y) = u :: v :: mend y := by
  rw [mend, if_pos h]

section Quotes

variable {U : JsonText.Units UInt16} (hcode : ∀ u, U.code u = u.toNat)
include hcode

/-- An escaped code unit is itself, or ASCII that is printed on the line. -/
theorem escape_cases (u : UInt16) :
    (U.escape u = [u] ∧ 0x20 ≤ u.toNat) ∨
      ((isHigh u || isLow u) = false ∧
        ∀ v ∈ U.escape u, 0x20 ≤ v.toNat ∧ v.toNat < 0x80) := by
  unfold Units.escape
  by_cases hself : escapeCode (U.code u) = [U.code u]
  · rw [if_pos hself]
    refine Or.inl ⟨rfl, ?_⟩
    rw [hcode] at hself
    by_contra hlow
    have hall : ∀ c < 0x20, escapeCode c ≠ [c] := by decide
    exact hall _ (Nat.lt_of_not_le hlow) hself
  · rw [if_neg hself]
    rw [hcode] at hself ⊢
    have hlt : u.toNat < 0x5D := by
      by_contra hge
      refine hself ?_
      unfold escapeCode
      repeat' split_ifs
      all_goals first | rfl | omega
    refine Or.inr ⟨?_, ?_⟩
    · rw [Bool.or_eq_false_iff, ← Bool.not_eq_true, ← Bool.not_eq_true, isHigh_iff, isLow_iff]
      omega
    · have hall : ∀ c < 0x5D, ∀ d ∈ escapeCode c,
          escapeCode c = [c] ∨ 0x20 ≤ d ∧ d < 0x80 := by decide
      intro v hv
      obtain ⟨d, hd, rfl⟩ := List.mem_map.1 hv
      have hrange := (hall _ hlt d hd).resolve_left hself
      rw [← hcode, U.code_ascii d hrange.2]
      exact hrange

omit hcode in
theorem plain_of_ascii {s : JString} (h : ∀ v ∈ s, v.toNat < 0x80) : Plain s := by
  intro v hv
  have := h v hv
  rw [Bool.or_eq_false_iff, ← Bool.not_eq_true, ← Bool.not_eq_true, isHigh_iff, isLow_iff]
  omega

theorem plain_escape {u : UInt16} (hu : (isHigh u || isLow u) = false) : Plain (U.escape u) := by
  rcases escape_cases hcode u with ⟨heq, -⟩ | ⟨-, hascii⟩
  · rw [heq]
    exact fun v hv => List.mem_singleton.1 hv ▸ hu
  · exact plain_of_ascii fun v hv => (hascii v hv).2

theorem escape_of_surrogate {u : UInt16} (hu : (isHigh u || isLow u) = true) :
    U.escape u = [u] := by
  rcases escape_cases hcode u with ⟨heq, -⟩ | ⟨hplain, -⟩
  · exact heq
  · rw [hu] at hplain
    cases hplain

theorem ascii_eq {n : ℕ} (hn : n < 128) : U.ascii n = UInt16.ofNat n := by
  refine UInt16.toNat_inj.1 ?_
  rw [← hcode, U.code_ascii n hn, UInt16.toNat_ofNat']
  exact (Nat.mod_eq_of_lt (by omega)).symm

theorem escape_question : U.escape 0x3F = [0x3F] := by
  rcases escape_cases hcode 0x3F with ⟨heq, -⟩ | -
  · exact heq
  · rw [Units.escape, hcode]
    rfl

/-- What follows an escaped unit does not complete a pair that the unit does not. -/
theorem head_escape {v : UInt16} {tail : JString} (w : UInt16)
    (hw : w ∈ (U.escape v ++ tail).head?) : isLow w = true → w = v := by
  intro hlow
  rcases escape_cases hcode v with ⟨heq, -⟩ | ⟨-, hascii⟩
  · rw [heq] at hw
    exact (Option.some.inj hw).symm
  · cases hesc : U.escape v with
    | nil =>
      have hne : U.escape v ≠ [] := by
        unfold Units.escape
        split_ifs
        · simp
        · intro hnil
          have hread := readCode_escapeCode (U.code v) []
          rw [List.map_eq_nil_iff.1 hnil] at hread
          cases hread
      exact absurd hesc hne
    | cons x rest =>
      rw [hesc] at hw
      obtain rfl : x = w := Option.some.inj hw
      have hlt := (hascii x (by rw [hesc]; exact List.mem_cons_self)).2
      rw [isLow_iff] at hlow
      omega

theorem mend_flatMap_escape (s y : JString) :
    mend (s.flatMap U.escape ++ 0x22 :: y) = (mend s).flatMap U.escape ++ 0x22 :: mend y := by
  have hquote : ∀ y, mend (0x22 :: y) = 0x22 :: mend y := fun y =>
    mend_append_of_plain (x := [0x22]) (by decide) y
  have hlow : ∀ {u : UInt16}, ∀ v ∈ (0x22 :: y : JString).head?,
      (isHigh u && isLow v) = false := by
    rintro u v ⟨⟩
    exact Bool.and_false _
  induction s using mend.induct with
  | case1 => exact hquote y
  | case2 u =>
    by_cases hu : (isHigh u || isLow u) = true
    · rw [mend, if_pos hu, List.flatMap_singleton, List.flatMap_singleton,
        escape_of_surrogate hcode hu, escape_question hcode, List.singleton_append,
        mend_cons_of_unpaired hu hlow, hquote]
      rfl
    · replace hu : (isHigh u || isLow u) = false := by simpa using hu
      rw [mend, hu, if_neg Bool.false_ne_true, List.flatMap_singleton,
        mend_append_of_plain (plain_escape hcode hu), hquote]
  | case3 u v rest hpair ih =>
    obtain ⟨hu, hv⟩ := Bool.and_eq_true_iff.1 hpair
    have hesc : ∀ rest : JString, (u :: v :: rest).flatMap U.escape =
        u :: v :: rest.flatMap U.escape := by
      intro rest
      rw [List.flatMap_cons, List.flatMap_cons, escape_of_surrogate hcode (by simp [hu]),
        escape_of_surrogate hcode (by simp [hv])]
      rfl
    rw [mend, if_pos hpair, hesc, hesc, List.cons_append, List.cons_append,
      mend_cons_of_pair hpair, ih]
    rfl
  | case4 u v rest hpair ih =>
    have hfirst : ∀ (a : UInt16) (l z : JString), (a :: l).flatMap U.escape ++ z =
        U.escape a ++ (l.flatMap U.escape ++ z) := by
      intro a l z
      rw [List.flatMap_cons, List.append_assoc]
    rw [mend, if_neg hpair, hfirst u, hfirst _ (mend (v :: rest)), ← ih]
    by_cases hu : (isHigh u || isLow u) = true
    · rw [if_pos hu, escape_of_surrogate hcode hu, escape_question hcode, List.singleton_append,
        List.singleton_append]
      refine mend_cons_of_unpaired hu fun w hw => ?_
      by_contra hne
      obtain ⟨hhigh, hlow⟩ := Bool.and_eq_true_iff.1 (by simpa using hne)
      rw [hfirst] at hw
      exact hpair (by rw [hhigh, ← head_escape hcode w hw hlow, hlow]; rfl)
    · replace hu : (isHigh u || isLow u) = false := by simpa using hu
      rw [hu, if_neg Bool.false_ne_true, mend_append_of_plain (plain_escape hcode hu)]

/-- A quoted string is mended inside its quotes. -/
theorem mend_quote_append (s y : JString) :
    mend (U.quote s ++ y) = U.quote (mend s) ++ mend y := by
  have hquote : U.ascii 0x22 = 0x22 := ascii_eq hcode (by decide)
  simp only [Units.quote, hquote, List.cons_append, List.append_assoc, List.nil_append]
  rw [← List.singleton_append, mend_append_of_plain (by decide), mend_flatMap_escape hcode]
  rfl

theorem singleLine_quote (s : JString) : SingleLine (U.quote s) := by
  have hquote : U.ascii 0x22 = 0x22 := ascii_eq hcode (by decide)
  have hbreak : ∀ u : UInt16, 0x20 ≤ u.toNat → u ≠ 0x0A ∧ u ≠ 0x0D := by
    intro u hu
    constructor <;> rintro rfl <;> revert hu <;> decide
  rw [Units.quote, hquote, singleLine_cons, singleLine_append]
  refine ⟨by decide, fun v hv => hbreak v ?_, by decide⟩
  obtain ⟨u, -, hu⟩ := List.mem_flatMap.1 hv
  rcases escape_cases hcode u with ⟨heq, hge⟩ | ⟨-, hascii⟩
  · rw [heq] at hu
    exact List.mem_singleton.1 hu ▸ hge
  · exact (hascii v hu).1

end Quotes

/-! ### The lines of a file -/

/-- `readLines`: the lines of a file, without an empty one behind the last line break. -/
def readLines (file : JString) : List JString :=
  if (lines file).getLast? = some [] then (lines file).dropLast else lines file

/-- The lines that were appended, one after the other. -/
theorem readLines_flatMap {ls : List JString} (h : ∀ l ∈ ls, SingleLine l) :
    readLines (ls.flatMap fun l => l ++ [0x0A]) = ls := by
  have hlines : lines (ls.flatMap fun l => l ++ [0x0A]) = ls ++ [[]] := by
    induction ls with
    | nil => rfl
    | cons l ls ih =>
      rw [List.flatMap_cons, List.append_assoc, List.singleton_append,
        lines_append (h l List.mem_cons_self), ih fun l' hl => h l' (List.mem_cons_of_mem _ hl)]
      rfl
  rw [readLines, hlines, List.getLast?_concat, if_pos rfl, List.dropLast_concat]

end JsonLines
