import AstraVeil.Lib.KotlinNumbers
import AstraVeil.Lib.PaddedLex

/-!
# VersionComparator.kt: is the remote version newer?

A version is trimmed, loses a leading `v`, is cut behind its digits and dots, and is compared part
by part.  A part is read with `toIntOrNull`, and as 0 where that fails.

* `isRemoteNewer_iff_before`: the loop computes the lexicographic order on the padded parts as read;
* `isRemoteNewer_iff_parts_iff`: when that is the order on the parts as written;
* `isRemoteNewer_strictWeakOrder`: on all texts it is a strict weak order without cycles.
-/

namespace VersionComparator

open KotlinString PaddedLex Utf16

/-- The dot. -/
def dot : UInt16 := 0x2E

/-- `Char.isDigit`: a decimal digit of any script. -/
def isDigit (u : UInt16) : Bool := (digitOf u).isSome

/-- Of the ASCII characters, `0` to `9` are digits. -/
theorem isDigit_of_ascii {u : UInt16} (h : u.toNat < 0x80) :
    isDigit u = decide (0x30 ≤ u.toNat ∧ u.toNat ≤ 0x39) := by
  have hall : ∀ n : Fin 0x80,
      isDigit (UInt16.ofNat n) = decide (0x30 ≤ (n : ℕ) ∧ (n : ℕ) ≤ 0x39) := by
    decide
  have hu := hall ⟨u.toNat, h⟩
  rwa [UInt16.ofNat_toNat] at hu

/-- The text without a leading `v` or `V`. -/
def dropV (v : JString) : JString :=
  if startsWith v (ofString "v") || startsWith v (ofString "V") then v.drop 1 else v

/-- The leading digits and dots of a version: what the loop of `normalize` collects. -/
def numericPrefix (version : JString) : JString :=
  (dropV (trim version)).takeWhile fun c => isDigit c || c == dot

/-- `trimEnd('.')`. -/
def trimEndDots (s : JString) : JString := (s.reverse.dropWhile (· == dot)).reverse

/-- `normalize`. -/
def normalize (version : JString) : JString := trimEndDots (numericPrefix version)

/-- `parts.getOrNull(i)?.toIntOrNull() ?: 0`. -/
def partAt (parts : List JString) (i : ℕ) : Int32 := (parts[i]?.bind toIntOrNull).getD 0

/-- The comparing loop, over the indices that are left. -/
def newerFrom (curParts remParts : List JString) : List ℕ → Bool
  | [] => false
  | i :: is =>
      let c := partAt curParts i
      let r := partAt remParts i
      if r > c then true
      else if r < c then false
      else newerFrom curParts remParts is

/-- `isRemoteNewer`. -/
def isRemoteNewer (current remote : JString) : Bool :=
  let cur := normalize current
  let rem := normalize remote
  if cur = rem then false
  else
    let curParts := cur.splitOn dot
    let remParts := rem.splitOn dot
    newerFrom curParts remParts (List.range (max curParts.length remParts.length))

/-! ### The loop -/

/-- The number that a part is read as. -/
def readPart (part : JString) : ℤ := ((toIntOrNull part).getD 0).toInt

/-- The parts of a version as they are read, continued with 0. -/
def readParts (version : JString) : ℕ → ℤ :=
  padded 0 (((normalize version).splitOn dot).map readPart)

theorem partAt_toInt (parts : List JString) (i : ℕ) :
    (partAt parts i).toInt = padded 0 (parts.map readPart) i := by
  rw [partAt, padded, List.getD_eq_getElem?_getD, List.getElem?_map]
  cases parts[i]? <;> rfl

/-- The loop over the indices from `n` on. -/
theorem newerFrom_range' (cur rem : List JString) (n m : ℕ)
    (hm : max cur.length rem.length ≤ n + m) :
    newerFrom cur rem (List.range' n m) = true ↔
      Before (rest n (padded 0 (cur.map readPart))) (rest n (padded 0 (rem.map readPart))) := by
  induction m generalizing n with
  | zero =>
    have hend : ∀ parts : List JString, parts.length ≤ n →
        rest n (padded 0 (parts.map readPart)) = fun _ => 0 := by
      intro parts hle
      funext i
      exact padded_of_length_le (by rw [List.length_map]; omega)
    rw [hend cur (by omega), hend rem (by omega)]
    simpa [newerFrom] using not_before_self (fun _ : ℕ => (0 : ℤ))
  | succ m ih =>
    rw [List.range'_succ, newerFrom, before_iff_at (i := 0) (by simp), rest_rest, rest_rest,
      Nat.zero_add, ← ih (n + 1) (by omega)]
    show _ ↔ padded 0 (cur.map readPart) n < padded 0 (rem.map readPart) n ∨
      padded 0 (cur.map readPart) n = padded 0 (rem.map readPart) n ∧ _
    rw [← partAt_toInt, ← partAt_toInt]
    simp only [gt_iff_lt, Int32.lt_iff_toInt_lt]
    split_ifs with hlt hgt
    · simp [hlt]
    · simp [hlt, (ne_of_lt hgt).symm]
    · simp [le_antisymm (not_lt.1 hgt) (not_lt.1 hlt)]

/-- The remote version is newer when its parts, as read, come later. -/
theorem isRemoteNewer_iff_before (current remote : JString) :
    isRemoteNewer current remote = true ↔ Before (readParts current) (readParts remote) := by
  simp only [isRemoteNewer]
  split_ifs with heq
  · simpa [readParts, heq] using not_before_self _
  · rw [List.range_eq_range']
    have hloop := newerFrom_range' ((normalize current).splitOn dot)
      ((normalize remote).splitOn dot) 0 _ (Nat.zero_add _).ge
    rw [rest_zero, rest_zero] at hloop
    exact hloop

/-- Being newer is a strict weak order on all texts, and no chain of updates comes back. -/
theorem isRemoteNewer_strictWeakOrder :
    StrictWeakOrder (fun a b => isRemoteNewer a b = true) ∧
      ∀ a, ¬ Relation.TransGen (fun a b => isRemoteNewer a b = true) a a := by
  have horder : StrictWeakOrder (fun a b => isRemoteNewer a b = true) :=
    strictWeakOrder_comap (fun a => toLex (readParts a)) isRemoteNewer_iff_before
  exact ⟨horder, horder.acyclic⟩

/-! ### The parts as written -/

/-- The natural number that a part writes, 0 for an empty part. -/
def value (part : JString) : ℕ := (digitsFrom 0 part).getD 0

/-- The numbers of a version: its leading digits and dots, split at the dots. -/
def parts (version : JString) : List ℕ := ((numericPrefix version).splitOn dot).map value

/-- The number that a part with the value `n` is read as: 0 if it does not fit an `Int`. -/
def intPart (n : ℕ) : ℤ := if n < 2 ^ 31 then n else 0

theorem exists_digitsFrom {part : JString} (h : ∀ u ∈ part, isDigit u = true) (n : ℕ) :
    ∃ m, digitsFrom n part = some m := by
  induction part generalizing n with
  | nil => exact ⟨n, rfl⟩
  | cons u part ih =>
    obtain ⟨d, hd⟩ := Option.isSome_iff_exists.1 (h u List.mem_cons_self)
    obtain ⟨m, hm⟩ := ih (fun v hv => h v (List.mem_cons_of_mem _ hv)) (10 * n + d)
    exact ⟨m, by rw [digitsFrom, hd, Option.bind_some, hm]⟩

theorem readPart_of_digits {part : JString} (h : ∀ u ∈ part, isDigit u = true) :
    readPart part = intPart (value part) := by
  by_cases hnil : part = []
  · subst hnil
    rfl
  · obtain ⟨n, hn⟩ := exists_digitsFrom h 0
    rw [readPart, value, intPart, toIntOrNull, toIntegerOrNull_of_digits hnil hn, hn,
      Option.bind_some, Option.getD_some]
    by_cases hfit : n < 2 ^ 31
    · rw [if_pos (by omega), if_pos hfit, Option.getD_some,
        Int32.toInt_ofInt_of_le (by omega) (by omega)]
    · rw [if_neg (by omega), if_neg hfit]
      rfl

theorem isDigit_of_mem_splitOn {version part : JString}
    (h : part ∈ (numericPrefix version).splitOn dot) : ∀ u ∈ part, isDigit u = true := by
  intro u hu
  obtain ⟨hdot, hsub⟩ := mem_splitOn h
  have hkeep : (isDigit u || u == dot) = true :=
    List.mem_takeWhile_imp (p := fun c => isDigit c || c == dot) (hsub u hu)
  rcases Bool.or_eq_true_iff.1 hkeep with hdigit | heq
  · exact hdigit
  · obtain rfl := beq_iff_eq.1 heq
    exact absurd hu hdot

/-- Dots at the end only add parts that count as 0. -/
theorem padded_trimEndDots (s : JString) :
    padded 0 (((trimEndDots s).splitOn dot).map readPart) =
      padded 0 ((s.splitOn dot).map readPart) := by
  induction s using List.reverseRecOn with
  | nil => rfl
  | append_singleton s u ih =>
    by_cases hu : u = dot
    · subst hu
      have htrim : trimEndDots (s ++ [dot]) = trimEndDots s := by
        simp [trimEndDots]
      have hzero : (([] : JString).splitOn dot).map readPart = [0] := rfl
      rw [htrim, ih, List.splitOn_append_cons_self, List.map_append, hzero, padded_concat]
    · have htrim : trimEndDots (s ++ [u]) = s ++ [u] := by
        simp [trimEndDots, hu]
      rw [htrim]

/-- The parts as read are the parts as written, those from 2³¹ on taken as 0. -/
theorem readParts_eq (version : JString) :
    readParts version = intPart ∘ padded 0 (parts version) := by
  have hparts : ((numericPrefix version).splitOn dot).map readPart =
      (parts version).map intPart := by
    rw [parts, List.map_map]
    exact List.map_congr_left fun part hpart => readPart_of_digits (isDigit_of_mem_splitOn hpart)
  rw [readParts, normalize, padded_trimEndDots, hparts]
  exact padded_map intPart 0 (parts version)

/-- Where the parts first differ, both fit an `Int`, or both are read as 0 and what is read behind
them comes in the same order. -/
def SameOrder (x y : ℕ → ℕ) : Prop :=
  ∀ i, FirstDiff x y i →
    (x i < 2 ^ 31 ∧ y i < 2 ^ 31) ∨
      (intPart (x i) = 0 ∧ intPart (y i) = 0 ∧
        (x i < y i ↔ Before (rest (i + 1) (intPart ∘ x)) (rest (i + 1) (intPart ∘ y))))

/-- Two different parts and what comes behind them. -/
theorem intPart_compare_iff {n m : ℕ} (behind : Prop) (hne : n ≠ m) :
    ((intPart n < intPart m ∨ intPart n = intPart m ∧ behind) ↔ n < m) ↔
      (n < 2 ^ 31 ∧ m < 2 ^ 31) ∨
        (intPart n = 0 ∧ intPart m = 0 ∧ (n < m ↔ behind)) := by
  unfold intPart
  by_cases hbehind : behind
  · simp only [hbehind, and_true, iff_true]
    split_ifs <;> omega
  · simp only [hbehind, and_false, or_false, iff_false]
    split_ifs <;> omega

theorem before_intPart_iff {x y : ℕ → ℕ} :
    (Before (intPart ∘ x) (intPart ∘ y) ↔ Before x y) ↔ SameOrder x y := by
  by_cases hxy : x = y
  · subst hxy
    refine iff_of_true (iff_of_false (not_before_self _) (not_before_self _)) fun i hi => ?_
    exact absurd rfl hi.1
  · obtain ⟨i, hi⟩ := exists_firstDiff hxy
    have hagree : ∀ j < i, (intPart ∘ x) j = (intPart ∘ y) j :=
      fun j hj => congrArg intPart (hi.2 j hj)
    have hunique : ∀ k, FirstDiff x y k → k = i := by
      intro k hk
      rcases lt_trichotomy k i with h | h | h
      · exact absurd (hi.2 k h) hk.1
      · exact h
      · exact absurd (hk.2 i h) hi.1
    have hsame : SameOrder x y ↔
        (x i < 2 ^ 31 ∧ y i < 2 ^ 31) ∨
          (intPart (x i) = 0 ∧ intPart (y i) = 0 ∧
            (x i < y i ↔ Before (rest (i + 1) (intPart ∘ x)) (rest (i + 1) (intPart ∘ y)))) :=
      ⟨fun h => h i hi, fun h k hk => hunique k hk ▸ h⟩
    rw [hsame, before_iff_at hagree, before_iff_of_firstDiff hi]
    exact intPart_compare_iff _ hi.1

/-- `isRemoteNewer` compares the numbers of two versions exactly where the first parts that differ
are read as they are written, or the parts behind them make up for it. -/
theorem isRemoteNewer_iff_parts_iff (current remote : JString) :
    (isRemoteNewer current remote = true ↔
        Before (padded 0 (parts current)) (padded 0 (parts remote))) ↔
      SameOrder (padded 0 (parts current)) (padded 0 (parts remote)) := by
  rw [isRemoteNewer_iff_before, readParts_eq, readParts_eq, before_intPart_iff]

/-- A version with a date does not replace an older one. -/
theorem dated_version_not_newer :
    ¬ (isRemoteNewer (ofString "0.1.0-alpha") (ofString "v20240101120000.1") = true ↔
      Before (padded 0 (parts (ofString "0.1.0-alpha")))
        (padded 0 (parts (ofString "v20240101120000.1")))) := by
  have hcode : isRemoteNewer (ofString "0.1.0-alpha") (ofString "v20240101120000.1") = false := by
    decide +kernel
  have hlaw : Before (padded 0 (parts (ofString "0.1.0-alpha")))
      (padded 0 (parts (ofString "v20240101120000.1"))) :=
    ⟨0, by simp, by decide +kernel⟩
  rw [hcode]
  simp [hlaw]

end VersionComparator
