import AstraVeil.Lib.Paths

/-!
# Sandbox configurations

`Sandbox::validate` of `rust/src/sandbox.rs`.  It is to see that the root directory is absolute and
that no write path overlaps a read-only path; what it looks for is one spelling in both lists.

* `validate_eq_ok_iff`: what is accepted;
* `sandbox_validate_iff`: for which configurations that is what the check is for;
* `not_validatesRight_append`: a writable path and a read-only one below it get through.
-/

namespace AstraVeil.Rust

open Paths

/-- The fields of `SandboxConfig` that are validated. -/
structure SandboxConfig where
  rootDir : String
  readOnlyPaths : List String
  writePaths : List String

namespace Sandbox

/-- `char::is_whitespace`. -/
def isWhitespace (c : Char) : Bool :=
  (0x09 ≤ c.toNat && c.toNat ≤ 0x0D) || c.toNat == 0x20 || c.toNat == 0x85 || c.toNat == 0xA0 ||
    c.toNat == 0x1680 || (0x2000 ≤ c.toNat && c.toNat ≤ 0x200A) || c.toNat == 0x2028 ||
    c.toNat == 0x2029 || c.toNat == 0x202F || c.toNat == 0x205F || c.toNat == 0x3000

/-- `str::trim`. -/
def trim (s : String) : List Char :=
  ((s.toList.dropWhile isWhitespace).reverse.dropWhile isWhitespace).reverse

/-- `Path::is_absolute`. -/
def isAbsolute (s : String) : Bool := s.toList.head? == some '/'

/-- `Sandbox::validate`. -/
def validate (config : SandboxConfig) : Except String Unit :=
  if (trim config.rootDir).isEmpty then .error "sandbox root_dir must not be empty"
  else if ¬ isAbsolute config.rootDir then
    .error ("sandbox root_dir must be absolute: " ++ config.rootDir)
  else
    match config.writePaths.find? (config.readOnlyPaths.contains ·) with
    | some w => .error ("path listed in both read_only_paths and write_paths: " ++ w)
    | none => .ok ()

/-! ### What the check is for -/

/-- A component of a path; what stands between two slashes in a row counts for nothing. -/
def component (c : List Char) : Component (List Char) :=
  if c = [] ∨ c = ['.'] then .here
  else if c = ['.', '.'] then .up
  else .name c

/-- The components of a path. -/
def components (path : List Char) : List (Component (List Char)) :=
  (path.splitOn '/').map component

/-- The paths overlap: with their components resolved they are the same, or one is below the
other. -/
def Overlaps (p q : String) : Prop :=
  Overlap (normal (isAbsolute p) (components p.toList))
    (normal (isAbsolute q) (components q.toList))

instance (p q : String) : Decidable (Overlaps p q) := inferInstanceAs (Decidable (Overlap _ _))

/-- No write path overlaps a read-only path. -/
def NoConflict (config : SandboxConfig) : Prop :=
  ∀ w ∈ config.writePaths, ∀ r ∈ config.readOnlyPaths, ¬ Overlaps w r

/-- The root directory is a non-empty absolute path, and the lists do not conflict. -/
def Sound (config : SandboxConfig) : Prop :=
  config.rootDir ≠ "" ∧ isAbsolute config.rootDir = true ∧ NoConflict config

/-- The configuration is accepted only if it is sound, and refused only if it is not. -/
def ValidatesRight (config : SandboxConfig) : Prop :=
  (validate config = .ok () → Sound config) ∧ ∀ e, validate config = .error e → ¬ Sound config

theorem overlaps_self (p : String) : Overlaps p p := Overlap.refl _

/-! ### What is accepted -/

theorem trim_ne_nil {s : String} (h : isAbsolute s = true) : (trim s).isEmpty = false := by
  obtain ⟨rest, hs⟩ : ∃ rest, s.toList = '/' :: rest := by
    rw [isAbsolute, beq_iff_eq] at h
    exact ⟨s.toList.tail, (List.cons_head?_tail h).symm⟩
  have hslash : isWhitespace '/' = false := by decide
  have hmem : '/' ∈ trim s := by
    rw [trim, hs, List.dropWhile_cons_of_neg (by rw [hslash]; decide), List.mem_reverse,
      List.reverse_cons, List.dropWhile_append]
    split <;> simp [hslash]
  cases htrim : trim s with
  | nil =>
    rw [htrim] at hmem
    exact absurd hmem List.not_mem_nil
  | cons c cs => rfl

theorem ne_empty_of_isAbsolute {s : String} (h : isAbsolute s = true) : s ≠ "" := by
  rintro rfl
  exact absurd h (by decide)

/-- Accepted are an absolute root directory and lists without a common entry. -/
theorem validate_eq_ok_iff {config : SandboxConfig} : validate config = .ok () ↔
    isAbsolute config.rootDir = true ∧ ∀ w ∈ config.writePaths, w ∉ config.readOnlyPaths := by
  unfold validate
  by_cases habs : isAbsolute config.rootDir = true
  · rw [if_neg (by rw [trim_ne_nil habs]; decide), if_neg (not_not.2 habs), and_iff_right habs]
    cases hfind : config.writePaths.find? (config.readOnlyPaths.contains ·) with
    | none =>
      refine iff_of_true rfl fun w hw hmem => ?_
      exact List.find?_eq_none.1 hfind w hw (List.contains_iff_mem.2 hmem)
    | some w =>
      refine iff_of_false (by simp) fun h => ?_
      exact h w (List.mem_of_find?_eq_some hfind)
        (List.contains_iff_mem.1 (List.find?_some hfind))
  · refine iff_of_false ?_ fun h => habs h.1
    split_ifs <;> simp

/-- **When `validate` is right**: when the root directory is not absolute, when some path stands in
both lists in the same spelling, and when no two paths overlap. -/
theorem sandbox_validate_iff (config : SandboxConfig) :
    ValidatesRight config ↔ (isAbsolute config.rootDir = true →
      (∃ w ∈ config.writePaths, w ∈ config.readOnlyPaths) ∨ NoConflict config) := by
  constructor
  · rintro ⟨hok, -⟩ habs
    by_cases hcommon : ∃ w ∈ config.writePaths, w ∈ config.readOnlyPaths
    · exact Or.inl hcommon
    · refine Or.inr (hok (validate_eq_ok_iff.2 ⟨habs, fun w hw hr => ?_⟩)).2.2
      exact hcommon ⟨w, hw, hr⟩
  · intro h
    constructor
    · intro hok
      obtain ⟨habs, hdisjoint⟩ := validate_eq_ok_iff.1 hok
      refine ⟨ne_empty_of_isAbsolute habs, habs, (h habs).resolve_left ?_⟩
      rintro ⟨w, hw, hr⟩
      exact hdisjoint w hw hr
    · rintro e herror ⟨-, habs, hnone⟩
      have hok : validate config = .ok () := validate_eq_ok_iff.2 ⟨habs, fun w hw hr =>
        hnone w hw w hr (overlaps_self w)⟩
      rw [herror] at hok
      cases hok

/-! ### What gets through -/

theorem components_append (dir path : List Char) :
    components (dir ++ '/' :: path) = components dir ++ components path := by
  unfold components
  rw [List.splitOn_eq_splitOnP, List.splitOnP_append_cons _ _ (by decide), List.map_append]
  rfl

/-- A path overlaps what goes on from it without `..`. -/
theorem overlaps_append {p : String} {rest : List Char} (hp : p ≠ "")
    (hrest : ∀ c ∈ components rest, c ≠ .up) :
    Overlaps p (String.ofList (p.toList ++ '/' :: rest)) := by
  have habs : isAbsolute (String.ofList (p.toList ++ '/' :: rest)) = isAbsolute p := by
    rw [isAbsolute, isAbsolute, String.toList_ofList,
      List.head?_append_of_ne_nil _ (fun h => hp (String.toList_eq_nil_iff.1 h))]
  rw [Overlaps, habs, String.toList_ofList, components_append]
  exact overlap_normal_append _ _ hrest

/-- Whatever the path, a trailing slash or a directory below it goes unnoticed. -/
theorem not_validatesRight_append {root p : String} {rest : List Char}
    (hroot : isAbsolute root = true) (hp : p ≠ "") (hrest : ∀ c ∈ components rest, c ≠ .up) :
    ¬ ValidatesRight ⟨root, [String.ofList (p.toList ++ '/' :: rest)], [p]⟩ := by
  rintro ⟨hok, -⟩
  have haccepted : validate ⟨root, [String.ofList (p.toList ++ '/' :: rest)], [p]⟩ = .ok () := by
    refine validate_eq_ok_iff.2 ⟨hroot, fun w hw hr => ?_⟩
    rw [List.mem_singleton.1 hw, List.mem_singleton, ← String.toList_inj,
      String.toList_ofList] at hr
    have hlen := congrArg List.length hr
    rw [List.length_append, List.length_cons] at hlen
    omega
  exact (hok haccepted).2.2 p (List.mem_singleton.2 rfl) _ (List.mem_singleton.2 rfl)
    (overlaps_append hp hrest)

/-- Writable `/system` above the read-only `/system/`. -/
theorem not_validatesRight_sample :
    ¬ ∀ config : SandboxConfig, ValidatesRight config := by
  intro h
  have hsample := h ⟨"/data/astra/sandbox", [String.ofList ("/system".toList ++ '/' :: [])],
    ["/system"]⟩
  exact not_validatesRight_append (by decide) (by decide) (by decide) hsample

end Sandbox

end AstraVeil.Rust
