import AstraVeil.Lib.Paths
import AstraVeil.Modules.App

/-!
# Where the native runtime of a module comes from

`ModuleRuntime.load` hands `File(installPath, manifest.runtime)` to `System.load`.  The names of the
archive's entries are checked for `..` when they are unpacked; the runtime of the manifest is not,
neither there nor in `ModuleValidator`.

* `resolved_soPath`: the path, with its `.` and `..` resolved, is the runtime followed from the
  module's directory;
* `below_soPath_iff`: when that is strictly below the directory.
-/

namespace AstraVeil.Modules

open Utf16 KotlinString Finmaps Paths

/-- A component of a path name. -/
def component (c : JString) : Component JString :=
  if c = [] ∨ c = [0x2E] then .here
  else if c = [0x2E, 0x2E] then .up
  else .name c

/-- The components of a path name. -/
def components (path : JString) : List (Component JString) := (path.splitOn 0x2F).map component

/-- An absolute path name with its `.` and `..` resolved. -/
def resolved (path : JString) : List JString := walk [] (components path)

/-- `File(module.installPath, runtimeRel).absolutePath`. -/
def soPath (module : AstraModule) : JString :=
  module.installPath ++ 0x2F :: module.manifest.runtime

/-- After its `..` are cancelled against the names before them, the runtime goes down along names;
where it also goes up, the names start with those it went up through, and go on. -/
def StaysBelow (installPath runtime : JString) : Prop :=
  let way := climb (components runtime)
  Below ((resolved installPath).drop ((resolved installPath).length - way.1)) way.2

theorem components_append (dir path : JString) :
    components (dir ++ 0x2F :: path) = components dir ++ components path := by
  unfold components
  rw [List.splitOn_eq_splitOnP, List.splitOnP_append_cons _ _ (by decide), List.map_append]
  rfl

/-- The path handed to `System.load` is the runtime followed from the module's directory. -/
theorem resolved_soPath (module : AstraModule) :
    resolved (soPath module) =
      walk (resolved module.installPath) (components module.manifest.runtime) := by
  unfold resolved soPath walk
  rw [components_append, List.foldl_append]

/-- A path without `..` leads down along the names that `resolve` gives. -/
theorem walk_components {dir : List JString} {path : JString}
    (h : [0x2E, 0x2E] ∉ resolve path) : walk dir (components path) = dir ++ resolve path := by
  unfold components resolve at *
  generalize path.splitOn 0x2F = cs at h ⊢
  induction cs generalizing dir with
  | nil => simp [walk]
  | cons c cs ih =>
    by_cases hc : c ≠ [] ∧ c ≠ [0x2E]
    · rw [List.filter_cons_of_pos (by simpa using hc)] at h ⊢
      obtain ⟨hne, hrest⟩ := List.ne_and_not_mem_of_not_mem_cons h
      have hname : component c = .name c := by
        rw [component, if_neg (by tauto), if_neg (Ne.symm hne)]
      rw [List.map_cons, hname]
      show walk (dir ++ [c]) _ = _
      rw [ih hrest, List.append_assoc, List.singleton_append]
    · rw [List.filter_cons_of_neg (by simpa using hc)] at h ⊢
      have hhere : component c = .here := if_pos (by tauto)
      rw [List.map_cons, hhere]
      exact ih h

variable {Key : Type} {D : Device Key}

/-- An accepted package whose runtime is not blank has it as a file. -/
theorem runtimeExists_of_validatePackage {t : FileTree} {outside : JString → Bool}
    {manifest : ModuleManifest} (h : validatePackage D t outside = some manifest)
    (hruntime : isBlank manifest.runtime = false) :
    runtimeExists t outside manifest.runtime = true := by
  unfold validatePackage at h
  cases hm : manifestOf D t with
  | none =>
    rw [hm] at h
    cases h
  | some m =>
    rw [hm] at h
    simp only at h
    split_ifs at h with hok
    obtain rfl := Option.some.inj h
    simpa [hruntime] using hok

/-- **For every accepted package and every file system, what gets loaded is strictly below the
module's directory exactly when the runtime of the manifest stays there; without a `..` it is one
of the files that were unpacked.** -/
theorem below_soPath_iff {t : FileTree} {outside outside' : JString → Bool}
    {manifest : ModuleManifest} (haccepted : validatePackage D t outside = some manifest)
    {module : AstraModule} (hmanifest : module.manifest = manifest) {disk : Disk}
    (hload : mayLoad D disk outside' module = true) :
    (Below (resolved module.installPath) (resolved (soPath module)) ↔
      StaysBelow module.installPath manifest.runtime) ∧
    ([0x2E, 0x2E] ∉ resolve manifest.runtime →
      resolved (soPath module) = resolved module.installPath ++ resolve manifest.runtime ∧
        ∃ content, t.lookup (resolve manifest.runtime) = some (.file content)) := by
  subst hmanifest
  rw [resolved_soPath]
  refine ⟨below_walk_iff _ _, fun hplain => ⟨walk_components hplain, ?_⟩⟩
  have hblank : isBlank module.manifest.runtime = false := by
    simp only [mayLoad, Bool.and_eq_true, Bool.not_eq_true'] at hload
    exact hload.1.1
  have hexists := runtimeExists_of_validatePackage haccepted hblank
  rw [runtimeExists, if_neg (by simpa using hplain)] at hexists
  split_ifs at hexists
  split at hexists
  · rename_i content hlookup
    exact ⟨content, hlookup⟩
  · cases hexists

/-- A device on which `module.json` names the given runtime. -/
def runtimeDevice (runtime : JString) : Device Unit :=
  { sampleDevice with decodeManifest := fun _ => .ok { sampleManifest with runtime := runtime } }

/-- The module of that manifest, with the official signature. -/
def runtimeModule (runtime : JString) : AstraModule where
  id := ofString "com.test.mod"
  manifest := { sampleManifest with runtime := runtime }
  state := .enabled
  installPath := pathOf sampleDevice (ofString "com.test.mod")
  grantedPermissions := ∅
  trustLevelName := .official

/-- A package with its manifest and the file `a.so`. -/
def runtimeTree : FileTree :=
  AList.insert [ofString "a.so"] (.file [])
    (AList.insert manifestPath (.file (ascii sampleJson)) (∅ : FileTree))

/-- The disk with that package. -/
def runtimeDisk : Disk := ⟨AList.insert (ofString "com.test.mod") runtimeTree ∅, .absent⟩

/-- The runtime `./a.so`. -/
theorem below_plainRuntime :
    Below (resolved (runtimeModule (ofString "./a.so")).installPath)
      (resolved (soPath (runtimeModule (ofString "./a.so")))) := by
  have haccepted : validatePackage (runtimeDevice (ofString "./a.so")) runtimeTree
      (fun _ => false) = some (runtimeModule (ofString "./a.so")).manifest := by
    decide
  have hload : mayLoad (runtimeDevice (ofString "./a.so")) runtimeDisk (fun _ => false)
      (runtimeModule (ofString "./a.so")) = true := by
    decide
  refine (below_soPath_iff haccepted rfl hload).1.2 ⟨List.nil_prefix, ?_⟩
  decide

/-- The runtime `../n/a.so` of another module's directory: accepted, and handed to
`System.load`. -/
theorem not_below_dotDotRuntime :
    ¬ ∀ (D : Device Unit) (t : FileTree) (outside : JString → Bool) (manifest : ModuleManifest)
      (module : AstraModule) (disk : Disk), validatePackage D t outside = some manifest →
      module.manifest = manifest → mayLoad D disk outside module = true →
      Below (resolved module.installPath) (resolved (soPath module)) := by
  intro h
  obtain ⟨hpre, -⟩ := h (runtimeDevice (ofString "../n/a.so")) runtimeTree (fun _ => true) _
    (runtimeModule (ofString "../n/a.so")) runtimeDisk (by decide) rfl (by decide)
  revert hpre
  decide

end AstraVeil.Modules
