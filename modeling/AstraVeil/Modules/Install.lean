import AstraVeil.Lib.Finmap
import AstraVeil.Modules.SignatureVerifier

/-!
# Installing a package

The parts of `ModuleManager.install` that do not touch the manager's own state:
`ModuleValidator`, `TrustGate`, the legacy signature of `module.json`, and the unpacking loop with
its limits.  The errors are constructors that carry what the messages show.

* `FileTree`: what is below a module's directory, by the components of the path;
* `unpack`: the loop over the entries, on what the target directory holds.  It ends in one of four
  ways: all entries written; an exception that leaves the directory; an exception that follows
  `target.deleteRecursively()`; or the death of the process;
* `remains`: what `deleteRecursively` leaves, whose result nobody looks at;
* `TrustReport.verified_of_isInstallable`: the strict gate lets verified packages through only.
-/

namespace AstraVeil.Modules

open Utf16 KotlinString Finmaps

/-! ### The manifest -/

/-- `ModuleManifest`. -/
structure ModuleManifest where
  name : JString
  version : JString
  api : ℤ
  author : JString
  description : JString
  permissions : List JString
  runtime : JString
  entry : JString
  minApi : ℤ
  deriving DecidableEq

/-- Why `validateManifest` fails. -/
inductive ManifestError
  | undecodable (message : JString)
  | blankName
  | blankVersion
  | apiNotPositive
  | apiTooHigh (api : ℤ)
  | minApiTooHigh (minApi : ℤ)
  | unsupportedPermissions (unknown : List JString)

/-- `AstraSdkConstants.MODULE_API_LEVEL`. -/
def moduleApiLevel : ℤ := 1

/-- `AstraSdkConstants.SUPPORTED_PERMISSIONS`. -/
def supportedPermissions : List JString :=
  ["filesystem", "namespace", "property", "mount", "network", "shell"].map ofString

/-- `String.isBlank`. -/
def isBlank (s : JString) : Bool := s.all isWhitespace

/-- The device the manager runs on. -/
structure Device (Key : Type) where
  platform : Platform Key
  /-- `core.security.pinnedPublicKeyB64`. -/
  pinnedPublicKeyB64 : JString
  /-- `json.decodeFromString(ModuleManifest.serializer(), _)`. -/
  decodeManifest : JString → Except JString ModuleManifest
  /-- The absolute path of `modulesRoot`. -/
  modulesRoot : JString

variable {Key : Type} (D : Device Key)

/-- `ModuleValidator.validateManifest`. -/
def validateManifest (raw : JString) : Except ManifestError ModuleManifest :=
  match D.decodeManifest raw with
  | .error message => .error (.undecodable message)
  | .ok manifest =>
      let unknown := manifest.permissions.filter (!supportedPermissions.contains ·)
      if isBlank manifest.name then .error .blankName
      else if isBlank manifest.version then .error .blankVersion
      else if ¬ manifest.api > 0 then .error .apiNotPositive
      else if ¬ manifest.api ≤ moduleApiLevel then .error (.apiTooHigh manifest.api)
      else if ¬ manifest.minApi ≤ moduleApiLevel then .error (.minApiTooHigh manifest.minApi)
      else if unknown ≠ [] then .error (.unsupportedPermissions unknown)
      else .ok manifest

/-- A letter or digit of `MODULE_ID_REGEX`. -/
def isIdStart (u : UInt16) : Bool :=
  let n := u.toNat
  decide ((0x61 ≤ n ∧ n ≤ 0x7A) ∨ (0x41 ≤ n ∧ n ≤ 0x5A) ∨ (0x30 ≤ n ∧ n ≤ 0x39))

/-- `MODULE_ID_REGEX`: `^[a-zA-Z0-9][a-zA-Z0-9._-]{0,127}$`. -/
def isModuleId : JString → Bool
  | [] => false
  | u :: us =>
      isIdStart u && decide (us.length ≤ 127) &&
        us.all fun v => isIdStart v || v == 0x2E || v == 0x5F || v == 0x2D

/-! ### The trust gate -/

/-- `TrustReport`. -/
structure TrustReport where
  sourceHash : Option JString
  signatureStatus : SignatureStatus
  manifestValid : Bool
  apiVersionSupported : Bool

/-- `TrustReport.isInstallable(strict)`. -/
def TrustReport.isInstallable (r : TrustReport) (strict : Bool) : Bool :=
  r.sourceHash.isSome && r.manifestValid && r.apiVersionSupported &&
    decide (r.signatureStatus ≠ .invalid) && !(strict && decide (r.signatureStatus ≠ .verified))

/-- `TrustGate.evaluate`; `sourceHash` is the hash of the staged file, if it could be read. -/
def TrustGate.evaluate (sourceHash : Option JString) (manifestValid : Bool) (apiVersion : ℤ)
    (signatureStatus : SignatureStatus) : TrustReport :=
  ⟨sourceHash, signatureStatus, manifestValid, decide (apiVersion ∈ ([1, 2, 3] : List ℤ))⟩

theorem TrustReport.verified_of_isInstallable {r : TrustReport} (h : r.isInstallable true = true) :
    r.signatureStatus = .verified := by
  unfold TrustReport.isInstallable at h
  rw [Bool.and_eq_true] at h
  simpa using h.2

/-- `SecurityManager.verifySignature`: under the pinned key, `false` on any failure. -/
def securityVerifySignature (data signature : List UInt8) : Bool :=
  let result : Except JString Bool := do
    let keyBytes ← D.platform.base64 D.pinnedPublicKeyB64
    let publicKey ← D.platform.publicKey keyBytes
    D.platform.ed25519 publicKey data signature
  match result with
  | .ok accepted => accepted
  | .error _ => false

/-- `ModuleManager.verifySignature`. -/
def verifySignature (avmFile : Except JString ZipFile) : SignatureStatus :=
  match avmFile with
  | .error _ => .unknown
  | .ok zip =>
      match zip.getEntry (ofString "ASTRAVEIL.SIG") with
      | none => .unsigned
      | some sigEntry =>
          match zip.getEntry (ofString "module.json") with
          | none => .unknown
          | some manifestEntry =>
              if securityVerifySignature D manifestEntry.content sigEntry.content then .verified
              else .invalid

/-- `resolveTrustLevel`. -/
def resolveTrustLevel (legacy : SignatureStatus) (structured : TrustLevel) : TrustLevel :=
  if legacy = .invalid ∨ structured = .invalid then .invalid
  else if legacy = .verified ∧ structured = .official then .official
  else if legacy = .verified ∧ structured = .trustedDeveloper then .trustedDeveloper
  else if legacy = .verified then .unknownDeveloper
  else .unsigned

/-! ### Files -/

/-- What stands at a path. -/
inductive Node
  | dir
  | file (content : List UInt8)
  deriving DecidableEq

/-- The tree below a module's directory, by the components of the path. -/
abbrev FileTree := Map (List JString) Node

/-- The components of a relative path, as the file system resolves them where there is no `..`. -/
def resolve (name : JString) : List JString :=
  (name.splitOn 0x2F).filter fun c => decide (c ≠ [] ∧ c ≠ [0x2E])

/-- The last component is a `.`, so that the path is that of a directory or of nothing. -/
def endsInDot (name : JString) : Bool :=
  decide (((name.splitOn 0x2F).filter fun c => decide (c ≠ [])).getLast? = some [0x2E])

/-- The components of `parentFile`, which does not drop a `.` before it cuts off the last one. -/
def parentOf (name : JString) : List JString :=
  if endsInDot name then resolve name else (resolve name).dropLast

/-- `contains("..")`. -/
def hasDotDot : JString → Bool
  | 0x2E :: 0x2E :: _ => true
  | _ :: rest => hasDotDot rest
  | [] => false

/-- The name passes the Zip Slip checks.  A canonical path outside the target needs a `..` too, and
a name with a NUL has no canonical path. -/
def isSafeName (name : JString) : Bool :=
  !(startsWith name [0x2F]) && !(hasDotDot name) && !(name.contains 0)

/-- `mkdirs` one component at a time, below `parent`; a file in the way ends it. -/
def mkdirsFrom (parent : List JString) : List JString → FileTree → FileTree
  | [], t => t
  | c :: cs, t =>
      match t.lookup (parent ++ [c]) with
      | some (.file _) => t
      | some .dir => mkdirsFrom (parent ++ [c]) cs t
      | none => mkdirsFrom (parent ++ [c]) cs (t.insert (parent ++ [c]) .dir)

/-- `mkdirs`. -/
def mkdirs (path : List JString) (t : FileTree) : FileTree := mkdirsFrom [] path t

/-- `outputStream()`, which creates or empties the file; `none` where the path or its parent is of
the wrong kind. -/
def openFile (name : JString) (t : FileTree) : Option FileTree :=
  let path := resolve name
  if endsInDot name ∨ path = [] ∨ t.lookup path = some .dir then none
  else if path.dropLast ≠ [] ∧ t.lookup path.dropLast ≠ some .dir then none
  else some (t.insert path (.file []))

/-- What `deleteRecursively` leaves of a directory: nothing, or the paths that survive it. -/
def remains (survivors : Option (List JString → Bool)) (t : FileTree) : Option FileTree :=
  survivors.map fun keep => collect (fun path n => if keep path then some n else none) t

/-- The path of `module.json`. -/
def manifestPath : List JString := [ofString "module.json"]

/-- The manifest that `module.json` on disk holds, if it is a valid one. -/
def manifestOf (t : FileTree) : Option ModuleManifest :=
  match t.lookup manifestPath with
  | some (.file content) => (validateManifest D (D.platform.decode content)).toOption
  | _ => none

/-- Whether `File(dir, runtime)` is a file.  With a `..` the path may lead outside the directory;
`outside` answers for those. -/
def runtimeExists (t : FileTree) (outside : JString → Bool) (runtime : JString) : Bool :=
  if (resolve runtime).contains [0x2E, 0x2E] then outside runtime
  else if endsInDot runtime then false
  else
    match t.lookup (resolve runtime) with
    | some (.file _) => true
    | _ => false

/-- `ModuleValidator.validatePackage`. -/
def validatePackage (t : FileTree) (outside : JString → Bool) : Option ModuleManifest :=
  match manifestOf D t with
  | none => none
  | some manifest =>
      if isBlank manifest.runtime || runtimeExists t outside manifest.runtime then some manifest
      else none

theorem manifestOf_of_validatePackage {D : Device Key} {t : FileTree} {outside : JString → Bool}
    {m : ModuleManifest} (h : validatePackage D t outside = some m) : manifestOf D t = some m := by
  unfold validatePackage at h
  cases hm : manifestOf D t with
  | none => rw [hm] at h; cases h
  | some m' =>
    rw [hm] at h
    simp only at h
    split_ifs at h
    exact h

/-! ### Unpacking -/

/-- `MAX_ENTRIES`. -/
def maxEntries : ℕ := 1024

/-- `MAX_SINGLE_FILE_BYTES`. -/
def maxSingleFileBytes : ℤ := 50 * 1024 * 1024

/-- `MAX_TOTAL_BYTES`. -/
def maxTotalBytes : ℕ := 200 * 1024 * 1024

/-- `MAX_COMPRESSION_RATIO`. -/
def maxCompressionRatio : ℤ := 100

/-- Why `install` fails. -/
inductive InstallError
  | fileMissing
  | notAvm (name : JString)
  | badArchive (message : JString)
  | manifestMissing
  | badManifest (e : ManifestError)
  | unsafeId (id : JString)
  | rejected (r : TrustReport)
  | alreadyInstalled (id : JString)
  | tooManyEntries (n : ℕ)
  | unsafePath (name : JString)
  | fileTooLarge (name : JString) (size : ℤ)
  | totalTooLarge
  | suspiciousRatio (name : JString)
  | badPackage
  | io
  | died

/-- Where in the work on one entry a fault strikes: before it, after its parent directories are
there, or after some of its bytes are written. -/
inductive EntryPoint
  | start
  | parents
  | written (bytes : ℕ)

/-- How unpacking ends; `deleted` has what the directory held when `deleteRecursively` was
called. -/
inductive Unpacked
  | ok (tree : FileTree) (total : ℕ)
  | left (tree : FileTree) (e : InstallError)
  | deleted (tree : FileTree) (e : InstallError)
  | crashed (tree : FileTree)

/-- A fault: the death of the process, or an `IOException`. -/
def stop (crash : Bool) (t : FileTree) : Unpacked := if crash then .crashed t else .left t .io

/-- The copy loop: what the file holds in the end, and the total, or `none` once it is exceeded.
`read total` is what `input.read(buf)` returns when `total` bytes have been unpacked; it fills at
most the buffer, and returns something as long as there is something left. -/
def copyLoop (read : ℕ → ℕ) :
    ℕ → List UInt8 → ℕ → List UInt8 → List UInt8 × Option ℕ
  | 0, written, total, _ => (written, some total)
  | fuel + 1, written, total, rest =>
      if rest = [] then (written, some total)
      else
        let n := min (max 1 (read total)) (min 8192 rest.length)
        if total + n > maxTotalBytes then (written, none)
        else copyLoop read fuel (written ++ rest.take n) (total + n) (rest.drop n)

/-- The copy loop on an empty file; every round takes a byte at least. -/
def copied (read : ℕ → ℕ) (total : ℕ) (content : List UInt8) : List UInt8 × Option ℕ :=
  copyLoop read (content.length + 1) [] total content

/-- One round of the loop over the entries. -/
def unpackEntry (read : ℕ → ℕ) (t : FileTree) (total : ℕ) (e : ZipEntry)
    (fault : Option (EntryPoint × Bool)) : Unpacked :=
  match fault with
  | some (.start, crash) => stop crash t
  | _ =>
      -- the checks of the name throw out of the loop: what is unpacked so far stays
      if isSafeName e.name = false then .left t (.unsafePath e.name)
      else if e.isDirectory then .ok (mkdirs (resolve e.name) t) total
      -- the limits delete the target directory before they throw
      else if e.size > maxSingleFileBytes then .deleted t (.fileTooLarge e.name e.size)
      else
        let t := mkdirs (parentOf e.name) t
        match fault with
        | some (.parents, crash) => stop crash t
        | some (.written n, crash) =>
            match openFile e.name t with
            | none => stop crash t
            | some t =>
                let copy := copied read total (e.content.take n)
                let t := t.insert (resolve e.name) (.file copy.1)
                match copy.2 with
                | none => .deleted t .totalTooLarge
                | some _ => stop crash t
        | _ =>
            match openFile e.name t with
            | none => .left t .io
            | some t =>
                let copy := copied read total e.content
                let t := t.insert (resolve e.name) (.file copy.1)
                match copy.2 with
                | none => .deleted t .totalTooLarge
                | some total =>
                    -- `size.toDouble() / compressedSize > 100.0`, exact for sizes up to the limit
                    if e.compressedSize > 0 ∧ e.size > maxCompressionRatio * e.compressedSize then
                      .deleted t (.suspiciousRatio e.name)
                    else .ok t total

/-- The loop over the entries; the fault strikes in one of its rounds. -/
def unpackLoop (read : ℕ → ℕ) :
    Option (ℕ × EntryPoint × Bool) → List ZipEntry → FileTree → ℕ → Unpacked
  | _, [], t, total => .ok t total
  | fault, e :: es, t, total =>
      let here := match fault with
        | some (0, f) => some f
        | _ => none
      let later := match fault with
        | some (k + 1, f) => some (k, f)
        | _ => none
      match unpackEntry read t total e here with
      | .ok t total => unpackLoop read later es t total
      | r => r

/-- Unpacking into a target directory with the given files. -/
def unpack (read : ℕ → ℕ) (fault : Option (ℕ × EntryPoint × Bool)) (t : FileTree)
    (entries : List ZipEntry) : Unpacked :=
  if entries.length > maxEntries then .left t (.tooManyEntries entries.length)
  else unpackLoop read fault entries t 0

end AstraVeil.Modules
