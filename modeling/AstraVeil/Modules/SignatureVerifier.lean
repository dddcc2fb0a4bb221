import AstraVeil.Lib.Separated
import AstraVeil.Modules.Archive

/-!
# Package signatures

`modules/security/ModuleSignatureVerifier.kt`: `META-INF/ASTRAVEIL.MF` lists files with their
SHA-256, `META-INF/ASTRAVEIL.SIG` is an Ed25519 signature of that text and
`META-INF/ASTRAVEIL.CERT` the key.  The verifier walks over the files the text lists; what the
installer unpacks are the entries of the archive.

* `verify_verified`: everything a verdict `VERIFIED` has checked;
* `Covered`: every entry the installer unpacks is in the signed text, with its own hash;
* `covered_iff`: among the verified archives these are the ones whose unpacked entries are all
  listed and read the same as the entry a lookup of their name finds.
-/

namespace AstraVeil.Modules

open Utf16 KotlinString

/-- The parts of the Java platform the verifier uses. -/
structure Platform (Key : Type) where
  /-- `toString(Charsets.UTF_8)`. -/
  decode : List UInt8 → JString
  /-- `Base64.getDecoder().decode`. -/
  base64 : JString → Except JString (List UInt8)
  /-- `KeyFactory.getInstance("Ed25519").generatePublic(X509EncodedKeySpec(_))`. -/
  publicKey : List UInt8 → Except JString Key
  /-- `Signature.verify` for a key, a message and a signature. -/
  ed25519 : Key → List UInt8 → List UInt8 → Except JString Bool
  sha256 : List UInt8 → List UInt8

/-- `SignatureVerification`. -/
structure SignatureVerification where
  cryptoStatus : SignatureStatus
  trustLevel : TrustLevel
  signerFingerprint : Option JString
  signerName : Option JString
  reason : Option JString

namespace ModuleSignatureVerifier

/-- `MF_PATH`. -/
def mfPath : JString := ofString "META-INF/ASTRAVEIL.MF"

/-- `SIG_PATH`. -/
def sigPath : JString := ofString "META-INF/ASTRAVEIL.SIG"

/-- `CERT_PATH`. -/
def certPath : JString := ofString "META-INF/ASTRAVEIL.CERT"

/-- `unsigned`. -/
def unsigned : SignatureVerification :=
  ⟨.unsigned, .unsigned, none, none, some (ofString "no signature block")⟩

/-- `invalid`. -/
def invalid (reason : JString) : SignatureVerification :=
  ⟨.invalid, .invalid, none, none, some reason⟩

/-- `Manifest`, the files in the order of their first mention. -/
structure Manifest where
  signer : Option JString
  files : List (JString × JString)

/-- `files[k] = v` for a `LinkedHashMap`. -/
def put (k v : JString) : List (JString × JString) → List (JString × JString)
  | [] => [(k, v)]
  | e :: rest => if e.1 = k then (k, v) :: rest else e :: put k v rest

/-- One line of the manifest, with the name that waits for its hash. -/
def parseLine (st : Manifest × Option JString) (rawLine : JString) : Manifest × Option JString :=
  let line := trim rawLine
  if startsWith line (ofString "Signer:") then
    ({ st.1 with signer := some (trim (line.drop 7)) }, st.2)
  else if startsWith line (ofString "Name:") then (st.1, some (trim (line.drop 5)))
  else if startsWith line (ofString "SHA-256:") then
    match st.2 with
    | none => (st.1, none)
    | some name => ({ st.1 with files := put name (trim (line.drop 8)) st.1.files }, none)
  else st

/-- `parseManifest`. -/
def parseManifest (text : JString) : Manifest := ((lines text).foldl parseLine (⟨none, []⟩, none)).1

variable {Key : Type} (P : Platform Key)

/-- `fingerprint`. -/
def fingerprint (certBytes : List UInt8) : JString :=
  (ofString ":").intercalate ((P.sha256 certBytes).map fun b => hexString [b])

/-- The loop over the listed files, with the reason of the first failure. -/
def checkFiles (zip : ZipFile) : List (JString × JString) → Option JString
  | [] => none
  | (path, expectedHash) :: rest =>
      match zip.getEntry path with
      | none => some (ofString "manifest lists missing file: " ++ path)
      | some entry =>
          if equalsIgnoreCase (hexString (P.sha256 entry.content)) expectedHash then
            checkFiles zip rest
          else some (ofString "content tampered: " ++ path)

/-- The trust level of a key. -/
def trustLevelOf (certB64 officialPublicKeyB64 : JString) (trustedKeys : List JString) :
    TrustLevel :=
  if certB64 = trim officialPublicKeyB64 then .official
  else if certB64 ∈ trustedKeys then .trustedDeveloper
  else .unknownDeveloper

/-- The verdict on an archive with the three signature entries. -/
def verifySigned (zip : ZipFile) (officialPublicKeyB64 : JString) (trustedKeys : List JString)
    (mfBytes sigBytes certBytesB64 : List UInt8) : Except JString SignatureVerification := do
  let certB64 := trim (P.decode certBytesB64)
  let certBytes ← P.base64 certB64
  let publicKey ← P.publicKey certBytes
  let accepted ← P.ed25519 publicKey mfBytes sigBytes
  if accepted = false then return invalid (ofString "signature does not verify")
  let manifest := parseManifest (P.decode mfBytes)
  match checkFiles P zip manifest.files with
  | some reason => return invalid reason
  | none =>
      return { cryptoStatus := .verified
               trustLevel := trustLevelOf certB64 officialPublicKeyB64 trustedKeys
               signerFingerprint := some (fingerprint P certBytes)
               signerName := manifest.signer
               reason := none }

/-- `verify`; `avmFile` is what opening the file as an archive gives. -/
def verify (avmFile : Except JString ZipFile) (officialPublicKeyB64 : JString)
    (trustedKeys : List JString) : SignatureVerification :=
  let result : Except JString SignatureVerification := do
    let zip ← avmFile
    match zip.getEntry mfPath, zip.getEntry sigPath, zip.getEntry certPath with
    | some mfEntry, some sigEntry, some certEntry =>
        verifySigned P zip officialPublicKeyB64 trustedKeys mfEntry.content sigEntry.content
          certEntry.content
    | _, _, _ => return unsigned
  match result with
  | .ok v => v
  | .error message => invalid (ofString "verification error: " ++ message)

/-! ### What a verdict has checked -/

variable {P}

theorem checkFiles_eq_none {zip : ZipFile} {files : List (JString × JString)} :
    checkFiles P zip files = none ↔ ∀ f ∈ files, ∃ e, zip.getEntry f.1 = some e ∧
      equalsIgnoreCase (hexString (P.sha256 e.content)) f.2 = true := by
  induction files with
  | nil => simp [checkFiles]
  | cons f files ih =>
    obtain ⟨path, hash⟩ := f
    rw [checkFiles, List.forall_mem_cons]
    cases hpath : zip.getEntry path with
    | none => simp
    | some e =>
      simp only [Option.some.injEq, exists_eq_left']
      split_ifs with heq
      · rw [ih]
        exact ⟨fun h => ⟨heq, h⟩, fun h => h.2⟩
      · exact iff_of_false (by simp) fun h => heq h.1

theorem bind_eq_ok {ε α β : Type} {x : Except ε α} {f : α → Except ε β} {b : β}
    (h : x >>= f = .ok b) : ∃ a, x = .ok a ∧ f a = .ok b := by
  cases x with
  | error e => cases h
  | ok a => exact ⟨a, rfl, h⟩

theorem verifySigned_verified {zip : ZipFile} {official : JString} {trusted : List JString}
    {mfBytes sigBytes certBytesB64 : List UInt8} {v : SignatureVerification}
    (h : verifySigned P zip official trusted mfBytes sigBytes certBytesB64 = .ok v)
    (hv : v.cryptoStatus = .verified) :
    ∃ certBytes key, P.base64 (trim (P.decode certBytesB64)) = .ok certBytes ∧
      P.publicKey certBytes = .ok key ∧ P.ed25519 key mfBytes sigBytes = .ok true ∧
      checkFiles P zip (parseManifest (P.decode mfBytes)).files = none := by
  obtain ⟨certBytes, hbase64, h⟩ := bind_eq_ok h
  obtain ⟨key, hkey, h⟩ := bind_eq_ok h
  obtain ⟨accepted, hsigned, h⟩ := bind_eq_ok h
  cases accepted with
  | false =>
    obtain rfl := Except.ok.inj h
    cases hv
  | true =>
    rw [if_neg (by decide)] at h
    cases hfiles : checkFiles P zip (parseManifest (P.decode mfBytes)).files with
    | some reason =>
      simp only [hfiles] at h
      obtain rfl := Except.ok.inj h
      cases hv
    | none => exact ⟨certBytes, key, hbase64, hkey, hsigned, rfl⟩

/-- The checks behind a verdict `VERIFIED`. -/
theorem verify_verified {zip : ZipFile} {official : JString} {trusted : List JString}
    (h : (verify P (.ok zip) official trusted).cryptoStatus = .verified) :
    ∃ mf sig cert certBytes key, zip.getEntry mfPath = some mf ∧
      zip.getEntry sigPath = some sig ∧ zip.getEntry certPath = some cert ∧
      P.base64 (trim (P.decode cert.content)) = .ok certBytes ∧ P.publicKey certBytes = .ok key ∧
      P.ed25519 key mf.content sig.content = .ok true ∧
      checkFiles P zip (parseManifest (P.decode mf.content)).files = none := by
  unfold verify at h
  simp only [Except.bind, bind] at h
  cases hmf : zip.getEntry mfPath with
  | none => rw [hmf] at h; cases h
  | some mf =>
    cases hsig : zip.getEntry sigPath with
    | none => rw [hmf, hsig] at h; cases h
    | some sig =>
      cases hcert : zip.getEntry certPath with
      | none => rw [hmf, hsig, hcert] at h; cases h
      | some cert =>
        rw [hmf, hsig, hcert] at h
        simp only at h
        cases hs : verifySigned P zip official trusted mf.content sig.content cert.content with
        | error message => rw [hs] at h; cases h
        | ok v =>
          rw [hs] at h
          obtain ⟨certBytes, key, hchecks⟩ := verifySigned_verified hs h
          exact ⟨mf, sig, cert, certBytes, key, rfl, rfl, rfl, hchecks⟩

/-- These checks are all. -/
theorem verified_of_checks {zip : ZipFile} {official : JString} {trusted : List JString}
    {mf sig cert : ZipEntry} {certBytes : List UInt8} {key : Key}
    (hmf : zip.getEntry mfPath = some mf) (hsig : zip.getEntry sigPath = some sig)
    (hcert : zip.getEntry certPath = some cert)
    (hbase64 : P.base64 (trim (P.decode cert.content)) = .ok certBytes)
    (hkey : P.publicKey certBytes = .ok key)
    (hsigned : P.ed25519 key mf.content sig.content = .ok true)
    (hfiles : checkFiles P zip (parseManifest (P.decode mf.content)).files = none) :
    (verify P (.ok zip) official trusted).cryptoStatus = .verified := by
  simp only [verify, verifySigned, bind, Except.bind, hmf, hsig, hcert, hbase64, hkey, hsigned,
    hfiles, Bool.true_eq_false, if_false]
  rfl

/-! ### Coverage -/

/-- The installer writes the entry, and the entry is not part of the signature. -/
def Signable (e : ZipEntry) : Prop :=
  e.isDirectory = false ∧ startsWith e.name (ofString "META-INF/ASTRAVEIL.") = false

variable (P) in
/-- Every entry the installer unpacks stands in the signed text with the hash of its bytes. -/
def Covered (zip : ZipFile) : Prop :=
  ∃ mf, zip.getEntry mfPath = some mf ∧ ∀ e ∈ zip.entries, Signable e →
    ∃ hash, (e.name, hash) ∈ (parseManifest (P.decode mf.content)).files ∧
      equalsIgnoreCase (hexString (P.sha256 e.content)) hash = true

variable (P) in
/-- The name of every entry the installer unpacks stands in the signed text, and a lookup of the
name finds the same bytes. -/
def Listed (zip : ZipFile) : Prop :=
  ∃ mf, zip.getEntry mfPath = some mf ∧ ∀ e ∈ zip.entries, Signable e →
    e.name ∈ (parseManifest (P.decode mf.content)).files.map Prod.fst ∧
      ∀ e', zip.getEntry e.name = some e' → e'.content = e.content

/-- **A verified archive is covered by its signature exactly when the signed text lists every
entry the installer unpacks and no entry hides behind another of its name.** -/
theorem covered_iff (hsha : Function.Injective P.sha256) {zip : ZipFile} {official : JString}
    {trusted : List JString}
    (h : (verify P (.ok zip) official trusted).cryptoStatus = .verified) :
    Covered P zip ↔ Listed P zip := by
  obtain ⟨mf, -, -, -, -, hmf, -, -, -, -, -, hfiles⟩ := verify_verified h
  rw [checkFiles_eq_none] at hfiles
  constructor
  · rintro ⟨mf', hmf', hcov⟩
    obtain rfl : mf = mf' := Option.some.inj (hmf.symm.trans hmf')
    refine ⟨mf, hmf, fun e he hs => ?_⟩
    obtain ⟨hash, hmem, heq⟩ := hcov e he hs
    refine ⟨List.mem_map_of_mem hmem, fun e' he' => ?_⟩
    obtain ⟨e'', he'', heq''⟩ := hfiles _ hmem
    obtain rfl : e' = e'' := Option.some.inj (he'.symm.trans he'')
    exact hsha (hexString_eq_of_equalsIgnoreCase heq'' heq)
  · rintro ⟨mf', hmf', hlist⟩
    obtain rfl : mf = mf' := Option.some.inj (hmf.symm.trans hmf')
    refine ⟨mf, hmf, fun e he hs => ?_⟩
    obtain ⟨hmem, hsame⟩ := hlist e he hs
    obtain ⟨f, hf, hname⟩ := List.mem_map.1 hmem
    obtain ⟨e', he', heq⟩ := hfiles f hf
    rw [hname] at he'
    refine ⟨f.2, hname ▸ hf, ?_⟩
    rw [← hsame e' he']
    exact heq

/-! ### A signed archive, and the same with a file added -/

/-- The signed text of the sample archive, as `AvMSigner` writes it. -/
def sampleMf : List UInt8 := ascii
  ("Manifest-Version: 1.0\nSigner: dev\nCreated: 1722556800000\n\nName: module.json\n" ++
    "SHA-256: 44136fa355b3678a1146ad16f7e8649e94fb4fc21fe77e8310c060f61caaff8a\n\n")

/-- Its Ed25519 signature. -/
def sampleSig : List UInt8 :=
  [233, 93, 204, 197, 180, 180, 239, 212, 213, 149, 102, 55, 224, 89, 240, 219, 74, 91, 43,
    133, 123, 66, 7, 211, 30, 43, 87, 129, 36, 60, 249, 96, 241, 224, 0, 184, 176, 159, 168,
    60, 28, 154, 175, 180, 171, 141, 215, 128, 111, 78, 6, 9, 68, 174, 79, 193, 2, 110, 105,
    130, 196, 5, 138, 14]

/-- The X.509 form of the key. -/
def sampleCert : List UInt8 :=
  [48, 42, 48, 5, 6, 3, 43, 101, 112, 3, 33, 0, 83, 159, 73, 253, 133, 208, 230, 71, 46, 20,
    12, 161, 27, 6, 186, 145, 208, 32, 108, 193, 192, 232, 71, 234, 200, 26, 87, 7, 179, 182,
    105, 158]

/-- The key in base64. -/
def sampleCertB64 : String := "MCowBQYDK2VwAyEAU59J/YXQ5kcuFAyhGwa6kdAgbMHA6EfqyBpXB7O2aZ4="

/-- The Java platform on the texts of the sample archive. -/
def samplePlatform : Platform Unit where
  decode := decodeUtf8
  base64 s := if s = ofString sampleCertB64 then .ok sampleCert
    else .error (ofString "Illegal base64 character")
  publicKey bytes := if bytes = sampleCert then .ok () else .error (ofString "InvalidKeySpec")
  ed25519 _ message sig := .ok (decide (message = sampleMf ∧ sig = sampleSig))
  sha256 := Separated.pinned
    [(ascii "\x7b\x7d",
      [68, 19, 111, 163, 85, 179, 103, 138, 17, 70, 173, 22, 247, 232, 100, 158, 148, 251, 79,
      194, 31, 231, 126, 131, 16, 192, 96, 246, 28, 170, 255, 138])] 32 0

/-- A file of the sample archive. -/
def sampleEntry (name : String) (content : List UInt8) : ZipEntry :=
  ⟨ofString name, content, content.length, content.length⟩

theorem content_sampleEntry (name : String) (content : List UInt8) :
    (sampleEntry name content).content = content := rfl

/-- An archive that `AvMSigner` has signed. -/
def sampleEntries : List ZipEntry :=
  [sampleEntry "module.json" (ascii "\x7b\x7d"), sampleEntry "META-INF/ASTRAVEIL.MF" sampleMf,
    sampleEntry "META-INF/ASTRAVEIL.SIG" sampleSig,
    sampleEntry "META-INF/ASTRAVEIL.CERT" (ascii sampleCertB64)]

/-- A native library added after signing. -/
def addedEntry : ZipEntry := sampleEntry "lib/payload.so" [0x7F, 0x45, 0x4C, 0x46]

theorem samplePlatform_injective : Function.Injective samplePlatform.sha256 :=
  Separated.pinned_injective 0 (by decide) (by decide)

theorem files_sample :
    (parseManifest (samplePlatform.decode
      (sampleEntry "META-INF/ASTRAVEIL.MF" sampleMf).content)).files =
      [(ofString "module.json",
        ofString "44136fa355b3678a1146ad16f7e8649e94fb4fc21fe77e8310c060f61caaff8a")] := by
  decide +kernel

/-- Whatever else is in the archive, the signature and the one file it lists are fine. -/
theorem verified_of_entries {zip : ZipFile}
    (hmf : zip.getEntry mfPath = some (sampleEntry "META-INF/ASTRAVEIL.MF" sampleMf))
    (hsig : zip.getEntry sigPath = some (sampleEntry "META-INF/ASTRAVEIL.SIG" sampleSig))
    (hcert : zip.getEntry certPath =
      some (sampleEntry "META-INF/ASTRAVEIL.CERT" (ascii sampleCertB64)))
    (hjson : zip.getEntry (ofString "module.json") =
      some (sampleEntry "module.json" (ascii "\x7b\x7d"))) :
    (verify samplePlatform (.ok zip) [] []).cryptoStatus = .verified := by
  have hbase64 : samplePlatform.base64 (trim (samplePlatform.decode
      (sampleEntry "META-INF/ASTRAVEIL.CERT" (ascii sampleCertB64)).content)) = .ok sampleCert := by
    decide +kernel
  have hkey : samplePlatform.publicKey sampleCert = .ok () := by simp [samplePlatform]
  have hsigned : samplePlatform.ed25519 () (sampleEntry "META-INF/ASTRAVEIL.MF" sampleMf).content
      (sampleEntry "META-INF/ASTRAVEIL.SIG" sampleSig).content = .ok true := by
    have hboth : (sampleEntry "META-INF/ASTRAVEIL.MF" sampleMf).content = sampleMf ∧
        (sampleEntry "META-INF/ASTRAVEIL.SIG" sampleSig).content = sampleSig :=
      ⟨content_sampleEntry _ _, content_sampleEntry _ _⟩
    exact congrArg Except.ok (decide_eq_true hboth)
  refine verified_of_checks hmf hsig hcert hbase64 hkey hsigned ?_
  rw [files_sample, checkFiles_eq_none, List.forall_mem_singleton]
  refine ⟨_, hjson, ?_⟩
  decide +kernel

theorem verified_sample :
    (verify samplePlatform (.ok (.ofEntries sampleEntries)) [] []).cryptoStatus = .verified :=
  verified_of_entries rfl rfl rfl rfl

theorem verified_added : (verify samplePlatform
    (.ok (.ofEntries (sampleEntries ++ [addedEntry]))) [] []).cryptoStatus = .verified :=
  verified_of_entries rfl rfl rfl rfl

/-- The archive as it was signed is covered. -/
theorem covered_sample :
    (verify samplePlatform (.ok (.ofEntries sampleEntries)) [] []).cryptoStatus = .verified ∧
      Covered samplePlatform (.ofEntries sampleEntries) := by
  refine ⟨verified_sample, (covered_iff samplePlatform_injective verified_sample).2 ?_⟩
  refine ⟨sampleEntry "META-INF/ASTRAVEIL.MF" sampleMf, rfl, ?_⟩
  rw [files_sample, List.map_singleton]
  intro e he hs
  -- the signature entries are not to be signed
  have hplain : ∀ e ∈ sampleEntries,
      startsWith e.name (ofString "META-INF/ASTRAVEIL.") = false →
      e = sampleEntries.head (by decide) := by
    decide +kernel
  obtain rfl := hplain e he hs.2
  refine ⟨by decide +kernel, fun e' he' => ?_⟩
  obtain rfl : sampleEntries.head (by decide) = e' :=
    Option.some.inj (Eq.trans rfl he')
  rfl

/-- The archive with the library added verifies and is not covered. -/
theorem uncovered_added :
    (verify samplePlatform (.ok (.ofEntries (sampleEntries ++ [addedEntry]))) [] []).cryptoStatus =
        .verified ∧
      ¬ Covered samplePlatform (.ofEntries (sampleEntries ++ [addedEntry])) := by
  refine ⟨verified_added, ?_⟩
  rintro ⟨mf, hmf, hcov⟩
  obtain rfl : sampleEntry "META-INF/ASTRAVEIL.MF" sampleMf = mf :=
    Option.some.inj (Eq.trans rfl hmf)
  obtain ⟨hash, hmem, -⟩ := hcov addedEntry (List.mem_append_right _ List.mem_cons_self)
    ⟨by decide +kernel, by decide +kernel⟩
  have hname := List.mem_map_of_mem (f := Prod.fst) hmem
  rw [files_sample, List.map_singleton] at hname
  have hother : addedEntry.name ∉ [ofString "module.json"] := by decide
  exact hother hname

end ModuleSignatureVerifier

end AstraVeil.Modules
