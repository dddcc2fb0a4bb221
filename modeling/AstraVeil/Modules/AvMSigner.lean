import AstraVeil.Lib.Base64
import AstraVeil.Modules.SignedManifest
import AstraVeil.Modules.TrustAcrossRestarts

/-!
# The signing tool and the trust gate

`tools/avm-sign/AvMSigner.kt` signs a list of all files and writes three entries below `META-INF`.
`ModuleSignatureVerifier` reads these; the strict trust gate of `install` asks the older
`ModuleManager.verifySignature`, which looks for a root entry `ASTRAVEIL.SIG` with a signature of
`module.json` alone.

* `AvMSigner.sign`: the entries of the signed package;
* `Official`: the package passes the gate and is recorded as official;
* `RootSigned`, `ReadsBack`: the package had the older signature before, and the list of files is
  read as it was written;
* `readsBack_of_plain`: it is, for names without line breaks and white space around them;
* `official_iff`: a signed package is official exactly under these two conditions.
-/

namespace AstraVeil.Modules

open Utf16 KotlinString ModuleSignatureVerifier

variable {Key : Type}

namespace AvMSigner

/-- An Ed25519 key pair that the platform accepts, with the round trips of Base64 and of signing. -/
structure KeyPair (P : Platform Key) where
  /-- `public.encoded`. -/
  pubBytes : List UInt8
  key : Key
  /-- `Signature.sign`. -/
  sign : List UInt8 → List UInt8
  base64_text : P.base64 (Base64.text pubBytes) = .ok pubBytes
  decode_text : P.decode (utf8 (Base64.text pubBytes)) = Base64.text pubBytes
  publicKey_pubBytes : P.publicKey pubBytes = .ok key
  ed25519_sign : ∀ message, P.ed25519 key message (sign message) = .ok true

/-- The files that `sign` reads. -/
def isSigned (e : ZipEntry) : Bool :=
  !e.isDirectory && !startsWith e.name (ofString "META-INF/ASTRAVEIL.")

/-- The map `entries` of `sign`. -/
def entriesOf (zip : ZipFile) : List (JString × List UInt8) :=
  (zip.entries.filter isSigned).foldl (fun entries e => putEntry e.name e.content entries) []

/-- The bytes of `META-INF/ASTRAVEIL.MF`. -/
def mfBytes (P : Platform Key) (zip : ZipFile) (signer : JString) (now : ℤ) : List UInt8 :=
  utf8 (buildManifest P signer now (entriesOf zip))

/-- `sign`: names and contents of the entries that are written. -/
def sign {P : Platform Key} (pair : KeyPair P) (zip : ZipFile) (signer : JString) (now : ℤ) :
    List (JString × List UInt8) :=
  entriesOf zip ++
    [(mfPath, mfBytes P zip signer now), (sigPath, pair.sign (mfBytes P zip signer now)),
      (certPath, utf8 (Base64.text pair.pubBytes))]

end AvMSigner

open AvMSigner

/-- The archive that `ZipOutputStream` has written has these entries. -/
def Written (zip : ZipFile) (files : List (JString × List UInt8)) : Prop :=
  zip.entries.map (fun e => (e.name, e.content)) = files

/-- The package passes the strict gate of `install`, and the level of its record is `OFFICIAL`. -/
def Official (D : Device Key) (r : InstallRequest) (manifest : ModuleManifest) : Prop :=
  (TrustGate.evaluate r.sourceHash true manifest.api (verifySignature D r.archive)).isInstallable
      true = true ∧
    resolveTrustLevel (verifySignature D r.archive)
      (verify D.platform r.archive D.pinnedPublicKeyB64 r.trustedKeys).trustLevel = .official

/-- The package to be signed has a root entry with a signature of its `module.json`. -/
def RootSigned {P : Platform Key} (pair : KeyPair P) (src : ZipFile) (json : List UInt8) : Prop :=
  ∃ sig, (ofString "ASTRAVEIL.SIG", sig) ∈ entriesOf src ∧
    P.ed25519 pair.key json sig = .ok true

/-- Every file that the verifier reads from the list is in the package, with this hash. -/
def ReadsBack {P : Platform Key} (pair : KeyPair P) (src : ZipFile) (signer : JString) (now : ℤ) :
    Prop :=
  ∀ f ∈ (parseManifest (P.decode (mfBytes P src signer now))).files,
    ∃ content, (f.1, content) ∈ sign pair src signer now ∧
      equalsIgnoreCase (hexString (P.sha256 content)) f.2 = true

/-! ### The entries -/

theorem nodup_putEntry (name : JString) (content : List UInt8) {l : List (JString × List UInt8)}
    (h : (l.map Prod.fst).Nodup) : ((putEntry name content l).map Prod.fst).Nodup := by
  induction l with
  | nil => exact List.nodup_singleton _
  | cons e rest ih =>
    rw [List.map_cons, List.nodup_cons] at h
    unfold putEntry
    split_ifs with he
    · rw [List.map_cons, List.nodup_cons]
      exact ⟨he ▸ h.1, h.2⟩
    · rw [List.map_cons, List.nodup_cons]
      refine ⟨fun hmem => ?_, ih h.2⟩
      obtain ⟨f, hf, hname⟩ := List.mem_map.1 hmem
      rcases mem_putEntry hf with rfl | hf
      · exact he hname.symm
      · exact h.1 (hname ▸ List.mem_map_of_mem hf)

theorem foldl_putEntry (es : List ZipEntry) {l : List (JString × List UInt8)}
    (hl : (l.map Prod.fst).Nodup) :
    ((es.foldl (fun entries e => putEntry e.name e.content entries) l).map Prod.fst).Nodup ∧
      ∀ f ∈ es.foldl (fun entries e => putEntry e.name e.content entries) l,
        f ∈ l ∨ ∃ e ∈ es, f = (e.name, e.content) := by
  induction es generalizing l with
  | nil => exact ⟨hl, fun f hf => .inl hf⟩
  | cons e es ih =>
    obtain ⟨hnodup, hmem⟩ := ih (nodup_putEntry e.name e.content hl)
    refine ⟨hnodup, fun f hf => ?_⟩
    rcases hmem f hf with hf | ⟨e', he', hf⟩
    · rcases mem_putEntry hf with hf | hf
      · exact .inr ⟨e, List.mem_cons_self, hf⟩
      · exact .inl hf
    · exact .inr ⟨e', List.mem_cons_of_mem _ he', hf⟩

theorem nodup_entriesOf (src : ZipFile) : ((entriesOf src).map Prod.fst).Nodup :=
  (foldl_putEntry _ (l := []) List.nodup_nil).1

/-- Only files outside the signature block are read. -/
theorem name_entriesOf {src : ZipFile} {f : JString × List UInt8} (h : f ∈ entriesOf src) :
    f.1.getLast? ≠ some 0x2F ∧ startsWith f.1 (ofString "META-INF/ASTRAVEIL.") = false := by
  rcases (foldl_putEntry _ (l := []) List.nodup_nil).2 f h with hf | ⟨e, he, rfl⟩
  · cases hf
  · have hsigned := (List.mem_filter.1 he).2
    unfold isSigned at hsigned
    rw [Bool.and_eq_true, Bool.not_eq_true', Bool.not_eq_true'] at hsigned
    refine ⟨fun hlast => ?_, hsigned.2⟩
    have hdir := hsigned.1
    unfold ZipEntry.isDirectory at hdir
    rw [hlast] at hdir
    cases hdir

section Signed

variable {P : Platform Key} (pair : KeyPair P) (src : ZipFile) (signer : JString) (now : ℤ)

theorem nodup_sign : ((sign pair src signer now).map Prod.fst).Nodup := by
  have hpaths : [mfPath, sigPath, certPath].Nodup := by decide
  unfold sign
  rw [List.map_append, List.nodup_append]
  refine ⟨nodup_entriesOf src, hpaths, ?_⟩
  intro n hn n' hn' heq
  obtain ⟨f, hf, rfl⟩ := List.mem_map.1 hn
  have hout := (name_entriesOf hf).2
  have hin : ∀ n ∈ [mfPath, sigPath, certPath],
      startsWith n (ofString "META-INF/ASTRAVEIL.") = true := by
    decide
  rw [heq, hin n' hn'] at hout
  cases hout

theorem name_sign {f : JString × List UInt8} (h : f ∈ sign pair src signer now) :
    f.1.getLast? ≠ some 0x2F := by
  rcases List.mem_append.1 h with h | h
  · exact (name_entriesOf h).1
  · have hlast : ∀ n ∈ [mfPath, sigPath, certPath], n.getLast? ≠ some 0x2F := by decide
    exact hlast f.1 (List.mem_map_of_mem (f := Prod.fst) h)

variable {pair src signer now} {zip : ZipFile}

/-- A lookup in the written archive finds the file of the name. -/
theorem mem_sign_of_getEntry (hzip : Written zip (sign pair src signer now)) {n : JString}
    {e : ZipEntry} (h : zip.getEntry n = some e) :
    (n, e.content) ∈ sign pair src signer now := by
  obtain ⟨hmem, hname⟩ := zip.getEntry_some n e h
  have hsign : (e.name, e.content) ∈ sign pair src signer now :=
    hzip ▸ List.mem_map_of_mem (f := fun e => (e.name, e.content)) hmem
  rcases hname with rfl | ⟨hdir, -⟩
  · exact hsign
  · refine absurd ?_ (name_sign pair src signer now hsign)
    show e.name.getLast? = some 0x2F
    rw [hdir, List.getLast?_append]
    rfl

theorem getEntry_of_mem_sign (hzip : Written zip (sign pair src signer now)) {n : JString}
    {content : List UInt8} (h : (n, content) ∈ sign pair src signer now) :
    ∃ e, zip.getEntry n = some e ∧ e.content = content := by
  cases hentry : zip.getEntry n with
  | none =>
    rw [← hzip] at h
    obtain ⟨e, he, heq⟩ := List.mem_map.1 h
    exact absurd (Prod.mk.inj heq).1 (zip.getEntry_none n hentry e he).1
  | some e =>
    refine ⟨e, rfl, ?_⟩
    have h' := mem_sign_of_getEntry hzip hentry
    have heq := List.inj_on_of_nodup_map (nodup_sign pair src signer now) h' h rfl
    exact (Prod.mk.inj heq).2

theorem mem_sign_of_mem {f : JString × List UInt8} (h : f ∈ entriesOf src) :
    f ∈ sign pair src signer now :=
  List.mem_append_left _ h

/-- A file outside the signature block was in the package before. -/
theorem mem_entriesOf_of_sign {f : JString × List UInt8} (h : f ∈ sign pair src signer now)
    (hout : startsWith f.1 (ofString "META-INF/ASTRAVEIL.") = false) : f ∈ entriesOf src := by
  rcases List.mem_append.1 h with h | h
  · exact h
  · have hin : ∀ n ∈ [mfPath, sigPath, certPath],
        startsWith n (ofString "META-INF/ASTRAVEIL.") = true := by
      decide
    have hf := hin f.1 (List.mem_map_of_mem (f := Prod.fst) h)
    rw [hout] at hf
    cases hf

/-! ### The two verifiers -/

/-- The structured verifier finds the three entries and the right key. -/
theorem verify_written (hzip : Written zip (sign pair src signer now)) (trusted : List JString) :
    (verify P (.ok zip) (Base64.text pair.pubBytes) trusted).trustLevel =
      if (checkFiles P zip (parseManifest (P.decode (mfBytes P src signer now))).files).isSome
      then .invalid else .official := by
  obtain ⟨mf, hmf, hmf'⟩ := getEntry_of_mem_sign hzip (n := mfPath)
    (List.mem_append_right _ List.mem_cons_self)
  obtain ⟨sig, hsig, hsig'⟩ := getEntry_of_mem_sign hzip (n := sigPath)
    (List.mem_append_right _ (List.mem_cons_of_mem _ List.mem_cons_self))
  obtain ⟨cert, hcert, hcert'⟩ := getEntry_of_mem_sign hzip (n := certPath)
    (List.mem_append_right _ (List.mem_cons_of_mem _ (List.mem_cons_of_mem _ List.mem_cons_self)))
  unfold verify
  simp only [hmf, hsig, hcert, hmf', hsig', hcert', verifySigned, pair.decode_text,
    Base64.trim_text, pair.base64_text, pair.publicKey_pubBytes, pair.ed25519_sign, Except.bind,
    bind, trustLevelOf, if_true, if_false, Bool.true_eq_false]
  cases checkFiles P zip (parseManifest (P.decode (mfBytes P src signer now))).files with
  | none => rfl
  | some reason => rfl

theorem checkFiles_written (hzip : Written zip (sign pair src signer now)) :
    checkFiles P zip (parseManifest (P.decode (mfBytes P src signer now))).files = none ↔
      ReadsBack pair src signer now := by
  rw [checkFiles_eq_none]
  constructor
  · intro h f hf
    obtain ⟨e, he, hhash⟩ := h f hf
    exact ⟨e.content, mem_sign_of_getEntry hzip he, hhash⟩
  · intro h f hf
    obtain ⟨content, hmem, hhash⟩ := h f hf
    obtain ⟨e, he, rfl⟩ := getEntry_of_mem_sign hzip hmem
    exact ⟨e, he, hhash⟩

end Signed

/-! ### The gate -/

theorem isInstallable_iff {hash : Option JString} {api : ℤ} {status : SignatureStatus} :
    (TrustGate.evaluate hash true api status).isInstallable true = true ↔
      hash.isSome = true ∧ api ∈ ([1, 2, 3] : List ℤ) ∧ status = .verified := by
  unfold TrustReport.isInstallable TrustGate.evaluate
  cases status <;> simp

/-- The older verifier, with the pinned key. -/
theorem verifySignature_iff {D : Device Key} {pair : KeyPair D.platform}
    (hpin : D.pinnedPublicKeyB64 = Base64.text pair.pubBytes) {zip : ZipFile}
    {json : ZipEntry} (hjson : zip.getEntry (ofString "module.json") = some json) :
    verifySignature D (.ok zip) = .verified ↔
      ∃ sig, zip.getEntry (ofString "ASTRAVEIL.SIG") = some sig ∧
        D.platform.ed25519 pair.key json.content sig.content = .ok true := by
  have hsecurity : ∀ sig, securityVerifySignature D json.content sig = true ↔
      D.platform.ed25519 pair.key json.content sig = .ok true := fun sig => by
    unfold securityVerifySignature
    simp only [hpin, pair.base64_text, pair.publicKey_pubBytes, Except.bind, bind]
    cases D.platform.ed25519 pair.key json.content sig with
    | error m => simp
    | ok accepted => simp
  unfold verifySignature
  cases hsig : zip.getEntry (ofString "ASTRAVEIL.SIG") with
  | none => simp [hsig]
  | some sig =>
    simp only [hsig, hjson, Option.some.injEq, exists_eq_left', ← hsecurity]
    cases securityVerifySignature D json.content sig.content <;> simp

theorem api_of_validateManifest {D : Device Key} {raw : JString} {manifest : ModuleManifest}
    (h : validateManifest D raw = .ok manifest) : manifest.api ∈ ([1, 2, 3] : List ℤ) := by
  unfold validateManifest at h
  split at h
  · cases h
  · next m hm =>
    simp only at h
    split_ifs at h with h₁ h₂ h₃ h₄ h₅ h₆
    rw [← Except.ok.inj h]
    unfold moduleApiLevel at h₄
    have hone : m.api = 1 := by omega
    rw [hone]
    exact List.mem_cons_self

theorem resolveTrustLevel_official_iff {legacy : SignatureStatus} {structured : TrustLevel} :
    resolveTrustLevel legacy structured = .official ↔
      legacy = .verified ∧ structured = .official := by
  cases legacy <;> cases structured <;> decide

/-! ### The list of files -/

/-- The signer and the names stand on one line each, without white space around a name. -/
structure Plain (src : ZipFile) (signer : JString) : Prop where
  signer : SingleLine signer
  names : ∀ f ∈ entriesOf src, SingleLine f.1 ∧ trim f.1 = f.1

/-- With plain names, the list is read as it was written. -/
theorem readsBack_of_plain {P : Platform Key} {pair : KeyPair P} {src : ZipFile} {signer : JString}
    {now : ℤ} (hplain : Plain src signer)
    (hdecode : P.decode (mfBytes P src signer now) =
      buildManifest P signer now (entriesOf src)) :
    ReadsBack pair src signer now := by
  intro x hx
  rw [hdecode,
    parseManifest_buildManifest hplain.signer now hplain.names (nodup_entriesOf src)] at hx
  obtain ⟨f, hf, rfl⟩ := List.mem_map.1 hx
  refine ⟨f.2, mem_sign_of_mem ((List.perm_insertionSort _ _).mem_iff.1 hf), ?_⟩
  exact beq_self_eq_true _

theorem official_iff {D : Device Key} {pair : KeyPair D.platform}
    (hpin : D.pinnedPublicKeyB64 = Base64.text pair.pubBytes) {src : ZipFile} {json : List UInt8}
    {manifest : ModuleManifest} (hjson : (ofString "module.json", json) ∈ entriesOf src)
    (hmanifest : validateManifest D (D.platform.decode json) = .ok manifest) {signer : JString}
    {now : ℤ} {r : InstallRequest} {zip : ZipFile} (harchive : r.archive = .ok zip)
    (hzip : Written zip (sign pair src signer now)) (hhash : r.sourceHash.isSome = true) :
    Official D r manifest ↔ RootSigned pair src json ∧ ReadsBack pair src signer now := by
  obtain ⟨entry, hentry, rfl⟩ := getEntry_of_mem_sign hzip (mem_sign_of_mem hjson)
  unfold Official
  rw [harchive, isInstallable_iff, resolveTrustLevel_official_iff, verifySignature_iff hpin hentry,
    hpin, verify_written hzip, ← checkFiles_written hzip]
  constructor
  · rintro ⟨⟨-, -, sig, hsig, haccepted⟩, -, hlevel⟩
    -- `sign` writes below META-INF, so the root entry was there before
    have hroot :
        startsWith (ofString "ASTRAVEIL.SIG") (ofString "META-INF/ASTRAVEIL.") = false := by
      decide
    refine ⟨⟨sig.content, mem_entriesOf_of_sign (mem_sign_of_getEntry hzip hsig) hroot,
      haccepted⟩, ?_⟩
    split_ifs at hlevel with hfiles
    rwa [Option.not_isSome_iff_eq_none] at hfiles
  · rintro ⟨⟨sig, hsig, haccepted⟩, hfiles⟩
    obtain ⟨e, he, rfl⟩ := getEntry_of_mem_sign hzip (mem_sign_of_mem hsig)
    refine ⟨⟨hhash, api_of_validateManifest hmanifest, e, he, haccepted⟩, ⟨e, he, haccepted⟩, ?_⟩
    rw [hfiles]
    rfl

/-- **A signed package is official exactly if it had the older signature before and its list of
files is read as it was written.**  With plain names this is the older signature alone. -/
theorem signed_official_iff (D : Device Key) (pair : KeyPair D.platform)
    (hpin : D.pinnedPublicKeyB64 = Base64.text pair.pubBytes) {src : ZipFile} {json : List UInt8}
    {manifest : ModuleManifest} (hjson : (ofString "module.json", json) ∈ entriesOf src)
    (hmanifest : validateManifest D (D.platform.decode json) = .ok manifest) (signer : JString)
    (now : ℤ) {r : InstallRequest} {zip : ZipFile} (harchive : r.archive = .ok zip)
    (hzip : Written zip (sign pair src signer now)) (hhash : r.sourceHash.isSome = true) :
    (Official D r manifest ↔ RootSigned pair src json ∧ ReadsBack pair src signer now) ∧
      (Plain src signer →
        D.platform.decode (mfBytes D.platform src signer now) =
          buildManifest D.platform signer now (entriesOf src) →
        (Official D r manifest ↔ RootSigned pair src json)) := by
  have hiff := official_iff hpin hjson hmanifest harchive hzip hhash
  refine ⟨hiff, fun hplain hdecode => ?_⟩
  rw [hiff]
  exact ⟨fun h => h.1, fun h => ⟨h, readsBack_of_plain hplain hdecode⟩⟩

/-- An official package that passes the other checks is installed at this level. -/
theorem installOutcome_of_official {D : Device Key} {r : InstallRequest} {zip : ZipFile}
    {manifest : ModuleManifest} (h : Official D r manifest) (hadm : Admitted D r zip manifest)
    (installed : JString → Bool) (old : JString → Option FileTree) :
    ∃ report, report.signatureStatus = .verified ∧ installOutcome D r installed old =
      installLocked D r (installed manifest.name) (old manifest.name) zip manifest report
        .official := by
  refine ⟨TrustGate.evaluate r.sourceHash true manifest.api (verifySignature D r.archive),
    (isInstallable_iff.1 h.1).2.2, ?_⟩
  rw [installOutcome_of_admitted hadm installed old, h.2]

/-! ### The sample package, signed with the tool -/

/-- The Ed25519 signatures of the sample key. -/
def sampleSignatures : List (List UInt8 × List UInt8) :=
  [(ascii sampleJson, sampleJsonSig),
    (ascii ("Manifest-Version: 1.0\nSigner: dev\nCreated: 1722556800000\n\nName: module.json\n" ++
      "SHA-256: d9af41e05625bd7744386895f8789bab06cd0d13b70d25190d363f4dcd0a9e45\n\n"),
      [106, 164, 32, 172, 96, 22, 145, 60, 83, 61, 229, 47, 154, 108, 161, 174, 54, 105, 196, 174,
        221, 122, 17, 208, 249, 166, 35, 124, 158, 28, 142, 90, 184, 216, 248, 242, 150, 82, 227,
        6, 140, 2, 157, 223, 117, 31, 252, 171, 239, 214, 88, 169, 158, 76, 91, 140, 255, 209, 72,
        237, 53, 100, 198, 4]),
    (ascii ("Manifest-Version: 1.0\nSigner: dev\nCreated: 1722556800000\n\nName: ASTRAVEIL.SIG\n" ++
      "SHA-256: 12f06996e3474669e9f51191a25eeccbf10b67d90be18a0c4a41333f6d8b74c7\n\n" ++
      "Name: module.json\n" ++
      "SHA-256: d9af41e05625bd7744386895f8789bab06cd0d13b70d25190d363f4dcd0a9e45\n\n"),
      [221, 181, 33, 6, 47, 213, 126, 220, 212, 17, 179, 6, 99, 62, 10, 44, 33, 247, 9, 76, 179, 60,
        199, 94, 232, 59, 227, 128, 176, 90, 116, 59, 28, 202, 92, 107, 18, 241, 187, 137, 209,
        26, 176, 186, 246, 77, 138, 64, 14, 32, 61, 195, 220, 234, 76, 155, 239, 50, 152, 26, 28,
        88, 64, 9])]

/-- Signing with the sample key. -/
def sampleSign (message : List UInt8) : List UInt8 :=
  (sampleSignatures.lookup message).getD (List.replicate 64 0)

/-- The sample device, on which the sample key verifies all of these. -/
def signingDevice : Device Unit :=
  { sampleDevice with
    platform :=
      { ModuleSignatureVerifier.samplePlatform with
        ed25519 := fun _ message sig => .ok (decide (sig = sampleSign message))
        sha256 := Separated.pinned
          [(ascii sampleJson,
            [217, 175, 65, 224, 86, 37, 189, 119, 68, 56, 104, 149, 248, 120, 155, 171, 6, 205, 13,
              19, 183, 13, 37, 25, 13, 54, 63, 77, 205, 10, 158, 69]),
            (sampleJsonSig,
              [18, 240, 105, 150, 227, 71, 70, 105, 233, 245, 17, 145, 162, 94, 236, 203, 241, 11,
                103, 217, 11, 225, 138, 12, 74, 65, 51, 63, 109, 139, 116, 199])] 32 0 } }

/-- The sample key pair. -/
def samplePair : KeyPair signingDevice.platform where
  pubBytes := ModuleSignatureVerifier.sampleCert
  key := ()
  sign := sampleSign
  base64_text := by decide +kernel
  decode_text := by decide +kernel
  publicKey_pubBytes := rfl
  ed25519_sign message := by
    show Except.ok (decide (sampleSign message = sampleSign message)) = _
    rw [decide_eq_true rfl]

/-- The package that is written, deflated or not. -/
def packageOf (files : List (JString × List UInt8)) : ZipFile :=
  .ofEntries (files.map fun f => ⟨f.1, f.2, f.2.length, f.2.length⟩)

theorem written_packageOf (files : List (JString × List UInt8)) :
    Written (packageOf files) files := by
  show (files.map fun f => (⟨f.1, f.2, f.2.length, f.2.length⟩ : ZipEntry)).map
    (fun e => (e.name, e.content)) = files
  rw [List.map_map]
  exact List.map_id _

/-- The files that the sample key signs at the sample time. -/
def sampleSigned (src : ZipFile) : List (JString × List UInt8) :=
  sign samplePair src (ofString "dev") 1722556800000

/-- Installing what the tool has written. -/
def signedRequest (src : ZipFile) (hash : String) : InstallRequest :=
  { sampleRequest none with
    fileName := ofString "s.signed.avm"
    archive := .ok (packageOf (sampleSigned src))
    sourceHash := some (ofString hash) }

/-- The sample package without a signature. -/
def freshPackage : ZipFile :=
  .ofEntries [ModuleSignatureVerifier.sampleEntry "module.json" (ascii sampleJson)]

/-- The sample package with its older signature. -/
def olderPackage : ZipFile :=
  .ofEntries [ModuleSignatureVerifier.sampleEntry "module.json" (ascii sampleJson),
    ModuleSignatureVerifier.sampleEntry "ASTRAVEIL.SIG" sampleJsonSig]

theorem entriesOf_olderPackage : entriesOf olderPackage =
    [(ofString "module.json", ascii sampleJson), (ofString "ASTRAVEIL.SIG", sampleJsonSig)] := by
  rfl

theorem validateManifest_sampleJson : validateManifest signingDevice
    (signingDevice.platform.decode (ascii sampleJson)) = .ok sampleManifest := by
  rfl

theorem official_olderPackage : Official signingDevice
    (signedRequest olderPackage "18c48818324448d23593735960fd3760ea16c44e8a2fe23b3f80265580ee6a11")
    sampleManifest := by
  have hpin : signingDevice.pinnedPublicKeyB64 = Base64.text samplePair.pubBytes := by
    decide +kernel
  have hjson : (ofString "module.json", ascii sampleJson) ∈ entriesOf olderPackage := by
    rw [entriesOf_olderPackage]
    exact List.mem_cons_self
  have hsig : (ofString "ASTRAVEIL.SIG", sampleJsonSig) ∈ entriesOf olderPackage := by
    rw [entriesOf_olderPackage]
    exact List.mem_cons_of_mem _ List.mem_cons_self
  have hverify : signingDevice.platform.ed25519 samplePair.key (ascii sampleJson) sampleJsonSig =
      .ok true := by
    rfl
  have hnames : ∀ f ∈ entriesOf olderPackage, SingleLine f.1 ∧ trim f.1 = f.1 := by
    rw [entriesOf_olderPackage]
    simp only [List.forall_mem_cons]
    decide
  have hdecode : signingDevice.platform.decode
      (mfBytes signingDevice.platform olderPackage (ofString "dev") 1722556800000) =
        buildManifest signingDevice.platform (ofString "dev") 1722556800000
          (entriesOf olderPackage) := by
    decide +kernel
  refine ((signed_official_iff signingDevice samplePair hpin hjson validateManifest_sampleJson
    (ofString "dev") 1722556800000 rfl (written_packageOf _) rfl).2 ⟨?_, hnames⟩ hdecode).2
    ⟨sampleJsonSig, hsig, hverify⟩
  decide

/-- The gate finds no signature on a package that the tool has just signed. -/
theorem not_official_freshPackage :
    (ofString "module.json", ascii sampleJson) ∈ entriesOf freshPackage ∧
      validateManifest signingDevice (signingDevice.platform.decode (ascii sampleJson)) =
        .ok sampleManifest ∧
      ¬ Official signingDevice (signedRequest freshPackage
        "ae38b4d903da7e43064e688e7548c95516f267b5635294ddc86f0cc3f30b20d7") sampleManifest := by
  have hjson : entriesOf freshPackage = [(ofString "module.json", ascii sampleJson)] := by rfl
  refine ⟨?_, validateManifest_sampleJson, fun h => ?_⟩
  · rw [hjson]
    exact List.mem_cons_self
  have hunsigned : verifySignature signingDevice
      (.ok (packageOf (sampleSigned freshPackage))) = .unsigned := by
    rfl
  have hverified := (isInstallable_iff.1 h.1).2.2
  cases hunsigned.symm.trans hverified

end AstraVeil.Modules
