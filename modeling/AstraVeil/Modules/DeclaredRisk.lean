import AstraVeil.Lib.KotlinNumbers
import AstraVeil.Modules.ManifestPreview

/-!
# Declared and undeclared risk

The preview of a v3 manifest decodes the `riskLevel` of a permission with the default 0; the
preview of a Phase 0 manifest knows no risk.  `RiskAnalyzer` takes the highest risk of a preview.

* `RiskAnalyzer.analyze_highestRisk`: the highest risk is the maximum of the shown ones;
* `risks_v3`, `risks_phase0`: the risks that the two formats show;
* `riskAsDeclared_iff`: when the shown risks, and the rated one, are those of the manifest.
-/

namespace AstraVeil.Modules

open Utf16 KotlinString LenientJson AvmManifestParser

/-- `RiskSource`. -/
inductive RiskSource
  | manifest
  | undeclared
  | none
  deriving DecidableEq

/-- `RiskLevel`. -/
inductive RiskLevel
  | low
  | medium
  | high
  | critical
  | unknown
  deriving DecidableEq

namespace RiskAnalyzer

/-- `Assessment`. -/
structure Assessment where
  permissionCount : ℕ
  highestRisk : Option ℤ
  riskSource : RiskSource
  overallRiskLevel : RiskLevel
  deriving DecidableEq

/-- `levelFor`. -/
def levelFor : Option ℤ → RiskLevel
  | none => .unknown
  | some risk =>
      if risk ≤ 30 then .low
      else if risk ≤ 70 then .medium
      else if risk ≤ 89 then .high
      else .critical

/-- `declaredRisks`. -/
def declaredRisks (permissions : List PermissionDeclaration) : List ℤ :=
  permissions.filterMap (·.risk)

/-- `analyze`. -/
def analyze : Option ModuleManifestPreview → Assessment
  | none => ⟨0, none, .none, .unknown⟩
  | some preview =>
      let permissions := preview.permissions
      if permissions.isEmpty then ⟨0, none, .none, .unknown⟩
      else
        match (declaredRisks permissions).max? with
        | none => ⟨permissions.length, none, .undeclared, .unknown⟩
        | some maxRisk => ⟨permissions.length, some maxRisk, .manifest, levelFor (some maxRisk)⟩

theorem analyze_highestRisk (preview : ModuleManifestPreview) :
    (analyze (some preview)).highestRisk = (declaredRisks preview.permissions).max? := by
  simp only [analyze]
  split_ifs with hempty
  · rw [List.isEmpty_iff.1 hempty]
    rfl
  · cases (declaredRisks preview.permissions).max? <;> rfl

/-- The source is the manifest exactly where there is a highest risk. -/
theorem riskSource_eq_manifest_iff (preview : Option ModuleManifestPreview) :
    (analyze preview).riskSource = .manifest ↔ (analyze preview).highestRisk.isSome = true := by
  cases preview with
  | none => simp [analyze]
  | some preview =>
    simp only [analyze]
    split_ifs with hempty
    · simp
    · cases (declaredRisks preview.permissions).max? <;> simp

/-- The overall level is that of the highest risk. -/
theorem overallRiskLevel_eq (preview : Option ModuleManifestPreview) :
    (analyze preview).overallRiskLevel = levelFor (analyze preview).highestRisk := by
  cases preview with
  | none => rfl
  | some preview =>
    simp only [analyze]
    split_ifs with hempty
    · rfl
    · cases (declaredRisks preview.permissions).max? <;> rfl

/-- The highest risk is one of the shown risks. -/
theorem mem_risks_of_highestRisk {preview : ModuleManifestPreview} {risk : ℤ}
    (h : (analyze (some preview)).highestRisk = some risk) :
    some risk ∈ preview.permissions.map PermissionDeclaration.risk := by
  rw [analyze_highestRisk] at h
  obtain ⟨p, hp, hrisk⟩ := List.mem_filterMap.1 (List.max?_mem h)
  exact List.mem_map.2 ⟨p, hp, hrisk⟩

end RiskAnalyzer

variable (K : Kotlinx)

/-- The entries of the list `permissions`. -/
def declaredEntries (fields : List (JString × JsonTree)) : List JsonTree :=
  match last (ofString "permissions") fields with
  | some (.array items) => items
  | _ => []

/-- The `riskLevel` that an entry declares. -/
def declaredRisk (entry : JsonTree) : Option ℤ :=
  (fieldsOf entry).bind fun fields => (last (ofString "riskLevel") fields).bind K.int

/-- The shown risks are the declared ones, and the highest risk is one that the manifest states. -/
def RiskAsDeclared (fields : List (JString × JsonTree)) (preview : ModuleManifestPreview) : Prop :=
  preview.permissions.map PermissionDeclaration.risk =
      (declaredEntries fields).map (declaredRisk K) ∧
    ((RiskAnalyzer.analyze (some preview)).riskSource = .manifest →
      ∃ entry ∈ declaredEntries fields, ∃ risk, declaredRisk K entry = some risk ∧
        (RiskAnalyzer.analyze (some preview)).highestRisk = some risk)

/-- The text is no v3 manifest, or all its entries declare a risk. -/
def DeclaresRisks (fields : List (JString × JsonTree)) : Prop :=
  ReadsAsV3 K fields → ∀ entry ∈ declaredEntries fields, (declaredRisk K entry).isSome = true

variable {K} {t : JsonTree} {fields : List (JString × JsonTree)}

/-! ### The two formats -/

theorem riskLevel_v3Permission {p : V3Permission} (h : v3Permission K t = some p) :
    p.riskLevel = (declaredRisk K t).getD 0 := by
  unfold v3Permission at h
  obtain ⟨fs, hfs, h⟩ := Option.bind_eq_some_iff.1 h
  obtain ⟨capability, hcap, h⟩ := Option.bind_eq_some_iff.1 h
  obtain ⟨reason, hreason, h⟩ := Option.bind_eq_some_iff.1 h
  obtain ⟨risk, hrisk, h⟩ := Option.bind_eq_some_iff.1 h
  obtain rfl := Option.some.inj h
  rw [declaredRisk, hfs, Option.bind_some, ← (field_eq_some_iff.1 hrisk).2]

/-- A v3 manifest shows 0 where an entry declares no risk. -/
theorem risks_v3 {m : V3Manifest} (h : v3Manifest K (.object fields) = some m) :
    m.toPreview.permissions.map PermissionDeclaration.risk =
      (declaredEntries fields).map fun entry => some ((declaredRisk K entry).getD 0) := by
  unfold v3Manifest at h
  obtain ⟨fs, hfs, h⟩ := Option.bind_eq_some_iff.1 h
  obtain rfl := Option.some.inj hfs
  obtain ⟨id, -, h⟩ := Option.bind_eq_some_iff.1 h
  obtain ⟨name, -, h⟩ := Option.bind_eq_some_iff.1 h
  obtain ⟨version, -, h⟩ := Option.bind_eq_some_iff.1 h
  obtain ⟨apiVersion, -, h⟩ := Option.bind_eq_some_iff.1 h
  obtain ⟨description, -, h⟩ := Option.bind_eq_some_iff.1 h
  obtain ⟨permissions, hpermissions, h⟩ := Option.bind_eq_some_iff.1 h
  obtain rfl := Option.some.inj h
  unfold V3Manifest.toPreview declaredEntries
  rw [List.map_map]
  rcases list_of_field hpermissions with ⟨hlast, rfl⟩ | ⟨items, ps, hlast, hps, rfl⟩
  · rw [hlast]
    rfl
  · rw [hlast]
    exact map_of_map_eq (fun _ _ hp => congrArg some (riskLevel_v3Permission hp)) hps

theorem declaredRisk_of_text {s : JString} (h : text t = some s) : declaredRisk K t = none := by
  cases t with
  | literal s => rfl
  | string s => rfl
  | array items => cases h
  | object fs => cases h
  | skipped => cases h

/-- The entries of a Phase 0 manifest declare no risk, and it shows none. -/
theorem risks_phase0 {m : Phase0Manifest} (h : phase0Manifest K (.object fields) = some m) :
    m.toPreview.permissions.map PermissionDeclaration.risk =
      (declaredEntries fields).map (declaredRisk K) := by
  unfold phase0Manifest at h
  obtain ⟨fs, hfs, h⟩ := Option.bind_eq_some_iff.1 h
  obtain rfl := Option.some.inj hfs
  obtain ⟨name, -, h⟩ := Option.bind_eq_some_iff.1 h
  obtain ⟨version, -, h⟩ := Option.bind_eq_some_iff.1 h
  obtain ⟨api, -, h⟩ := Option.bind_eq_some_iff.1 h
  obtain ⟨description, -, h⟩ := Option.bind_eq_some_iff.1 h
  obtain ⟨permissions, hpermissions, h⟩ := Option.bind_eq_some_iff.1 h
  obtain rfl := Option.some.inj h
  unfold Phase0Manifest.toPreview declaredEntries
  rw [List.map_map]
  rcases list_of_field hpermissions with ⟨hlast, rfl⟩ | ⟨items, ps, hlast, hps, rfl⟩
  · rw [hlast]
    rfl
  · rw [hlast]
    exact map_of_map_eq (fun _ _ hp => (declaredRisk_of_text hp).symm) hps

/-! ### The preview of an accepted text -/

/-- What is shown of an accepted text. -/
theorem risks_of_parseManifestJson {raw : JString} {preview : ModuleManifestPreview}
    (h : parseManifestJson K raw = .success preview) :
    ∃ fields, K.parse raw = some (.object fields) ∧
      ((ReadsAsV3 K fields ∧ preview.permissions.map PermissionDeclaration.risk =
          (declaredEntries fields).map fun entry => some ((declaredRisk K entry).getD 0)) ∨
        (¬ ReadsAsV3 K fields ∧ preview.permissions.map PermissionDeclaration.risk =
          (declaredEntries fields).map (declaredRisk K))) := by
  unfold parseManifestJson at h
  split at h
  · next v3 hv3 =>
    obtain ⟨hv3, hblank⟩ := Option.filter_eq_some_iff.1 hv3
    obtain ⟨t, ht, hv3⟩ := Option.bind_eq_some_iff.1 hv3
    obtain ⟨fields, rfl, hreads, -, -⟩ := v3Manifest_spec hv3 (by simpa using hblank)
    obtain rfl := PreviewResult.success.inj h
    exact ⟨fields, ht, Or.inl ⟨hreads, risks_v3 hv3⟩⟩
  · next hnone =>
    split at h
    · next p0 hp0 =>
      obtain ⟨hp0, hblank⟩ := Option.filter_eq_some_iff.1 hp0
      obtain ⟨t, ht, hp0⟩ := Option.bind_eq_some_iff.1 hp0
      obtain ⟨fields, rfl, -, -⟩ := phase0Manifest_spec hp0 (by simpa using hblank)
      obtain rfl := PreviewResult.success.inj h
      refine ⟨fields, ht, Or.inr ⟨fun hreads => ?_, risks_phase0 hp0⟩⟩
      obtain ⟨m, hm, hid⟩ := exists_v3Manifest hreads
      rw [ht, Option.bind_some, hm, Option.filter_eq_none_iff] at hnone
      exact hnone m rfl (by simpa using hid)
    · cases h

/-- Where the shown risks are the declared ones, the highest of them is declared. -/
theorem riskAsDeclared_of_risks {preview : ModuleManifestPreview}
    (h : preview.permissions.map PermissionDeclaration.risk =
      (declaredEntries fields).map (declaredRisk K)) :
    RiskAsDeclared K fields preview := by
  refine ⟨h, fun hsource => ?_⟩
  obtain ⟨risk, hrisk⟩ := Option.isSome_iff_exists.1
    ((RiskAnalyzer.riskSource_eq_manifest_iff (some preview)).1 hsource)
  have hmem := RiskAnalyzer.mem_risks_of_highestRisk hrisk
  rw [h] at hmem
  obtain ⟨entry, hentry, hdeclared⟩ := List.mem_map.1 hmem
  exact ⟨entry, hentry, risk, hdeclared, hrisk⟩

/-- **No risk is invented exactly where the text is taken for a Phase 0 manifest or all entries of
the v3 manifest declare their risk.** -/
theorem riskAsDeclared_iff {raw : JString} {preview : ModuleManifestPreview}
    (h : parseManifestJson K raw = .success preview) :
    ∃ fields, K.parse raw = some (.object fields) ∧
      (RiskAsDeclared K fields preview ↔ DeclaresRisks K fields) := by
  obtain ⟨fields, hfields, ⟨hv3, hrisks⟩ | ⟨hv3, hrisks⟩⟩ := risks_of_parseManifestJson h
  · have hall : (declaredEntries fields).map (fun entry => some ((declaredRisk K entry).getD 0)) =
        (declaredEntries fields).map (declaredRisk K) ↔ DeclaresRisks K fields := by
      rw [List.map_inj_left]
      refine ⟨fun heq _ entry hentry => ?_, fun hdeclares entry hentry => ?_⟩
      · rw [← heq entry hentry]
        rfl
      · obtain ⟨risk, hrisk⟩ := Option.isSome_iff_exists.1 (hdeclares hv3 entry hentry)
        rw [hrisk]
        rfl
    refine ⟨fields, hfields, fun hlaw => hall.1 (hrisks.symm.trans hlaw.1), fun hdeclares => ?_⟩
    exact riskAsDeclared_of_risks (hrisks.trans (hall.2 hdeclares))
  · exact ⟨fields, hfields, fun _ hreads => absurd hreads hv3,
      fun _ => riskAsDeclared_of_risks hrisks⟩

/-! ### A permission with a risk, and one without -/

/-- A v3 manifest with one permission, whose fields behind the capability are `rest`. -/
def riskJson (rest : String) : JString :=
  ofString "\x7b\"id\":\"com.test.mod\",\"permissions\":[\x7b\"capability\":\"network\"" ++
    ofString rest ++ ofString "\x7d]\x7d"

/-- The fields of this manifest. -/
def riskFields (rest : List (JString × JsonTree)) : List (JString × JsonTree) :=
  [(ofString "id", .string (ofString "com.test.mod")),
    (ofString "permissions",
      .array [.object ((ofString "capability", .string (ofString "network")) :: rest)])]

/-- The fields of the permission that declares a risk. -/
def declared : List (JString × JsonTree) := [(ofString "riskLevel", .literal (ofString "40"))]

/-- The serialization library on the two texts. -/
def riskKotlinx : Kotlinx where
  parse raw :=
    if raw = riskJson "" then some (.object (riskFields []))
    else if raw = riskJson ",\"riskLevel\":40" then some (.object (riskFields declared))
    else none
  int
    | .literal s => toIntegerOrNull s
    | _ => none

/-- What is shown of the manifest. -/
def riskPreview (risk : ℤ) : ModuleManifestPreview where
  id := ofString "com.test.mod"
  name := ofString "com.test.mod"
  version := ofString "0.0.0"
  description := []
  permissions := [⟨ofString "network", some risk, []⟩]

/-- A permission without a risk is shown with the risk 0, and the module is rated low. -/
theorem undeclared_risk_invented :
    riskKotlinx.parse (riskJson "") = some (.object (riskFields [])) ∧
      parseManifestJson riskKotlinx (riskJson "") = .success (riskPreview 0) ∧
      RiskAnalyzer.analyze (some (riskPreview 0)) = ⟨1, some 0, .manifest, .low⟩ ∧
      ¬ RiskAsDeclared riskKotlinx (riskFields []) (riskPreview 0) := by
  refine ⟨by simp [riskKotlinx], by decide +kernel, by decide, fun h => ?_⟩
  exact absurd h.1 (by decide +kernel)

/-- A declared risk is shown. -/
theorem declared_risk_shown :
    parseManifestJson riskKotlinx (riskJson ",\"riskLevel\":40") = .success (riskPreview 40) ∧
      RiskAsDeclared riskKotlinx (riskFields declared) (riskPreview 40) := by
  have hshown : parseManifestJson riskKotlinx (riskJson ",\"riskLevel\":40") =
      .success (riskPreview 40) := by
    decide +kernel
  have hparse : riskKotlinx.parse (riskJson ",\"riskLevel\":40") =
      some (.object (riskFields declared)) := by
    have hne : riskJson ",\"riskLevel\":40" ≠ riskJson "" := by decide +kernel
    simp [riskKotlinx, hne]
  obtain ⟨fields, hfields, hiff⟩ := riskAsDeclared_iff hshown
  rw [hparse] at hfields
  obtain rfl := JsonTree.object.inj (Option.some.inj hfields)
  refine ⟨hshown, hiff.2 fun _ entry hentry => ?_⟩
  obtain rfl := List.mem_singleton.1 hentry
  decide

end AstraVeil.Modules
