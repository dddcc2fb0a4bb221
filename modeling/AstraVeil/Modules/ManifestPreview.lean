import AstraVeil.Lib.LenientJson
import AstraVeil.Modules.InstallExits

/-!
# The preview of a manifest

`AvmManifestParser` shows the user what a package asks for, before `ModuleManager.install` reads
the same package again.  The one streams the archive and takes the first entry that looks like a
manifest, the other looks up the root entry; the one tries the v3 format first, the other knows the
Phase 0 format only.

* `AvmManifestParser.parse`: the preview;
* `DecodesAsDeclared`: the installer decodes a manifest as `ModuleManifest` declares it;
* `Agrees`: the preview shows the id and the permissions that `install` uses;
* `HidesId`, `Repeats`: when one text has two ids, and when two texts say the same;
* `preview_agrees_iff`: preview and installation agree exactly under this condition.
-/

namespace AstraVeil.Modules

open Utf16 KotlinString LenientJson

/-- `kotlinx.serialization`, with `isLenient` and `ignoreUnknownKeys`. -/
structure Kotlinx where
  /-- The tree of a text. -/
  parse : JString → Option JsonTree
  /-- An `Int`. -/
  int : JsonTree → Option ℤ

/-- `PermissionDeclaration`. -/
structure PermissionDeclaration where
  capability : JString
  risk : Option ℤ
  reason : JString
  deriving DecidableEq

/-- `ModuleManifestPreview`. -/
structure ModuleManifestPreview where
  id : JString
  name : JString
  version : JString
  description : JString
  permissions : List PermissionDeclaration
  deriving DecidableEq

/-- What `ZipInputStream` delivers: entries, and perhaps an exception after them. -/
structure ZipStream where
  entries : List (JString × List UInt8)
  broken : Bool

namespace AvmManifestParser

/-- `PreviewError`. -/
inductive PreviewError
  | notAZip
  | missingManifest
  | malformedManifest
  | emptyPermissions
  | ioError
  deriving DecidableEq

/-- `PreviewResult`. -/
inductive PreviewResult
  | success (preview : ModuleManifestPreview)
  | failure (reason : PreviewError)
  deriving DecidableEq

/-- `V3Permission`. -/
structure V3Permission where
  capability : JString
  reason : JString
  riskLevel : ℤ

/-- `V3Manifest`. -/
structure V3Manifest where
  id : JString
  name : JString
  version : JString
  apiVersion : ℤ
  description : JString
  permissions : List V3Permission

/-- `Phase0Manifest`. -/
structure Phase0Manifest where
  name : JString
  version : JString
  api : ℤ
  description : JString
  permissions : List JString

/-- `V3Manifest.toPreview`. -/
def V3Manifest.toPreview (m : V3Manifest) : ModuleManifestPreview where
  id := m.id
  name := if isBlank m.name then m.id else m.name
  version := m.version
  description := m.description
  permissions := m.permissions.map fun p => ⟨p.capability, some p.riskLevel, p.reason⟩

/-- `Phase0Manifest.toPreview`. -/
def Phase0Manifest.toPreview (m : Phase0Manifest) : ModuleManifestPreview where
  id := m.name
  name := m.name
  version := m.version
  description := m.description
  permissions := m.permissions.map fun perm => ⟨perm, none, []⟩

variable (K : Kotlinx)

/-- `V3Permission` as declared. -/
def v3Permission (t : JsonTree) : Option V3Permission := do
  let fields ← fieldsOf t
  let capability ← field (ofString "capability") text fields
  let reason ← field (ofString "reason") text fields
  let riskLevel ← field (ofString "riskLevel") K.int fields
  pure
    { capability := capability.getD []
      reason := reason.getD []
      riskLevel := riskLevel.getD 0 }

/-- `V3Manifest` as declared. -/
def v3Manifest (t : JsonTree) : Option V3Manifest := do
  let fields ← fieldsOf t
  let id ← field (ofString "id") text fields
  let name ← field (ofString "name") text fields
  let version ← field (ofString "version") text fields
  let apiVersion ← field (ofString "apiVersion") K.int fields
  let description ← field (ofString "description") text fields
  let permissions ← field (ofString "permissions") (listOf (v3Permission K)) fields
  pure
    { id := id.getD []
      name := name.getD []
      version := version.getD (ofString "0.0.0")
      apiVersion := apiVersion.getD 2
      description := description.getD []
      permissions := permissions.getD [] }

/-- `Phase0Manifest` as declared. -/
def phase0Manifest (t : JsonTree) : Option Phase0Manifest := do
  let fields ← fieldsOf t
  let name ← field (ofString "name") text fields
  let version ← field (ofString "version") text fields
  let api ← field (ofString "api") K.int fields
  let description ← field (ofString "description") text fields
  let permissions ← field (ofString "permissions") (listOf text) fields
  pure
    { name := name.getD []
      version := version.getD (ofString "0.0.0")
      api := api.getD 1
      description := description.getD []
      permissions := permissions.getD [] }

/-- `parseManifestJson`: a `catch` falls through to the next format. -/
def parseManifestJson (raw : JString) : PreviewResult :=
  match ((K.parse raw).bind (v3Manifest K)).filter (!isBlank ·.id) with
  | some v3 => .success v3.toPreview
  | none =>
      match ((K.parse raw).bind (phase0Manifest K)).filter (!isBlank ·.name) with
      | some p0 => .success p0.toPreview
      | none => .failure .malformedManifest

/-- The names for which `extractManifestJson` stops. -/
def isManifestName (name : JString) : Bool :=
  name == ofString "module.json" || (ofString "/module.json").isSuffixOf name

/-- `extractManifestJson`: an exception, or perhaps the text of a manifest. -/
def extractManifestJson (decode : List UInt8 → JString) (s : ZipStream) :
    Except Unit (Option JString) :=
  match s.entries.find? (isManifestName ·.1) with
  | some entry => .ok (some (decode entry.2))
  | none => if s.broken then .error () else .ok none

/-- `AvmManifestParser.parse`. -/
def parse (decode : List UInt8 → JString) (s : ZipStream) : PreviewResult :=
  match extractManifestJson decode s with
  | .error _ => .failure .ioError
  | .ok none => .failure .missingManifest
  | .ok (some manifestJson) => parseManifestJson K manifestJson

end AvmManifestParser

/-! ### The manifest of the installer -/

/-- `ModuleManifest` as declared: `name` and `version` have no default. -/
def moduleManifest (K : Kotlinx) (t : JsonTree) : Option ModuleManifest := do
  let fields ← fieldsOf t
  let name ← field (ofString "name") text fields
  let version ← field (ofString "version") text fields
  let api ← field (ofString "api") K.int fields
  let author ← field (ofString "author") text fields
  let description ← field (ofString "description") text fields
  let permissions ← field (ofString "permissions") (listOf text) fields
  let runtime ← field (ofString "runtime") text fields
  let entry ← field (ofString "entry") text fields
  let minApi ← field (ofString "minApi") K.int fields
  let name ← name
  let version ← version
  pure
    { name := name
      version := version
      api := api.getD 1
      author := author.getD []
      description := description.getD []
      permissions := permissions.getD []
      runtime := runtime.getD []
      entry := entry.getD []
      minApi := minApi.getD 1 }

/-- The manifest step of `install`: the text of the root entry and what the validator makes of
it. -/
def manifestStep {Key : Type} (D : Device Key) (zip : ZipFile) :
    Option (JString × ModuleManifest) := do
  let moduleJsonEntry ← zip.getEntry (ofString "module.json")
  let rawJson := D.platform.decode moduleJsonEntry.content
  let manifest ← (validateManifest D rawJson).toOption
  pure (rawJson, manifest)

/-- Every package that `install` admits has passed this step. -/
theorem manifestStep_of_admitted {Key : Type} {D : Device Key} {r : InstallRequest} {zip : ZipFile}
    {manifest : ModuleManifest} (h : Admitted D r zip manifest) :
    ∃ raw, manifestStep D zip = some (raw, manifest) := by
  obtain ⟨entry, hentry, hmanifest⟩ := h.decoded
  refine ⟨D.platform.decode entry.content, ?_⟩
  unfold manifestStep
  simp only [hentry, hmanifest, Option.bind_eq_bind, Option.bind_some]
  rfl

/-- The validator's `json` decodes as `ModuleManifest` is declared. -/
def DecodesAsDeclared {Key : Type} (K : Kotlinx) (D : Device Key) : Prop :=
  ∀ raw, (D.decodeManifest raw).toOption = (K.parse raw).bind (moduleManifest K)

/-- The preview shows the id that is installed and the permissions that are requested. -/
def Agrees (preview : ModuleManifestPreview) (manifest : ModuleManifest) : Prop :=
  preview.id = manifest.name ∧
    ∀ c, c ∈ preview.permissions.map PermissionDeclaration.capability ↔ c ∈ manifest.permissions

/-! ### What a text says -/

/-- The string that a key has in the end. -/
def textOf (key : String) (fields : List (JString × JsonTree)) : Option JString :=
  (last (ofString key) fields).bind text

/-- The strings of the list `permissions`. -/
def permissionsOf (fields : List (JString × JsonTree)) : List JString :=
  match last (ofString "permissions") fields with
  | some (.array items) => items.filterMap text
  | _ => []

/-- The `capability` of an element of `permissions`. -/
def capabilityOf (t : JsonTree) : JString :=
  ((fieldsOf t).bind (textOf "capability")).getD []

/-- The capabilities of the list `permissions`. -/
def capabilitiesOf (fields : List (JString × JsonTree)) : List JString :=
  match last (ofString "permissions") fields with
  | some (.array items) => items.map capabilityOf
  | _ => []

variable (K : Kotlinx)

/-- The text is taken for a v3 manifest. -/
structure ReadsAsV3 (fields : List (JString × JsonTree)) : Prop where
  id : Decodable (ofString "id") text fields
  name : Decodable (ofString "name") text fields
  version : Decodable (ofString "version") text fields
  apiVersion : Decodable (ofString "apiVersion") K.int fields
  description : Decodable (ofString "description") text fields
  permissions :
    Decodable (ofString "permissions") (listOf (AvmManifestParser.v3Permission K)) fields
  usable : ∃ id, textOf "id" fields = some id ∧ isBlank id = false

/-- The text names no permissions, and an id that is not the name; it is a v3 manifest, too. -/
structure HidesId (fields : List (JString × JsonTree)) : Prop where
  id : Decodable (ofString "id") text fields
  other : ∃ id, textOf "id" fields = some id ∧ isBlank id = false ∧ textOf "name" fields ≠ some id
  apiVersion : Decodable (ofString "apiVersion") K.int fields
  permissions : ∀ t ∈ occurrences (ofString "permissions") fields, t = .array []

/-- Two texts say the same, the first in either format. -/
structure Repeats (fields fields' : List (JString × JsonTree)) : Prop where
  v3 : ReadsAsV3 K fields → textOf "id" fields = textOf "name" fields' ∧
    ∀ c, c ∈ capabilitiesOf fields ↔ c ∈ permissionsOf fields'
  phase0 : ¬ ReadsAsV3 K fields → textOf "name" fields = textOf "name" fields' ∧
    ∀ c, c ∈ permissionsOf fields ↔ c ∈ permissionsOf fields'

/-- The text that is previewed and the text that is installed. -/
def Consistent (raw raw' : JString) : Prop :=
  ∀ fields fields', K.parse raw = some (.object fields) → K.parse raw' = some (.object fields') →
    (raw = raw' → ¬ HidesId K fields) ∧ (raw ≠ raw' → Repeats K fields fields')

/-! ### What the decoders read -/

variable {K} {t : JsonTree} {fields fields' : List (JString × JsonTree)}

theorem fieldsOf_eq_some_iff : fieldsOf t = some fields ↔ t = .object fields := by
  cases t <;> simp [fieldsOf]

theorem text_of_field {key : String} {o : Option JString}
    (h : field (ofString key) text fields = some o) :
    Decodable (ofString key) text fields ∧ o = textOf key fields :=
  field_eq_some_iff.1 h

theorem exists_field {α : Type} {key : JString} {decode : JsonTree → Option α}
    (h : Decodable key decode fields) : ∃ o, field key decode fields = some o :=
  ⟨_, field_eq_some_iff.2 ⟨h, rfl⟩⟩

theorem filterMap_of_map_eq {α β : Type} {f : α → Option β} {l : List α} {l' : List β}
    (h : l.map f = l'.map some) : l.filterMap f = l' := by
  have hid : l.filterMap f = (l.map f).filterMap id := by
    rw [List.filterMap_map]
    rfl
  rw [hid, h, List.filterMap_map]
  exact List.filterMap_some

theorem map_of_map_eq {α β γ : Type} {f : α → Option β} {g : β → γ} {g' : α → γ}
    (hg : ∀ a b, f a = some b → g b = g' a) {l : List α} {l' : List β}
    (h : l.map f = l'.map some) : l'.map g = l.map g' := by
  induction l generalizing l' with
  | nil =>
    obtain rfl := List.map_eq_nil_iff.1 h.symm
    rfl
  | cons a l ih =>
    cases l' with
    | nil => cases h
    | cons b l' =>
      obtain ⟨ha, hl⟩ := List.cons.inj h
      rw [List.map_cons, List.map_cons, hg a b ha, ih hl]

theorem permissions_of_field {o : Option (List JString)}
    (h : field (ofString "permissions") (listOf text) fields = some o) :
    Decodable (ofString "permissions") (listOf text) fields ∧
      o.getD [] = permissionsOf fields := by
  refine ⟨(field_eq_some_iff.1 h).1, ?_⟩
  unfold permissionsOf
  rcases list_of_field h with ⟨hlast, rfl⟩ | ⟨items, ps, hlast, hps, rfl⟩
  · rw [hlast]
    rfl
  · rw [hlast]
    exact (filterMap_of_map_eq hps).symm

theorem capability_v3Permission {p : AvmManifestParser.V3Permission}
    (h : AvmManifestParser.v3Permission K t = some p) : p.capability = capabilityOf t := by
  unfold AvmManifestParser.v3Permission at h
  obtain ⟨fs, hfs, h⟩ := Option.bind_eq_some_iff.1 h
  obtain ⟨capability, hcap, h⟩ := Option.bind_eq_some_iff.1 h
  obtain ⟨reason, hreason, h⟩ := Option.bind_eq_some_iff.1 h
  obtain ⟨risk, hrisk, h⟩ := Option.bind_eq_some_iff.1 h
  obtain rfl := Option.some.inj h
  unfold capabilityOf
  rw [hfs, (text_of_field hcap).2]
  rfl

theorem capabilities_of_field {o : Option (List AvmManifestParser.V3Permission)}
    (h : field (ofString "permissions") (listOf (AvmManifestParser.v3Permission K)) fields =
      some o) :
    (o.getD []).map (·.capability) = capabilitiesOf fields := by
  unfold capabilitiesOf
  rcases list_of_field h with ⟨hlast, rfl⟩ | ⟨items, ps, hlast, hps, rfl⟩
  · rw [hlast]
    rfl
  · rw [hlast]
    exact map_of_map_eq (fun _ _ hp => capability_v3Permission hp) hps

/-- What the installer reads. -/
structure Installs (fields : List (JString × JsonTree)) (m : ModuleManifest) : Prop where
  id : textOf "name" fields = some m.name
  requested : m.permissions = permissionsOf fields
  name : Decodable (ofString "name") text fields
  version : Decodable (ofString "version") text fields
  description : Decodable (ofString "description") text fields
  permissions : Decodable (ofString "permissions") (listOf text) fields

theorem moduleManifest_spec {m : ModuleManifest} (h : moduleManifest K t = some m) :
    ∃ fields, t = .object fields ∧ Installs fields m := by
  unfold moduleManifest at h
  obtain ⟨fields, hfields, h⟩ := Option.bind_eq_some_iff.1 h
  obtain ⟨name, hname, h⟩ := Option.bind_eq_some_iff.1 h
  obtain ⟨version, hversion, h⟩ := Option.bind_eq_some_iff.1 h
  obtain ⟨api, -, h⟩ := Option.bind_eq_some_iff.1 h
  obtain ⟨author, -, h⟩ := Option.bind_eq_some_iff.1 h
  obtain ⟨description, hdescription, h⟩ := Option.bind_eq_some_iff.1 h
  obtain ⟨permissions, hpermissions, h⟩ := Option.bind_eq_some_iff.1 h
  obtain ⟨runtime, -, h⟩ := Option.bind_eq_some_iff.1 h
  obtain ⟨entry, -, h⟩ := Option.bind_eq_some_iff.1 h
  obtain ⟨minApi, -, h⟩ := Option.bind_eq_some_iff.1 h
  obtain ⟨name', hname', h⟩ := Option.bind_eq_some_iff.1 h
  obtain ⟨version', -, h⟩ := Option.bind_eq_some_iff.1 h
  obtain rfl := Option.some.inj h
  exact ⟨fields, fieldsOf_eq_some_iff.1 hfields, (text_of_field hname).2.symm.trans hname',
    (permissions_of_field hpermissions).2, (text_of_field hname).1, (text_of_field hversion).1,
    (text_of_field hdescription).1, (permissions_of_field hpermissions).1⟩

/-- What the preview reads of a v3 manifest. -/
theorem v3Manifest_spec {m : AvmManifestParser.V3Manifest}
    (h : AvmManifestParser.v3Manifest K t = some m) (hid : isBlank m.id = false) :
    ∃ fields, t = .object fields ∧ ReadsAsV3 K fields ∧ textOf "id" fields = some m.id ∧
      m.permissions.map (·.capability) = capabilitiesOf fields := by
  unfold AvmManifestParser.v3Manifest at h
  obtain ⟨fields, hfields, h⟩ := Option.bind_eq_some_iff.1 h
  obtain ⟨id, hid', h⟩ := Option.bind_eq_some_iff.1 h
  obtain ⟨name, hname, h⟩ := Option.bind_eq_some_iff.1 h
  obtain ⟨version, hversion, h⟩ := Option.bind_eq_some_iff.1 h
  obtain ⟨apiVersion, hapi, h⟩ := Option.bind_eq_some_iff.1 h
  obtain ⟨description, hdescription, h⟩ := Option.bind_eq_some_iff.1 h
  obtain ⟨permissions, hpermissions, h⟩ := Option.bind_eq_some_iff.1 h
  obtain rfl := Option.some.inj h
  -- a blank default is not usable, so the key is there
  have htext : textOf "id" fields = some (id.getD []) := by
    rw [← (text_of_field hid').2]
    cases id with
    | none => cases hid
    | some id => rfl
  refine ⟨fields, fieldsOf_eq_some_iff.1 hfields, ?_, htext, capabilities_of_field hpermissions⟩
  exact ⟨(text_of_field hid').1, (text_of_field hname).1, (text_of_field hversion).1,
    (field_eq_some_iff.1 hapi).1, (text_of_field hdescription).1,
    (field_eq_some_iff.1 hpermissions).1, _, htext, hid⟩

theorem exists_v3Manifest (h : ReadsAsV3 K fields) :
    ∃ m, AvmManifestParser.v3Manifest K (.object fields) = some m ∧ isBlank m.id = false := by
  obtain ⟨name, hname⟩ := exists_field h.name
  obtain ⟨version, hversion⟩ := exists_field h.version
  obtain ⟨apiVersion, hapi⟩ := exists_field h.apiVersion
  obtain ⟨description, hdescription⟩ := exists_field h.description
  obtain ⟨permissions, hpermissions⟩ := exists_field h.permissions
  obtain ⟨id, hid, hblank⟩ := h.usable
  have hfield : field (ofString "id") text fields = some (some id) :=
    field_eq_some_iff.2 ⟨h.id, hid.symm⟩
  unfold AvmManifestParser.v3Manifest
  simp only [fieldsOf, hfield, hname, hversion, hapi, hdescription, hpermissions,
    Option.bind_eq_bind, Option.bind_some]
  exact ⟨_, rfl, hblank⟩

/-- What the preview reads of a Phase 0 manifest. -/
theorem phase0Manifest_spec {m : AvmManifestParser.Phase0Manifest}
    (h : AvmManifestParser.phase0Manifest K t = some m) (hname : isBlank m.name = false) :
    ∃ fields, t = .object fields ∧ textOf "name" fields = some m.name ∧
      m.permissions = permissionsOf fields := by
  unfold AvmManifestParser.phase0Manifest at h
  obtain ⟨fields, hfields, h⟩ := Option.bind_eq_some_iff.1 h
  obtain ⟨name, hname', h⟩ := Option.bind_eq_some_iff.1 h
  obtain ⟨version, -, h⟩ := Option.bind_eq_some_iff.1 h
  obtain ⟨api, -, h⟩ := Option.bind_eq_some_iff.1 h
  obtain ⟨description, -, h⟩ := Option.bind_eq_some_iff.1 h
  obtain ⟨permissions, hpermissions, h⟩ := Option.bind_eq_some_iff.1 h
  obtain rfl := Option.some.inj h
  refine ⟨fields, fieldsOf_eq_some_iff.1 hfields, ?_, (permissions_of_field hpermissions).2⟩
  rw [← (text_of_field hname').2]
  cases name with
  | none => cases hname
  | some name => rfl

/-! ### Preview and installation -/

/-- What a successful preview shows: the id and the permissions of one of the two formats. -/
inductive Previews (K : Kotlinx) (fields : List (JString × JsonTree))
    (preview : ModuleManifestPreview) : Prop
  | v3 : ReadsAsV3 K fields → textOf "id" fields = some preview.id →
      preview.permissions.map PermissionDeclaration.capability = capabilitiesOf fields →
      Previews K fields preview
  | phase0 : ¬ ReadsAsV3 K fields → textOf "name" fields = some preview.id →
      preview.permissions.map PermissionDeclaration.capability = permissionsOf fields →
      Previews K fields preview

theorem parseManifestJson_spec {raw : JString} {preview : ModuleManifestPreview}
    (h : AvmManifestParser.parseManifestJson K raw = .success preview) :
    ∃ fields, K.parse raw = some (.object fields) ∧ Previews K fields preview := by
  unfold AvmManifestParser.parseManifestJson at h
  split at h
  · next v3 hv3 =>
    obtain ⟨hv3, hblank⟩ := Option.filter_eq_some_iff.1 hv3
    obtain ⟨t, ht, hv3⟩ := Option.bind_eq_some_iff.1 hv3
    obtain ⟨fields, rfl, hreads, hid, hcaps⟩ := v3Manifest_spec hv3 (by simpa using hblank)
    obtain rfl := AvmManifestParser.PreviewResult.success.inj h
    refine ⟨fields, ht, .v3 hreads hid ?_⟩
    rw [← hcaps]
    exact List.map_map
  · next hnone =>
    split at h
    · next p0 hp0 =>
      obtain ⟨hp0, hblank⟩ := Option.filter_eq_some_iff.1 hp0
      obtain ⟨t, ht, hp0⟩ := Option.bind_eq_some_iff.1 hp0
      obtain ⟨fields, rfl, hname, hperms⟩ := phase0Manifest_spec hp0 (by simpa using hblank)
      obtain rfl := AvmManifestParser.PreviewResult.success.inj h
      refine ⟨fields, ht, .phase0 (fun hreads => ?_) hname ?_⟩
      · obtain ⟨m, hm, hid⟩ := exists_v3Manifest hreads
        rw [ht, Option.bind_some, hm, Option.filter_eq_none_iff] at hnone
        exact hnone m rfl (by simpa using hid)
      · rw [← hperms]
        refine (List.map_map).trans ?_
        exact List.map_id _
    · cases h

theorem decodeManifest_of_validateManifest {Key : Type} {D : Device Key} {raw : JString}
    {manifest : ModuleManifest} (h : validateManifest D raw = .ok manifest) :
    D.decodeManifest raw = .ok manifest := by
  unfold validateManifest at h
  split at h
  · cases h
  · next m hm =>
    simp only at h
    split_ifs at h
    rw [hm, Except.ok.inj h]

theorem manifestStep_spec {Key : Type} {D : Device Key} (hD : DecodesAsDeclared K D)
    {zip : ZipFile} {raw : JString} {manifest : ModuleManifest}
    (h : manifestStep D zip = some (raw, manifest)) :
    ∃ t, K.parse raw = some t ∧ moduleManifest K t = some manifest := by
  unfold manifestStep at h
  obtain ⟨entry, -, h⟩ := Option.bind_eq_some_iff.1 h
  obtain ⟨m, hm, h⟩ := Option.bind_eq_some_iff.1 h
  obtain ⟨rfl, rfl⟩ := Prod.mk.inj (Option.some.inj h)
  have hvalid : validateManifest D (D.platform.decode entry.content) = .ok m := by
    cases hv : validateManifest D (D.platform.decode entry.content) with
    | error e =>
      rw [hv] at hm
      cases hm
    | ok m' =>
      rw [hv] at hm
      rw [Option.some.inj hm]
  have hdecoded := hD (D.platform.decode entry.content)
  rw [decodeManifest_of_validateManifest hvalid] at hdecoded
  exact Option.bind_eq_some_iff.1 hdecoded.symm

/-- A list of strings that is a list of objects, too, is empty. -/
theorem eq_nil_of_listOf {ps : List JString} {vs : List AvmManifestParser.V3Permission}
    (hps : listOf text t = some ps) (hvs : listOf (AvmManifestParser.v3Permission K) t = some vs) :
    t = .array [] := by
  cases t with
  | literal s => cases hps
  | string s => cases hps
  | object fs => cases hps
  | skipped => cases hps
  | array items =>
    cases items with
    | nil => rfl
    | cons item items =>
      have hp := exists_mapM_iff.1 ⟨ps, hps⟩ item (List.mem_cons_self ..)
      have hv := exists_mapM_iff.1 ⟨vs, hvs⟩ item (List.mem_cons_self ..)
      cases item with
      | literal s => cases hv
      | string s => cases hv
      | array l => cases hp
      | object fs => cases hp
      | skipped => cases hp

/-- One text in both formats has no permissions. -/
theorem permissions_eq_nil (hp : Decodable (ofString "permissions") (listOf text) fields)
    (hv : ReadsAsV3 K fields) :
    ∀ t ∈ occurrences (ofString "permissions") fields, t = .array [] := by
  intro t ht
  obtain ⟨ps, hps⟩ := Option.isSome_iff_exists.1 (hp t ht)
  obtain ⟨vs, hvs⟩ := Option.isSome_iff_exists.1 (hv.permissions t ht)
  exact eq_nil_of_listOf hps hvs

theorem lists_eq_nil (h : ∀ t ∈ occurrences (ofString "permissions") fields, t = .array []) :
    permissionsOf fields = [] ∧ capabilitiesOf fields = [] := by
  unfold permissionsOf capabilitiesOf
  cases hlast : last (ofString "permissions") fields with
  | none => exact ⟨rfl, rfl⟩
  | some t =>
    obtain rfl := h t (List.mem_of_getLast? hlast)
    exact ⟨rfl, rfl⟩

theorem consistent_iff {raw raw' : JString} (h : K.parse raw = some (.object fields))
    (h' : K.parse raw' = some (.object fields')) :
    Consistent K raw raw' ↔
      (raw = raw' → ¬ HidesId K fields) ∧ (raw ≠ raw' → Repeats K fields fields') := by
  constructor
  · intro hc
    exact hc fields fields' h h'
  · intro hc fs fs' hfs hfs'
    rw [h] at hfs
    rw [h'] at hfs'
    obtain rfl := JsonTree.object.inj (Option.some.inj hfs)
    obtain rfl := JsonTree.object.inj (Option.some.inj hfs')
    exact hc

section Agreement

variable {preview : ModuleManifestPreview} {manifest : ModuleManifest}

/-- One text, read twice. -/
theorem agrees_iff_not_hidesId (hshown : Previews K fields preview)
    (hm : Installs fields manifest) :
    Agrees preview manifest ↔ ¬ HidesId K fields := by
  unfold Agrees
  rw [hm.requested]
  cases hshown with
  | v3 hv3 hid hcaps =>
    -- both decoders accept the list, so it is empty, and only the ids can differ
    have hnil := permissions_eq_nil hm.permissions hv3
    rw [hcaps, (lists_eq_nil hnil).1, (lists_eq_nil hnil).2]
    constructor
    · rintro ⟨heq, -⟩ hhides
      obtain ⟨id, hid', -, hne⟩ := hhides.other
      rw [hm.id, ← heq, ← hid] at hne
      exact hne hid'
    · intro hhides
      refine ⟨?_, fun _ => Iff.rfl⟩
      by_contra hne
      obtain ⟨id, hid', hblank⟩ := hv3.usable
      refine hhides ⟨hv3.id, ⟨id, hid', hblank, fun hn => hne ?_⟩, hv3.apiVersion, hnil⟩
      exact Option.some.inj (hid.symm.trans (hid'.trans (hn.symm.trans hm.id)))
  | phase0 hv3 hid hcaps =>
    rw [hcaps]
    refine ⟨fun _ hhides => hv3 ?_, fun _ => ⟨?_, fun _ => Iff.rfl⟩⟩
    · obtain ⟨id, hid', hblank, -⟩ := hhides.other
      refine ⟨hhides.id, hm.name, hm.version, hhides.apiVersion, hm.description, ?_, id, hid',
        hblank⟩
      intro t ht
      rw [hhides.permissions t ht]
      rfl
    · exact Option.some.inj (hid.symm.trans hm.id)

/-- Two texts. -/
theorem agrees_iff_repeats (hshown : Previews K fields preview) (hm : Installs fields' manifest) :
    Agrees preview manifest ↔ Repeats K fields fields' := by
  unfold Agrees
  rw [hm.requested]
  cases hshown with
  | v3 hv3 hid hcaps =>
    rw [hcaps]
    constructor
    · rintro ⟨heq, hset⟩
      refine ⟨fun _ => ⟨?_, hset⟩, fun hno => absurd hv3 hno⟩
      rw [hid, hm.id, heq]
    · intro h
      obtain ⟨heq, hset⟩ := h.v3 hv3
      rw [hid, hm.id] at heq
      exact ⟨Option.some.inj heq, hset⟩
  | phase0 hv3 hid hcaps =>
    rw [hcaps]
    constructor
    · rintro ⟨heq, hset⟩
      refine ⟨fun hyes => absurd hyes hv3, fun _ => ⟨?_, hset⟩⟩
      rw [hid, hm.id, heq]
    · intro h
      obtain ⟨heq, hset⟩ := h.phase0 hv3
      rw [hid, hm.id] at heq
      exact ⟨Option.some.inj heq, hset⟩

end Agreement

/-- **Preview and installation agree exactly under the condition.**  For every archive that can be
previewed and whose manifest the installer accepts: if the preview reads the text that is installed,
that text hides no id; else the two texts repeat each other. -/
theorem preview_agrees_iff {Key : Type} (D : Device Key) (hD : DecodesAsDeclared K D)
    {s : ZipStream} {zip : ZipFile} {raw raw' : JString} {preview : ModuleManifestPreview}
    {manifest : ModuleManifest}
    (hraw : AvmManifestParser.extractManifestJson D.platform.decode s = .ok (some raw))
    (hpreview : AvmManifestParser.parse K D.platform.decode s = .success preview)
    (hstep : manifestStep D zip = some (raw', manifest)) :
    Agrees preview manifest ↔ Consistent K raw raw' := by
  unfold AvmManifestParser.parse at hpreview
  rw [hraw] at hpreview
  obtain ⟨fields, hfields, hshown⟩ := parseManifestJson_spec hpreview
  obtain ⟨t, ht, hm⟩ := manifestStep_spec hD hstep
  obtain ⟨fields', rfl, hinstalls⟩ := moduleManifest_spec hm
  rw [consistent_iff hfields ht]
  by_cases hsame : raw = raw'
  · obtain rfl : fields = fields' := by
      rw [hsame, ht] at hfields
      exact (JsonTree.object.inj (Option.some.inj hfields)).symm
    simp only [hsame, true_implies, ne_eq, not_true_eq_false, false_implies, and_true]
    exact agrees_iff_not_hidesId hshown hinstalls
  · simp only [hsame, false_implies, true_and, ne_eq, not_false_eq_true, true_implies]
    exact agrees_iff_repeats hshown hinstalls

/-! ### A manifest in one format, and one in both -/

/-- The device that decodes as declared. -/
def declaredDevice (K : Kotlinx) : Device Unit where
  platform := ModuleSignatureVerifier.samplePlatform
  pinnedPublicKeyB64 := ofString ModuleSignatureVerifier.sampleCertB64
  decodeManifest raw :=
    match (K.parse raw).bind (moduleManifest K) with
    | some manifest => .ok manifest
    | none => .error (ofString "unexpected JSON token")
  modulesRoot := ofString "/data/user/0/com.astraveil.app/files/astra_modules"

theorem decodesAsDeclared_declaredDevice (K : Kotlinx) :
    DecodesAsDeclared K (declaredDevice K) := by
  intro raw
  show Except.toOption (match (K.parse raw).bind (moduleManifest K) with
    | some manifest => .ok manifest
    | none => .error (ofString "unexpected JSON token")) = _
  cases (K.parse raw).bind (moduleManifest K) <;> rfl

/-- A Phase 0 manifest. -/
def plainJson : String :=
  "\x7b\"name\":\"com.test.mod\",\"version\":\"1\",\"permissions\":[\"network\"]\x7d"

/-- The fields of this manifest. -/
def plainFields : List (JString × JsonTree) :=
  [(ofString "name", .string (ofString "com.test.mod")),
    (ofString "version", .string (ofString "1")),
    (ofString "permissions", .array [.string (ofString "network")])]

/-- A manifest with two ids. -/
def doubleJson : String :=
  "\x7b\"id\":\"com.good.mod\",\"name\":\"com.evil.mod\",\"version\":\"1\"\x7d"

/-- The fields of this manifest. -/
def doubleFields : List (JString × JsonTree) :=
  [(ofString "id", .string (ofString "com.good.mod")),
    (ofString "name", .string (ofString "com.evil.mod")),
    (ofString "version", .string (ofString "1"))]

/-- The serialization library on the two texts, which hold no numbers. -/
def sampleKotlinx : Kotlinx where
  parse raw :=
    if raw = ofString plainJson then some (.object plainFields)
    else if raw = ofString doubleJson then some (.object doubleFields)
    else none
  int _ := none

/-- What the preview shows and what is installed, for an archive with this manifest only. -/
def bothReaders (json : String) :
    AvmManifestParser.PreviewResult × Option (JString × ModuleManifest) :=
  let D := declaredDevice sampleKotlinx
  (AvmManifestParser.parse sampleKotlinx D.platform.decode
      ⟨[(ofString "module.json", ascii json)], false⟩,
    manifestStep D (.ofEntries [ModuleSignatureVerifier.sampleEntry "module.json" (ascii json)]))

/-- What the installer reads of the plain manifest. -/
def plainManifest : ModuleManifest where
  name := ofString "com.test.mod"
  version := ofString "1"
  api := 1
  author := []
  description := []
  permissions := [ofString "network"]
  runtime := []
  entry := []
  minApi := 1

/-- What the preview shows of it. -/
def plainPreview : ModuleManifestPreview where
  id := ofString "com.test.mod"
  name := ofString "com.test.mod"
  version := ofString "1"
  description := []
  permissions := [⟨ofString "network", none, []⟩]

theorem agrees_plainJson :
    bothReaders plainJson = (.success plainPreview, some (ofString plainJson, plainManifest)) ∧
      Agrees plainPreview plainManifest := by
  have hboth : bothReaders plainJson =
      (.success plainPreview, some (ofString plainJson, plainManifest)) := by
    decide +kernel
  obtain ⟨hpreview, hstep⟩ := Prod.mk.inj hboth
  have hraw : AvmManifestParser.extractManifestJson
      (declaredDevice sampleKotlinx).platform.decode
      ⟨[(ofString "module.json", ascii plainJson)], false⟩ = .ok (some (ofString plainJson)) := by
    decide +kernel
  have hparse : sampleKotlinx.parse (ofString plainJson) = some (.object plainFields) := rfl
  refine ⟨hboth, (preview_agrees_iff (declaredDevice sampleKotlinx)
    (decodesAsDeclared_declaredDevice sampleKotlinx) hraw hpreview hstep).2 ?_⟩
  refine (consistent_iff hparse hparse).2 ⟨fun _ hhides => ?_, fun hne => absurd rfl hne⟩
  obtain ⟨id, hid, -⟩ := hhides.other
  cases hid

/-- The user is shown `com.good.mod`, and `com.evil.mod` is installed. -/
theorem not_agrees_doubleJson : ∃ preview manifest,
    bothReaders doubleJson = (.success preview, some (ofString doubleJson, manifest)) ∧
      ¬ Agrees preview manifest := by
  refine ⟨⟨ofString "com.good.mod", ofString "com.evil.mod", ofString "1", [], []⟩,
    { plainManifest with name := ofString "com.evil.mod", permissions := [] }, ?_, fun h => ?_⟩
  · decide +kernel
  · exact absurd h.1 (by decide)

end AstraVeil.Modules
