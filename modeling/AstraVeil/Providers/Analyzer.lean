import AstraVeil.Lib.KotlinString

/-!
# What a root backend can do on a device

`providers/intelligence/ProviderAnalyzer.kt`, with the data it reads: `RootProvider`,
`ProviderCapability`, `DeviceProfile` and `ProviderReport`.  What a backend answers when it is asked
(`available()`, `info().version`) is the environment's, an `Answers`.

* `analyze`: the report of the default analyzer;
* `analyze_eq_iff`: two devices get the same report exactly when they agree in what the analyzer
  reads of them for this backend.
-/

namespace AstraVeil.Providers

open Utf16 KotlinString

/-- `ProviderCapability`. -/
inductive ProviderCapability
  | rootExecution
  | mountNamespace
  | overlayFs
  | systemProperty
  | bootPatch
  | selinuxControl
  deriving DecidableEq

/-- `RootProvider`: what does not change while the program runs. -/
structure RootProvider where
  id : String
  displayName : String
  capabilities : List ProviderCapability
  deriving DecidableEq

/-- What the backends answer: `available()` and `info().version`. -/
structure Answers where
  available : RootProvider → Bool
  version : RootProvider → String

/-- What is read of `DeviceProfile`. -/
structure DeviceProfile where
  manufacturer : JString
  kernelVersion : JString
  kernelOverlayFs : Bool
  bootUnlocked : Bool
  selinuxEnforcing : Bool
  deriving DecidableEq

/-- `ProviderReport`. -/
structure ProviderReport where
  providerId : String
  displayName : String
  version : String
  detected : Bool
  executeScore : ℤ
  mountScore : ℤ
  namespaceScore : ℤ
  overlayFsScore : ℤ
  propertyScore : ℤ
  bootScore : ℤ
  overallScore : ℤ
  strengths : List String
  limitations : List String
  deriving DecidableEq

/-! ### The vendor -/

/-- The lower case of a code unit, as far as texts of ASCII letters are looked for in the result:
besides the ASCII letters only the dotted capital I and the Kelvin sign have a lower case that
contains one. -/
def lowercaseUnit (u : UInt16) : JString :=
  if u = 0x130 then [0x69, 0x307] else if u = 0x212A then [0x6B] else [lower u]

/-- `String.lowercase`, for searching ASCII letters in it. -/
def lowercase (s : JString) : JString := s.flatMap lowercaseUnit

/-- `String.contains`. -/
def contains (s other : JString) : Bool := s.tails.any (other.isPrefixOf ·)

/-- The vendor's name contains one of the words. -/
def vendorIs (device : DeviceProfile) (words : List String) : Bool :=
  words.any fun word => contains (lowercase device.manufacturer) (ofString word)

/-- `isSamsung`. -/
def isSamsung (device : DeviceProfile) : Bool := vendorIs device ["samsung"]

/-- `isXiaomi`. -/
def isXiaomi (device : DeviceProfile) : Bool := vendorIs device ["xiaomi", "redmi"]

/-- `isOppo`. -/
def isOppo (device : DeviceProfile) : Bool := vendorIs device ["oppo", "realme", "oneplus"]

/-- `isVivo`. -/
def isVivo (device : DeviceProfile) : Bool := vendorIs device ["vivo", "iqoo"]

/-- `kernelVersion.isNotBlank()`. -/
def kernelKnown (device : DeviceProfile) : Bool := !device.kernelVersion.all isWhitespace

/-! ### The report -/

/-- The text, where the condition holds. -/
def note (condition : Bool) (text : String) : List String := if condition then [text] else []

/-- The capabilities that count: those of an available backend. -/
def countedCapabilities (answers : Answers) (provider : RootProvider) : List ProviderCapability :=
  if answers.available provider then provider.capabilities else []

/-- `strengths`, in the order in which the checks add to it. -/
def strengths (caps : List ProviderCapability) (device : DeviceProfile) : List String :=
  note (caps.contains .rootExecution) "Root execution" ++
  note (caps.contains .mountNamespace) "Mount operations" ++
  note (caps.contains .mountNamespace && kernelKnown device) "Namespace isolation" ++
  note (caps.contains .overlayFs && device.kernelOverlayFs) "OverlayFS supported" ++
  note (caps.contains .systemProperty) "Property modification" ++
  note (caps.contains .bootPatch && device.bootUnlocked) "Boot integration"

/-- `limitations`, in the order in which the checks add to it.  The overlay score that the check for
MIUI looks at is above zero exactly with the capability. -/
def limitations (caps : List ProviderCapability) (device : DeviceProfile) : List String :=
  note (isSamsung device && caps.contains .mountNamespace) "Samsung Knox may restrict mounts" ++
  note (caps.contains .overlayFs && !device.kernelOverlayFs) "Kernel lacks OverlayFS" ++
  note (isXiaomi device && caps.contains .overlayFs) "MIUI may restrict overlay mounts" ++
  note (caps.contains .bootPatch && !device.bootUnlocked)
    "Bootloader locked — boot patch limited" ++
  note (device.selinuxEnforcing && !caps.contains .selinuxControl)
    "SELinux enforcing — no policy control" ++
  note (isOppo device) "ColorOS may limit background daemon" ++
  note (isVivo device) "OriginOS may restrict processes"

/-- `coerceIn(0, 100)`. -/
def coerceScore (score : ℤ) : ℤ := max 0 (min score 100)

/-- `overall`: the mean of the scores above zero, without its fraction. -/
def overall (scores : List ℤ) : ℤ :=
  let nonZero := scores.filter fun score => decide (score > 0)
  if nonZero.isEmpty then 0 else nonZero.sum / nonZero.length

/-- `DefaultProviderAnalyzer.analyze`. -/
def analyze (answers : Answers) (provider : RootProvider) (device : DeviceProfile) :
    ProviderReport :=
  let available := answers.available provider
  let caps := countedCapabilities answers provider
  let executeScore := if caps.contains .rootExecution then 100 else 0
  let mountScore := (if caps.contains .mountNamespace then 95 else 0) -
    (if isSamsung device && caps.contains .mountNamespace then 10 else 0)
  let namespaceScore :=
    if caps.contains .mountNamespace then if kernelKnown device then 90 else 80 else 0
  let overlayFsBase :=
    if caps.contains .overlayFs then if device.kernelOverlayFs then 85 else 40 else 0
  let overlayFsScore :=
    if isXiaomi device && decide (overlayFsBase > 0) then overlayFsBase - 20 else overlayFsBase
  let propertyScore := if caps.contains .systemProperty then 80 else 0
  let bootScore :=
    if caps.contains .bootPatch then if device.bootUnlocked then 75 else 30 else 0
  { providerId := provider.id
    displayName := provider.displayName
    version := if available then answers.version provider else "unknown"
    detected := available
    executeScore := executeScore
    mountScore := coerceScore mountScore
    namespaceScore := namespaceScore
    overlayFsScore := coerceScore overlayFsScore
    propertyScore := propertyScore
    bootScore := bootScore
    overallScore := overall
      [executeScore, mountScore, namespaceScore, overlayFsScore, propertyScore, bootScore]
    strengths := (strengths caps device).eraseDups
    limitations := (limitations caps device).eraseDups }

/-! ### What the analyzer reads of a device -/

/-- The two devices agree in what the analyzer reads of them for these capabilities. -/
structure Agree (caps : List ProviderCapability) (d e : DeviceProfile) : Prop where
  mount : .mountNamespace ∈ caps →
    isSamsung d = isSamsung e ∧ kernelKnown d = kernelKnown e
  overlay : .overlayFs ∈ caps →
    d.kernelOverlayFs = e.kernelOverlayFs ∧ isXiaomi d = isXiaomi e
  boot : .bootPatch ∈ caps → d.bootUnlocked = e.bootUnlocked
  selinux : .selinuxControl ∉ caps → d.selinuxEnforcing = e.selinuxEnforcing
  oppo : isOppo d = isOppo e
  vivo : isVivo d = isVivo e

@[simp] theorem mem_note {condition : Bool} {text s : String} :
    s ∈ note condition text ↔ condition = true ∧ s = text := by
  cases condition <;> simp [note]

variable {answers : Answers} {p : RootProvider} {d e : DeviceProfile}

/-- The report reads nothing else of the device. -/
theorem analyze_congr (h : Agree (countedCapabilities answers p) d e) :
    analyze answers p d = analyze answers p e := by
  obtain ⟨hmount, hoverlay, hboot, hselinux, hoppo, hvivo⟩ := h
  simp only [analyze, strengths, limitations, hoppo, hvivo]
  generalize countedCapabilities answers p = caps at *
  -- what is read under a capability is equal with it and not read without it
  cases hm : caps.contains ProviderCapability.mountNamespace <;>
  cases ho : caps.contains ProviderCapability.overlayFs <;>
  cases hb : caps.contains ProviderCapability.bootPatch <;>
  cases hs : caps.contains ProviderCapability.selinuxControl <;>
  simp_all

/-- The texts of the report tell everything that is read of the device. -/
theorem agree_of_texts {caps : List ProviderCapability}
    (hs : ∀ text, text ∈ strengths caps d ↔ text ∈ strengths caps e)
    (hl : ∀ text, text ∈ limitations caps d ↔ text ∈ limitations caps e) : Agree caps d e := by
  simp only [strengths, limitations, List.mem_append, mem_note] at hs hl
  constructor
  · have hsamsung := hl "Samsung Knox may restrict mounts"
    have hkernel := hs "Namespace isolation"
    simp at hsamsung hkernel
    exact fun hm => ⟨hsamsung hm, hkernel hm⟩
  · have hoverlay := hs "OverlayFS supported"
    have hxiaomi := hl "MIUI may restrict overlay mounts"
    simp at hoverlay hxiaomi
    exact fun ho => ⟨hoverlay ho, hxiaomi ho⟩
  · have hboot := hs "Boot integration"
    simpa using hboot
  · have hselinux := hl "SELinux enforcing — no policy control"
    simpa using hselinux
  · have hoppo := hl "ColorOS may limit background daemon"
    simpa using hoppo
  · have hvivo := hl "OriginOS may restrict processes"
    simpa using hvivo

/-- Two devices get the same report of a backend exactly when they agree in what is read. -/
theorem analyze_eq_iff :
    analyze answers p d = analyze answers p e ↔ Agree (countedCapabilities answers p) d e := by
  refine ⟨fun h => agree_of_texts ?_ ?_, analyze_congr⟩
  · intro text
    have hs : (strengths (countedCapabilities answers p) d).eraseDups =
        (strengths (countedCapabilities answers p) e).eraseDups :=
      congrArg ProviderReport.strengths h
    rw [← List.mem_eraseDups, hs, List.mem_eraseDups]
  · intro text
    have hl : (limitations (countedCapabilities answers p) d).eraseDups =
        (limitations (countedCapabilities answers p) e).eraseDups :=
      congrArg ProviderReport.limitations h
    rw [← List.mem_eraseDups, hl, List.mem_eraseDups]

end AstraVeil.Providers
