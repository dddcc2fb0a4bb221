import AstraVeil.Lib.Runs
import AstraVeil.Providers.Analyzer

/-!
# The registry of root backends

`providers/ProviderRegistry.kt`: the backends in order of precedence, the active one, and the
analysis of all of them on a device, both cached until `invalidate`.

* `Backends`: a list of backends with ids of their own;
* `cachedReports_run`: the cached reports are those of the first device since the last `invalidate`;
* `bestOf_fresh`: for every capability but SELinux control the best backend is the first available
  one that advertises it, on every device;
* `perDevice_run`: what `analyzeAll` and `bestProvider` have to do with the device they are asked
  about.
-/

namespace AstraVeil.Providers

open Utf16 Runs

/-- A list of backends that can be told apart by their ids. -/
structure Backends where
  list : List RootProvider
  nodup : (list.map RootProvider.id).Nodup

/-- All capabilities. -/
def allCapabilities : List ProviderCapability :=
  [.rootExecution, .mountNamespace, .overlayFs, .systemProperty, .bootPatch, .selinuxControl]

/-- `AstraRootProvider`. -/
def astraRoot : RootProvider := ⟨"astraroot", "AstraRoot", allCapabilities⟩

/-- `MagiskProvider`. -/
def magisk : RootProvider := ⟨"magisk", "Magisk", allCapabilities⟩

/-- `KernelSUProvider`. -/
def kernelSU : RootProvider := ⟨"kernelsu", "KernelSU", allCapabilities⟩

/-- `APatchProvider`. -/
def aPatch : RootProvider :=
  ⟨"apatch", "APatch", [.rootExecution, .mountNamespace, .bootPatch, .selinuxControl]⟩

/-- `ProviderRegistry.providers`. -/
def providers : Backends where
  list := [astraRoot, magisk, kernelSU, aPatch]
  nodup := by decide

/-- The loop of `maxByOrNull`, with the best element so far. -/
def maxByFrom {α : Type*} (selector : α → ℤ) (best : α) : List α → α
  | [] => best
  | x :: xs => maxByFrom selector (if selector best < selector x then x else best) xs

/-- `maxByOrNull`: the first of the elements with the highest value. -/
def maxByOrNull {α : Type*} (selector : α → ℤ) : List α → Option α
  | [] => none
  | x :: xs => some (maxByFrom selector x xs)

/-- `ProviderRegistry`: the cached results.  Of the cached `RootInfo` only `providerName` is
read. -/
structure Registry where
  cachedActive : Option String
  cachedReports : Option (List ProviderReport)

/-- The registry before the first call. -/
def Registry.new : Registry := ⟨none, none⟩

namespace Registry

/-- `invalidate`. -/
def invalidate (_ : Registry) : Registry := new

variable (backends : Backends)

/-- `byId`. -/
def byId (id : String) : Option RootProvider := backends.list.find? fun p => p.id == id

/-- `detectActive`; the `RootInfo` that an available backend gives of itself carries its id. -/
def detectActive (available : RootProvider → Bool) (r : Registry) : Option String × Registry :=
  match r.cachedActive with
  | some providerName => (some providerName, r)
  | none =>
      match backends.list.find? available with
      | some provider => (some provider.id, { r with cachedActive := some provider.id })
      | none => (none, r)

/-- `activeProvider`. -/
def activeProvider (available : RootProvider → Bool) (r : Registry) :
    Option RootProvider × Registry :=
  match r.cachedActive with
  | some providerName => (byId backends providerName, r)
  | none =>
      match detectActive backends available r with
      | (some providerName, r') => (byId backends providerName, r')
      | (none, r') => (none, r')

/-! ### The analysis -/

variable (answers : Answers)

/-- The reports of the analyzer on a device. -/
def fresh (device : DeviceProfile) : List ProviderReport :=
  backends.list.map fun provider => analyze answers provider device

/-- `analyzeAll`. -/
def analyzeAll (device : DeviceProfile) (r : Registry) : List ProviderReport × Registry :=
  match r.cachedReports with
  | some reports => (reports, r)
  | none =>
      let reports := fresh backends answers device
      (reports, { r with cachedReports := some reports })

/-- The score of a report for a capability. -/
def scoreFor (report : ProviderReport) : ProviderCapability → ℤ
  | .rootExecution => report.executeScore
  | .mountNamespace => report.mountScore
  | .overlayFs => report.overlayFsScore
  | .systemProperty => report.propertyScore
  | .bootPatch => report.bootScore
  | .selinuxControl => report.overallScore

/-- `scored`: the detected backends with the capability, with their scores. -/
def scored (capability : ProviderCapability) (reports : List ProviderReport) :
    List (RootProvider × ℤ) :=
  (reports.filter ProviderReport.detected).filterMap fun report =>
    (byId backends report.providerId).bind fun provider =>
      if provider.capabilities.contains capability then
        some (provider, scoreFor report capability)
      else none

/-- The choice of `bestProvider` from the reports. -/
def bestOf (capability : ProviderCapability) (reports : List ProviderReport) :
    Option RootProvider :=
  (maxByOrNull Prod.snd (scored backends capability reports)).map Prod.fst

/-- `bestProvider`. -/
def bestProvider (capability : ProviderCapability) (device : DeviceProfile) (r : Registry) :
    Option RootProvider × Registry :=
  let (reports, r') := analyzeAll backends answers device r
  (bestOf backends capability reports, r')

/-- What `scoreAll` keeps of a report. -/
structure ProviderScore where
  providerId : String
  score : ℤ
  strengths : List String
  limitations : List String

/-- `scoreAll`. -/
def scoreAll (device : DeviceProfile) (r : Registry) : List ProviderScore × Registry :=
  let (reports, r') := analyzeAll backends answers device r
  (((reports.filter ProviderReport.detected).map fun report =>
      ⟨report.providerId, report.overallScore, report.strengths, report.limitations⟩).mergeSort
        fun a b => decide (b.score ≤ a.score), r')

end Registry

/-- The calls on the analysis. -/
inductive Query
  | analyzeAll (device : DeviceProfile)
  | bestProvider (capability : ProviderCapability) (device : DeviceProfile)
  | scoreAll (device : DeviceProfile)
  | invalidate

namespace Registry

variable (backends : Backends) (answers : Answers)

/-- The registry after a call. -/
def step (r : Registry) : Query → Registry
  | .analyzeAll device => (analyzeAll backends answers device r).2
  | .bestProvider capability device => (bestProvider backends answers capability device r).2
  | .scoreAll device => (scoreAll backends answers device r).2
  | .invalidate => r.invalidate

end Registry

/-- The device of a call. -/
def Query.device : Query → Option DeviceProfile
  | .analyzeAll device => some device
  | .bestProvider _ device => some device
  | .scoreAll device => some device
  | .invalidate => none

/-- The first device since the last `invalidate`, after one more call. -/
def Query.fill (filled : Option DeviceProfile) : Query → Option DeviceProfile
  | .invalidate => none
  | query => filled.or query.device

/-- The first device since the last `invalidate`. -/
def filledFor (queries : List Query) : Option DeviceProfile := run Query.fill none queries

namespace Registry

/-! ### Fresh reports -/

variable {backends : Backends} {answers : Answers} {d e : DeviceProfile}

/-- The two devices agree in what the analyzer reads of them for all backends. -/
def SameFor (backends : Backends) (answers : Answers) (d e : DeviceProfile) : Prop :=
  ∀ provider ∈ backends.list, Agree (countedCapabilities answers provider) d e

theorem fresh_eq_iff : fresh backends answers d = fresh backends answers e ↔
    SameFor backends answers d e := by
  rw [fresh, fresh, List.map_inj_left]
  exact forall₂_congr fun provider _ => analyze_eq_iff

theorem analyzeAll_fst (device : DeviceProfile) (r : Registry) :
    (analyzeAll backends answers device r).1 =
      r.cachedReports.getD (fresh backends answers device) := by
  unfold analyzeAll
  cases r.cachedReports <;> rfl

theorem cachedReports_analyzeAll (device : DeviceProfile) (r : Registry) :
    (analyzeAll backends answers device r).2.cachedReports =
      some (r.cachedReports.getD (fresh backends answers device)) := by
  unfold analyzeAll
  cases h : r.cachedReports with
  | none => rfl
  | some reports => exact h

/-- The cached reports are those of the first device since the last `invalidate`. -/
theorem cachedReports_step {r : Registry} {filled : Option DeviceProfile}
    (h : r.cachedReports = filled.map (fresh backends answers)) (query : Query) :
    (step backends answers r query).cachedReports =
      (query.fill filled).map (fresh backends answers) := by
  have hquery : ∀ device, (analyzeAll backends answers device r).2.cachedReports =
      (filled.or (some device)).map (fresh backends answers) := by
    intro device
    rw [cachedReports_analyzeAll, h]
    cases filled <;> rfl
  cases query with
  | analyzeAll device => exact hquery device
  | bestProvider capability device => exact hquery device
  | scoreAll device => exact hquery device
  | invalidate => rfl

theorem cachedReports_run (queries : List Query) :
    (run (step backends answers) new queries).cachedReports =
      (filledFor queries).map (fresh backends answers) := by
  have key : ∀ (r : Registry) (filled : Option DeviceProfile),
      r.cachedReports = filled.map (fresh backends answers) →
      (run (step backends answers) r queries).cachedReports =
        (run Query.fill filled queries).map (fresh backends answers) := by
    induction queries with
    | nil => exact fun _ _ h => h
    | cons query queries ih => exact fun r filled h => ih _ _ (cachedReports_step h query)
  exact key new none rfl

/-- `analyzeAll` after a run answers for the device that filled the cache. -/
theorem analyzeAll_run (queries : List Query) (device : DeviceProfile) :
    (analyzeAll backends answers device (run (step backends answers) new queries)).1 =
      fresh backends answers ((filledFor queries).getD device) := by
  rw [analyzeAll_fst, cachedReports_run]
  cases filledFor queries <;> rfl

/-! ### The best backend -/

theorem maxByFrom_of_le {α : Type*} {selector : α → ℤ} {best : α} {l : List α}
    (h : ∀ x ∈ l, selector x ≤ selector best) : maxByFrom selector best l = best := by
  induction l with
  | nil => rfl
  | cons x l ih =>
    rw [maxByFrom, if_neg (by have := h x List.mem_cons_self; omega)]
    exact ih fun y hy => h y (List.mem_cons_of_mem _ hy)

/-- Among equal scores the first one wins. -/
theorem maxByOrNull_of_const {α : Type*} {selector : α → ℤ} {l : List α}
    (h : ∀ x ∈ l, ∀ y ∈ l, selector x = selector y) : maxByOrNull selector l = l.head? := by
  cases l with
  | nil => rfl
  | cons x l =>
    have hle : ∀ y ∈ l, selector y ≤ selector x := fun y hy =>
      (h y (List.mem_cons_of_mem _ hy) x List.mem_cons_self).le
    rw [maxByOrNull, maxByFrom_of_le hle, List.head?_cons]

/-- A backend is found by its id. -/
theorem find?_id_of_mem {l : List RootProvider} {p : RootProvider}
    (hl : (l.map RootProvider.id).Nodup) (hp : p ∈ l) :
    l.find? (fun q => q.id == p.id) = some p := by
  induction l with
  | nil => cases hp
  | cons q l ih =>
    rw [List.map_cons, List.nodup_cons] at hl
    rcases List.mem_cons.1 hp with rfl | hp
    · exact List.find?_cons_of_pos (by simp)
    · have hne : q.id ≠ p.id := fun h => hl.1 (h ▸ List.mem_map_of_mem hp)
      rw [List.find?_cons_of_neg (by simpa using hne)]
      exact ih hl.2 hp

theorem byId_of_mem {p : RootProvider} (hp : p ∈ backends.list) :
    byId backends p.id = some p :=
  find?_id_of_mem backends.nodup hp

/-- The available backends that advertise the capability. -/
def offering (backends : Backends) (answers : Answers) (capability : ProviderCapability) :
    List RootProvider :=
  backends.list.filter fun p => answers.available p && p.capabilities.contains capability

theorem scored_fresh (capability : ProviderCapability) (d : DeviceProfile) :
    scored backends capability (fresh backends answers d) =
      (offering backends answers capability).map fun p =>
        (p, scoreFor (analyze answers p d) capability) := by
  have key : ∀ l : List RootProvider, (∀ p ∈ l, byId backends p.id = some p) →
      scored backends capability (l.map fun p => analyze answers p d) =
        (l.filter fun p => answers.available p && p.capabilities.contains capability).map fun p =>
          (p, scoreFor (analyze answers p d) capability) := by
    intro l hl
    induction l with
    | nil => rfl
    | cons p l ih =>
      have hp := hl p List.mem_cons_self
      have hrest := ih fun q hq => hl q (List.mem_cons_of_mem _ hq)
      have hdetected : (analyze answers p d).detected = answers.available p := rfl
      have hid : (analyze answers p d).providerId = p.id := rfl
      unfold scored at hrest ⊢
      rw [List.map_cons, List.filter_cons, List.filter_cons, hdetected]
      cases hav : answers.available p with
      | false => exact hrest
      | true =>
        rw [if_pos rfl, List.filterMap_cons, hid, hp, Option.bind_some, Bool.true_and]
        cases hcap : p.capabilities.contains capability with
        | false => simpa using hrest
        | true => simpa using hrest
  exact key backends.list fun p hp => byId_of_mem hp

/-- Backends that offer a capability other than SELinux control get the same score for it. -/
theorem scoreFor_analyze_eq {p q : RootProvider} {capability : ProviderCapability}
    (hne : capability ≠ .selinuxControl) (hp : p ∈ offering backends answers capability)
    (hq : q ∈ offering backends answers capability) :
    scoreFor (analyze answers p d) capability = scoreFor (analyze answers q d) capability := by
  obtain ⟨-, hp⟩ := List.mem_filter.1 hp
  obtain ⟨-, hq⟩ := List.mem_filter.1 hq
  rw [Bool.and_eq_true] at hp hq
  have hcp : (countedCapabilities answers p).contains capability = true := by
    rw [countedCapabilities, if_pos hp.1, hp.2]
  have hcq : (countedCapabilities answers q).contains capability = true := by
    rw [countedCapabilities, if_pos hq.1, hq.2]
  cases capability with
  | selinuxControl => exact absurd rfl hne
  | rootExecution => simp only [scoreFor, analyze, hcp, hcq]
  | mountNamespace => simp only [scoreFor, analyze, hcp, hcq]
  | overlayFs => simp only [scoreFor, analyze, hcp, hcq]
  | systemProperty => simp only [scoreFor, analyze, hcp, hcq]
  | bootPatch => simp only [scoreFor, analyze, hcp, hcq]

/-- For every other capability the first backend that offers it is the best on every device. -/
theorem bestOf_fresh {capability : ProviderCapability} (hne : capability ≠ .selinuxControl)
    (d : DeviceProfile) :
    bestOf backends capability (fresh backends answers d) =
      (offering backends answers capability).head? := by
  have hconst : ∀ x ∈ scored backends capability (fresh backends answers d),
      ∀ y ∈ scored backends capability (fresh backends answers d), x.2 = y.2 := by
    rw [scored_fresh]
    intro x hx y hy
    obtain ⟨p, hp, rfl⟩ := List.mem_map.1 hx
    obtain ⟨q, hq, rfl⟩ := List.mem_map.1 hy
    exact scoreFor_analyze_eq hne hp hq
  rw [bestOf, maxByOrNull_of_const hconst, scored_fresh, List.head?_map, Option.map_map]
  exact congrFun Option.map_id _

/-! ### Runs -/

/-- Every `analyzeAll` of the run gives the reports of its own device. -/
def Analyzes (backends : Backends) (answers : Answers) (queries : List Query) : Prop :=
  ∀ pre device post, queries = pre ++ .analyzeAll device :: post →
    (analyzeAll backends answers device (run (step backends answers) new pre)).1 =
      fresh backends answers device

/-- Every `bestProvider` of the run chooses by its own device. -/
def Chooses (backends : Backends) (answers : Answers) (queries : List Query) : Prop :=
  ∀ pre capability device post, queries = pre ++ .bestProvider capability device :: post →
    (bestProvider backends answers capability device (run (step backends answers) new pre)).1 =
      bestOf backends capability (fresh backends answers device)

/-- **Along every run `analyzeAll` answers for the device it is asked about exactly when that device
agrees with the first one since the last `invalidate` in all that the analyzer reads, and
`bestProvider` does so whenever it is asked for another capability than SELinux control or the
devices agree.** -/
theorem perDevice_run (backends : Backends) (answers : Answers) (queries : List Query) :
    (Analyzes backends answers queries ↔
      ∀ pre device post, queries = pre ++ .analyzeAll device :: post →
        ∀ filled, filledFor pre = some filled → SameFor backends answers filled device) ∧
    ((∀ pre device post, queries = pre ++ .bestProvider .selinuxControl device :: post →
        ∀ filled, filledFor pre = some filled → SameFor backends answers filled device) →
      Chooses backends answers queries) := by
  constructor
  · refine forall_congr' fun pre => forall_congr' fun device => forall₂_congr fun post _ => ?_
    rw [analyzeAll_run]
    cases filledFor pre with
    | none => simp
    | some filled => simpa using fresh_eq_iff
  · intro hsame pre capability device post hcut
    show bestOf backends capability (analyzeAll backends answers device _).1 = _
    rw [analyzeAll_run]
    by_cases hne : capability = .selinuxControl
    · subst hne
      cases hfilled : filledFor pre with
      | none => rfl
      | some filled =>
        rw [Option.getD_some, fresh_eq_iff.2 (hsame pre device post hcut filled hfilled)]
    · rw [bestOf_fresh hne, bestOf_fresh hne]

/-- A device with OverlayFS in its kernel and a locked bootloader. -/
def lockedDevice : DeviceProfile :=
  ⟨ofString "Google", ofString "6.1", true, false, false⟩

/-- The same device with its bootloader unlocked. -/
def unlockedDevice : DeviceProfile := { lockedDevice with bootUnlocked := true }

/-- All backends are there, none has looked for its version. -/
def allAvailable : Answers := ⟨fun _ => true, fun _ => "unknown"⟩

/-- After a question about the locked device the unlocked one gets its reports and its best backend;
on its own it would get APatch. -/
theorem not_perDevice_unlocked :
    ¬ Analyzes providers allAvailable [.analyzeAll lockedDevice, .analyzeAll unlockedDevice] ∧
      ¬ Chooses providers allAvailable [.bestProvider .selinuxControl lockedDevice,
        .bestProvider .selinuxControl unlockedDevice] := by
  constructor
  · intro h
    have heq : fresh providers allAvailable lockedDevice =
        fresh providers allAvailable unlockedDevice :=
      h [.analyzeAll lockedDevice] unlockedDevice [] rfl
    have hagree := fresh_eq_iff.1 heq astraRoot List.mem_cons_self
    exact absurd (hagree.boot (by decide)) (by decide)
  · intro h
    have heq : bestOf providers .selinuxControl (fresh providers allAvailable lockedDevice) =
        bestOf providers .selinuxControl (fresh providers allAvailable unlockedDevice) :=
      h [.bestProvider .selinuxControl lockedDevice] .selinuxControl unlockedDevice [] rfl
    exact absurd heq (by decide)

end Registry

end AstraVeil.Providers
