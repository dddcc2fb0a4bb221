import AstraVeil.Providers.Registry
import Mathlib.Data.List.Find

/-!
# The watchdog

`providers/watchdog/ProviderWatchdog.kt`: every probe asks the registry for the active backend and
all backends whether they are there, and moves on to another one when the active one is gone.  What
the backends answer is free at every probe and constant within it.

* `NamedBackends`: backends none of which is called `none`;
* `probe_kept`, `probe_none`, `probe_swapped`, `probe_lost`: the four ways a probe ends;
* `Truthful`: what the status and the events say is so;
* `truthful_iff`: that a probe is truthful exactly when an active backend that is gone can be
  replaced;
* `truthful_run_iff`: the same for all probes of a run.
-/

namespace AstraVeil.Providers

open Runs

/-- `ProviderEvent`; the events carry the old id first. -/
inductive ProviderEvent
  | switching (previous : String) (available : List String)
  | switched (previous next : String)
  | allLost (lastActive : String)
  deriving DecidableEq

/-- The event is a `Switched`. -/
def ProviderEvent.isSwitched : ProviderEvent → Bool
  | .switched _ _ => true
  | _ => false

/-- `Status`. -/
structure Status where
  activeProviderId : String
  availableProviders : List String
  lastProbeMs : Int64
  switchCount : Int32
  healthy : Bool

/-- `ProviderWatchdog`, with its registry and what it has put on the event bus. -/
structure Watchdog where
  registry : Registry
  switchCount : Int32
  currentActiveId : String
  status : Status
  events : List ProviderEvent

/-- What a probe finds: the backends' answers and the clock. -/
structure Probe where
  available : RootProvider → Bool
  now : Int64

/-- Backends none of which has the id `none`, by which the watchdog means that there is no active
one. -/
structure NamedBackends extends Backends where
  ne_none : "none" ∉ list.map RootProvider.id

instance : Coe NamedBackends Backends := ⟨NamedBackends.toBackends⟩

/-- The shipped backends. -/
def shipped : NamedBackends := { providers with ne_none := by decide }

namespace Watchdog

/-- The watchdog before its first probe. -/
def new : Watchdog where
  registry := .new
  switchCount := 0
  currentActiveId := "none"
  status := ⟨"none", [], 0, 0, false⟩
  events := []

/-- `eventBus.emit`. -/
def emit (w : Watchdog) (event : ProviderEvent) : Watchdog :=
  { w with events := w.events ++ [event] }

/-- `activeProvider?.id ?: "none"`. -/
def idOrNone : Option RootProvider → String
  | some provider => provider.id
  | none => "none"

section

variable (backends : Backends)

/-- The branch for an active backend that is gone. -/
def hotSwap (w : Watchdog) (available : List String) : Watchdog :=
  let w := w.emit (.switching w.currentActiveId available)
  if available.isEmpty then w.emit (.allLost w.currentActiveId)
  else
    match backends.list.find? fun p => available.contains p.id with
    | none => w
    | some newActive =>
        { w.emit (.switched w.currentActiveId newActive.id) with
          registry := w.registry.invalidate
          switchCount := w.switchCount + 1
          currentActiveId := newActive.id }

/-- The ids of the backends that are there. -/
def availableIds (a : Probe) : List String := (backends.list.filter a.available).map (·.id)

/-- `probe`. -/
def probe (w : Watchdog) (a : Probe) : Watchdog :=
  let (activeProvider, registry) := w.registry.activeProvider backends a.available
  let w₁ := { w with registry := registry, currentActiveId := idOrNone activeProvider }
  let available := availableIds backends a
  let activeStillAlive :=
    backends.list.any fun p => a.available p && p.id == w₁.currentActiveId
  let w₂ :=
    if !activeStillAlive && w₁.currentActiveId != "none" then hotSwap backends w₁ available
    else w₁
  { w₂ with
    status := ⟨w₂.currentActiveId, available, a.now, w₂.switchCount, !available.isEmpty⟩ }

/-- After the probe `a` the status names a backend that is there, or `none` when there is none; its
counter is the number of `Switched` events so far; and the probe's own `Switched` events lead from
the id that the last status named to a backend that is there. -/
structure Truthful (w : Watchdog) (a : Probe) : Prop where
  active : (probe backends w a).status.activeProviderId = "none" ∨
    (probe backends w a).status.activeProviderId ∈ (probe backends w a).status.availableProviders
  none_only : (probe backends w a).status.activeProviderId = "none" →
    ∀ p ∈ backends.list, a.available p = false
  count : (probe backends w a).status.switchCount.toInt =
    (probe backends w a).events.countP ProviderEvent.isSwitched
  switched : ∃ events, (probe backends w a).events = w.events ++ events ∧
    ∀ previous next, .switched previous next ∈ events →
      previous = w.status.activeProviderId ∧
        ∃ p ∈ backends.list, p.id = next ∧ a.available p = true

/-- If the cached active backend is gone, another one is there, and the counter has room. -/
def Replaceable (w : Watchdog) (a : Probe) : Prop :=
  ∀ p ∈ backends.list, w.registry.cachedActive = some p.id → a.available p = false →
    (∃ q ∈ backends.list, a.available q = true) ∧ w.switchCount.toInt < 2 ^ 31 - 1

/-- The cached active backend is one of the registry's and the one the status names; the counter
counts. -/
structure Inv (w : Watchdog) : Prop where
  cached : ∀ name, w.registry.cachedActive = some name →
    name = w.status.activeProviderId ∧ ∃ p ∈ backends.list, p.id = name
  count : w.switchCount.toInt = w.events.countP ProviderEvent.isSwitched

end

variable {backends : NamedBackends} {w : Watchdog} {a : Probe}

/-! ### The ways a probe ends -/

theorem id_ne_none {p : RootProvider} (hp : p ∈ backends.list) : p.id ≠ "none" :=
  fun h => backends.ne_none (h ▸ List.mem_map_of_mem hp)

theorem eq_of_id_eq {p q : RootProvider} (hp : p ∈ backends.list) (hq : q ∈ backends.list)
    (h : p.id = q.id) : p = q := by
  have hbyId := Registry.byId_of_mem hp
  rw [h, Registry.byId_of_mem hq] at hbyId
  exact (Option.some.inj hbyId).symm

theorem mem_availableIds {id : String} :
    id ∈ availableIds backends a ↔ ∃ p ∈ backends.list, a.available p = true ∧ p.id = id := by
  simp [availableIds, and_assoc]

/-- The active backend is found alive exactly when it is available. -/
theorem any_alive {p : RootProvider} (hp : p ∈ backends.list) :
    (backends.list.any fun q => a.available q && q.id == p.id) = a.available p := by
  rw [Bool.eq_iff_iff, List.any_eq_true]
  constructor
  · rintro ⟨q, hq, hqp⟩
    rw [Bool.and_eq_true, beq_iff_eq] at hqp
    rw [← eq_of_id_eq hq hp hqp.2]
    exact hqp.1
  · exact fun h => ⟨p, hp, by simp [h]⟩

/-- The backend that a swap takes is the first one that is there. -/
theorem find_available : (backends.list.find? fun p => (availableIds backends a).contains p.id) =
    backends.list.find? a.available := by
  refine List.find?_congr fun p hp => ?_
  rw [Bool.eq_iff_iff, List.contains_iff_mem, mem_availableIds]
  constructor
  · rintro ⟨q, hq, hav, hqp⟩
    rw [← eq_of_id_eq hq hp hqp]
    exact hav
  · exact fun hav => ⟨p, hp, hav, rfl⟩

/-- The status after a probe that leaves the watchdog as `w`. -/
def report (backends : Backends) (w : Watchdog) (a : Probe) : Watchdog :=
  { w with
    status := ⟨w.currentActiveId, availableIds backends a, a.now, w.switchCount,
      !(availableIds backends a).isEmpty⟩ }

theorem probe_none {r : Registry}
    (h : w.registry.activeProvider backends a.available = (none, r)) :
    probe backends w a = report backends { w with registry := r, currentActiveId := "none" } a := by
  simp [probe, report, h, idOrNone]

theorem probe_kept {p : RootProvider} {r : Registry} (hp : p ∈ backends.list)
    (h : w.registry.activeProvider backends a.available = (some p, r))
    (hav : a.available p = true) :
    probe backends w a = report backends { w with registry := r, currentActiveId := p.id } a := by
  simp [probe, report, h, idOrNone, any_alive hp, hav]

theorem probe_swapped {p q : RootProvider} {r : Registry} (hp : p ∈ backends.list)
    (h : w.registry.activeProvider backends a.available = (some p, r))
    (hav : a.available p = false) (hq : backends.list.find? a.available = some q) :
    probe backends w a = report backends
      { w with
        registry := .new
        switchCount := w.switchCount + 1
        currentActiveId := q.id
        events := w.events ++
          [.switching p.id (availableIds backends a), .switched p.id q.id] } a := by
  have hne : (availableIds backends a).isEmpty = false := by
    rw [List.isEmpty_eq_false_iff_exists_mem]
    exact ⟨q.id, mem_availableIds.2 ⟨q, List.mem_of_find?_eq_some hq, List.find?_some hq, rfl⟩⟩
  simp [-List.contains_eq_mem, probe, report, h, idOrNone, any_alive hp, hav, id_ne_none hp,
    hotSwap, hne, find_available, hq, emit, Registry.invalidate]

theorem probe_lost {p : RootProvider} {r : Registry} (hp : p ∈ backends.list)
    (h : w.registry.activeProvider backends a.available = (some p, r))
    (hav : ∀ q ∈ backends.list, a.available q = false) :
    probe backends w a = report backends
      { w with
        registry := r
        currentActiveId := p.id
        events := w.events ++ [.switching p.id (availableIds backends a), .allLost p.id] } a := by
  have hempty : availableIds backends a = [] := by
    rw [List.eq_nil_iff_forall_not_mem]
    intro id hid
    obtain ⟨q, hq, hqav, -⟩ := mem_availableIds.1 hid
    rw [hav q hq] at hqav
    cases hqav
  simp [probe, report, h, idOrNone, any_alive hp, hav p hp, id_ne_none hp, hotSwap, hempty, emit]

theorem activeProvider_cached {r : Registry} {p : RootProvider} (hp : p ∈ backends.list)
    (h : r.cachedActive = some p.id) (available : RootProvider → Bool) :
    r.activeProvider backends available = (some p, r) := by
  simp [Registry.activeProvider, h, Registry.byId_of_mem hp]

theorem activeProvider_found {r : Registry} {p : RootProvider} {available : RootProvider → Bool}
    (h : r.cachedActive = none) (hp : backends.list.find? available = some p) :
    r.activeProvider backends available = (some p, { r with cachedActive := some p.id }) := by
  simp [Registry.activeProvider, Registry.detectActive, h, hp,
    Registry.byId_of_mem (List.mem_of_find?_eq_some hp)]

theorem activeProvider_missing {r : Registry} {available : RootProvider → Bool}
    (h : r.cachedActive = none) (hp : backends.list.find? available = none) :
    r.activeProvider backends available = (none, r) := by
  simp [Registry.activeProvider, Registry.detectActive, h, hp]

/-- The ways a probe can go: nothing is there, a backend is found or still there, the active one is
replaced, or it is lost. -/
theorem probe_cases (hw : Inv backends w) (a : Probe) :
    (w.registry.cachedActive = none ∧ (∀ q ∈ backends.list, a.available q = false) ∧
      probe backends w a = report backends { w with currentActiveId := "none" } a) ∨
    (∃ p ∈ backends.list, a.available p = true ∧
      (∀ name, w.registry.cachedActive = some name → name = p.id) ∧
      probe backends w a = report backends
        { w with
          registry := { w.registry with cachedActive := some p.id }
          currentActiveId := p.id } a) ∨
    (∃ p ∈ backends.list, w.registry.cachedActive = some p.id ∧ a.available p = false ∧
      ∃ q ∈ backends.list, a.available q = true ∧
        probe backends w a = report backends
          { w with
            registry := .new
            switchCount := w.switchCount + 1
            currentActiveId := q.id
            events := w.events ++
              [.switching p.id (availableIds backends a), .switched p.id q.id] } a) ∨
    (∃ p ∈ backends.list, w.registry.cachedActive = some p.id ∧
      (∀ q ∈ backends.list, a.available q = false) ∧
      probe backends w a = report backends
        { w with
          currentActiveId := p.id
          events := w.events ++
            [.switching p.id (availableIds backends a), .allLost p.id] } a) := by
  cases hcached : w.registry.cachedActive with
  | none =>
    cases hfind : backends.list.find? a.available with
    | none =>
      refine Or.inl ⟨rfl, ?_, probe_none (activeProvider_missing hcached hfind)⟩
      simpa using hfind
    | some p =>
      have hp := List.mem_of_find?_eq_some hfind
      have hav : a.available p = true := List.find?_some hfind
      exact Or.inr (Or.inl ⟨p, hp, hav, by simp,
        probe_kept hp (activeProvider_found hcached hfind) hav⟩)
  | some name =>
    obtain ⟨-, p, hp, rfl⟩ := hw.cached name hcached
    have hactive := activeProvider_cached hp hcached a.available
    cases hav : a.available p with
    | true =>
      refine Or.inr (Or.inl ⟨p, hp, hav, by simp, ?_⟩)
      rw [probe_kept hp hactive hav, ← hcached]
    | false =>
      cases hfind : backends.list.find? a.available with
      | none =>
        have hall : ∀ q ∈ backends.list, a.available q = false := by simpa using hfind
        exact Or.inr (Or.inr (Or.inr ⟨p, hp, rfl, hall, probe_lost hp hactive hall⟩))
      | some q =>
        exact Or.inr (Or.inr (Or.inl ⟨p, hp, rfl, hav, q, List.mem_of_find?_eq_some hfind,
          List.find?_some hfind, probe_swapped hp hactive hav hfind⟩))

/-! ### One probe -/

theorem toInt_add_one {n : Int32} (h : n.toInt < 2 ^ 31 - 1) : (n + 1).toInt = n.toInt + 1 := by
  have hlow := n.le_toInt
  rw [Int32.toInt_add, Int32.toInt_one, Int.bmod_eq_of_le]
  · omega
  · omega

theorem toInt_add_one_of_max {n : Int32} (h : ¬ n.toInt < 2 ^ 31 - 1) :
    (n + 1).toInt = -2 ^ 31 := by
  obtain rfl : n = Int32.maxValue := by
    have hhigh := n.toInt_lt
    apply Int32.toInt_inj.1
    show n.toInt = 2 ^ 31 - 1
    omega
  rfl

/-- A counter that was right is right after one more exactly if it had room. -/
theorem toInt_add_one_iff {n : Int32} {k : ℕ} (h : n.toInt = k) :
    (n + 1).toInt = ((k + 1 : ℕ) : ℤ) ↔ n.toInt < 2 ^ 31 - 1 := by
  by_cases hmax : n.toInt < 2 ^ 31 - 1
  · refine iff_of_true ?_ hmax
    rw [toInt_add_one hmax, h]
    simp
  · refine iff_of_false ?_ hmax
    rw [toInt_add_one_of_max hmax]
    omega

theorem countP_swapped (events : List ProviderEvent) (ids : List String) (previous next : String) :
    (events ++ [ProviderEvent.switching previous ids, ProviderEvent.switched previous next]).countP
      ProviderEvent.isSwitched = events.countP ProviderEvent.isSwitched + 1 := by
  simp [ProviderEvent.isSwitched, List.countP_append, List.countP_cons]

/-- With every backend gone there is nothing to replace the active one. -/
theorem not_replaceable_of_lost {p : RootProvider} (hp : p ∈ backends.list)
    (hcached : w.registry.cachedActive = some p.id)
    (hall : ∀ q ∈ backends.list, a.available q = false) : ¬ Replaceable backends w a := by
  intro h
  obtain ⟨⟨q, hq, hqav⟩, -⟩ := h p hp hcached (hall p hp)
  rw [hall q hq] at hqav
  cases hqav

theorem inv_new : Inv backends new where
  cached := by simp [new, Registry.new]
  count := rfl

/-- A probe that finds the active backend replaceable leaves the invariant. -/
theorem inv_probe (hw : Inv backends w) (h : Replaceable backends w a) :
    Inv backends (probe backends w a) := by
  obtain ⟨hcached, -, heq⟩ | ⟨p, hp, hav, -, heq⟩ | ⟨p, hp, hcached, hav, q, hq, hqav, heq⟩ |
    ⟨p, hp, hcached, hall, -⟩ := probe_cases hw a
  · rw [heq]
    exact ⟨by simp [report, hcached], hw.count⟩
  · rw [heq]
    refine ⟨?_, hw.count⟩
    rintro name ⟨⟩
    exact ⟨rfl, p, hp, rfl⟩
  · rw [heq]
    refine ⟨by simp [report, Registry.new], ?_⟩
    simp only [report, countP_swapped]
    exact (toInt_add_one_iff hw.count).2 (h p hp hcached hav).2
  · exact absurd h (not_replaceable_of_lost hp hcached hall)

/-- A probe is truthful exactly when the active backend, if gone, is replaceable. -/
theorem truthful_iff (hw : Inv backends w) : Truthful backends w a ↔ Replaceable backends w a := by
  obtain ⟨hcached, hall, heq⟩ | ⟨p, hp, hav, hname, heq⟩ |
    ⟨p, hp, hcached, hav, q, hq, hqav, heq⟩ | ⟨p, hp, hcached, hall, heq⟩ := probe_cases hw a
  · refine iff_of_true ⟨?_, ?_, ?_, ?_⟩ ?_
    · exact Or.inl (by rw [heq]; rfl)
    · exact fun _ => hall
    · rw [heq]
      exact hw.count
    · exact ⟨[], by rw [heq]; simp [report], by simp⟩
    · intro p _ hsome
      rw [hcached] at hsome
      cases hsome
  · refine iff_of_true ⟨?_, ?_, ?_, ?_⟩ ?_
    · rw [heq]
      exact Or.inr (mem_availableIds.2 ⟨p, hp, hav, rfl⟩)
    · rw [heq]
      exact fun hnone => absurd hnone (id_ne_none hp)
    · rw [heq]
      exact hw.count
    · exact ⟨[], by rw [heq]; simp [report], by simp⟩
    · intro q hq hsome hqav
      rw [eq_of_id_eq hq hp (hname q.id hsome), hav] at hqav
      cases hqav
  · -- the active backend is replaced: only the counter can fail
    have hcount : (probe backends w a).status.switchCount.toInt =
          (probe backends w a).events.countP ProviderEvent.isSwitched ↔
        w.switchCount.toInt < 2 ^ 31 - 1 := by
      rw [heq]
      simp only [report, countP_swapped]
      exact toInt_add_one_iff hw.count
    constructor
    · intro ht p' hp' hsome _
      exact ⟨⟨q, hq, hqav⟩, hcount.1 ht.count⟩
    · intro hr
      refine ⟨?_, ?_, hcount.2 (hr p hp hcached hav).2, ?_⟩
      · rw [heq]
        exact Or.inr (mem_availableIds.2 ⟨q, hq, hqav, rfl⟩)
      · rw [heq]
        exact fun hnone => absurd hnone (id_ne_none hq)
      · refine ⟨[.switching p.id (availableIds backends a), .switched p.id q.id],
          by rw [heq]; rfl, ?_⟩
        intro previous next hmem
        obtain ⟨rfl, rfl⟩ : previous = p.id ∧ next = q.id := by simpa using hmem
        exact ⟨(hw.cached _ hcached).1, q, hq, rfl, hqav⟩
  · -- the active backend is lost: its id stays in the status
    refine iff_of_false (fun ht => ?_) (not_replaceable_of_lost hp hcached hall)
    have hactive := ht.active
    rw [heq] at hactive
    rcases hactive with hnone | hmem
    · exact id_ne_none hp hnone
    · obtain ⟨q, hq, hqav, -⟩ := mem_availableIds.1 hmem
      rw [hall q hq] at hqav
      cases hqav

/-! ### Runs -/

/-- **All probes of a run are truthful exactly when, at each of them, the cached active backend is
still there or another one is (with room in the counter).** -/
theorem truthful_run_iff (backends : NamedBackends) (probes : List Probe) :
    (∀ pre a post, probes = pre ++ a :: post →
      Truthful backends (run (probe backends) new pre) a) ↔
      Along (probe backends) (Replaceable backends) new probes := by
  rw [← along_iff]
  exact along_congr_of (I := Inv backends) (fun _ _ hw => truthful_iff hw)
    (fun _ _ hw hr => inv_probe hw hr) inv_new

/-- While AstraRoot, the first of the shipped backends, is found by every probe, as its own
`available()` has it, nothing is ever replaced. -/
theorem replaceable_of_astraRoot {probes : List Probe}
    (h : ∀ a ∈ probes, a.available astraRoot = true) :
    Along (probe shipped) (Replaceable shipped) new probes := by
  have key : ∀ w : Watchdog, (∀ name, w.registry.cachedActive = some name → name = astraRoot.id) →
      Along (probe shipped) (Replaceable shipped) w probes := by
    induction probes with
    | nil => exact fun _ _ => trivial
    | cons a probes ih =>
      intro w hcached
      have hav := h a List.mem_cons_self
      have hroot : astraRoot ∈ shipped.list := List.mem_cons_self
      refine ⟨?_, ih (fun b hb => h b (List.mem_cons_of_mem _ hb)) _ ?_⟩
      · intro p hp hsome hgone
        rw [eq_of_id_eq hp hroot (hcached p.id hsome), hav] at hgone
        cases hgone
      · -- the registry answers AstraRoot, from its cache or as the first one it finds
        cases hname : w.registry.cachedActive with
        | none =>
          have hfirst : shipped.list.find? a.available = some astraRoot :=
            List.find?_cons_of_pos hav
          rw [probe_kept hroot (activeProvider_found hname hfirst) hav]
          rintro name ⟨⟩
          rfl
        | some name =>
          obtain rfl := hcached name hname
          rw [probe_kept hroot (activeProvider_cached hroot hname _) hav]
          exact hcached
  exact key new (by simp [new, Registry.new])

/-- A probe that finds only Magisk. -/
def magiskOnly : Probe := ⟨fun p => p.id == "magisk", 0⟩

/-- A probe that finds no backend. -/
def nothing : Probe := ⟨fun _ => false, 30000⟩

/-- After Magisk is gone and nothing else is there, the status still names it. -/
theorem not_truthful_lost :
    ¬ ∀ probes pre a post, probes = pre ++ a :: post →
      Truthful shipped (run (probe shipped) new pre) a := by
  intro h
  have hactive := (h [magiskOnly, nothing] [magiskOnly] nothing [] rfl).active
  exact absurd hactive (by decide)

end Watchdog

end AstraVeil.Providers
