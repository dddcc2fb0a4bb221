import AstraVeil.Kernel.Ioctl

/-!
# Loading policies one after the other

`ASTRA_SET_POLICY` appends to the table and `check_policy` stops at the first entry of a uid.  The
userspace side (`KernelBridge::load_policy`, `sync_policies_to_kernel`) treats the table as a map
from uids to policies, to be written again whenever they change.

* `entries_run_load`: the table is the list of the entries whose loading succeeded;
* `decidesByLatest_iff`, `reloads_iff`, `spaceRunsOut_iff`: when a table is as good as a map;
* `policyMap_iff`: the three together, for every history of loads.
-/

namespace AstraVeil.Kernel

/-! ### Histories -/

/-- A call of `ASTRA_SET_POLICY`, with the services that fail in it. -/
abbrev PolicyLoad := PolicyEntry × Faults

/-- The state after one load. -/
def load (k : State) (c : PolicyLoad) : State := (setPolicy k c.1 c.2).1

/-- The entries whose loading succeeds. -/
def loaded : State → List PolicyLoad → List PolicyEntry
  | _, [] => []
  | k, c :: cs =>
      match (setPolicy k c.1 c.2).2.1 with
      | .ok () => c.1 :: loaded (load k c) cs
      | .error _ => loaded (load k c) cs

/-- What the calls return. -/
def returns : State → List PolicyLoad → List Ret
  | _, [] => []
  | k, c :: cs => (setPolicy k c.1 c.2).2.1 :: returns (load k c) cs

/-- `load_policy` for a list of policies, where no service fails. -/
def loads (es : List PolicyEntry) : List PolicyLoad := es.map fun e => (e, Faults.none)

/-- The policies of `sync_policies_to_kernel`. -/
def syncedPolicies : List PolicyEntry := [⟨0, allCapsMask, 1⟩, ⟨2000, allCapsMask, 1⟩]

/-- What a load by root does. -/
theorem setPolicy_cases {k : State} (hroot : k.cred.uid = 0) (c : PolicyLoad) :
    (c.2.copyFromUser = false ∧ setPolicy k c.1 c.2 = (k, .error .EFAULT, .none)) ∨
    (c.2.copyFromUser = true ∧ k.table.entries.length = maxPolicies ∧
      setPolicy k c.1 c.2 = (k, .error .ENOSPC, .none)) ∨
    (c.2.copyFromUser = true ∧ k.table.entries.length < maxPolicies ∧
      ∃ t, t.entries = k.table.entries ++ [c.1] ∧
        setPolicy k c.1 c.2 = ({ k with table := t }, .ok (), .none)) := by
  obtain ⟨e, f⟩ := c
  unfold setPolicy
  rw [if_neg (not_not.2 hroot)]
  cases hf : f.copyFromUser with
  | false => exact Or.inl ⟨rfl, rfl⟩
  | true =>
    right
    by_cases hlt : k.table.entries.length < maxPolicies
    · refine Or.inr ⟨rfl, hlt, ⟨k.table.entries ++ [e], by simpa using hlt⟩, rfl, ?_⟩
      simp [PolicyTable.push, hlt]
    · refine Or.inl ⟨rfl, le_antisymm k.table.bound (not_lt.1 hlt), ?_⟩
      simp [PolicyTable.push, hlt]

theorem load_frame {k : State} (hroot : k.cred.uid = 0) (c : PolicyLoad) :
    (load k c).cred = k.cred ∧ (load k c).enforce = k.enforce := by
  unfold load
  rcases setPolicy_cases hroot c with ⟨-, h⟩ | ⟨-, -, h⟩ | ⟨-, -, t, -, h⟩ <;> rw [h] <;>
    exact ⟨rfl, rfl⟩

theorem run_load_frame {k : State} (hroot : k.cred.uid = 0) (cs : List PolicyLoad) :
    (Runs.run load k cs).cred = k.cred ∧ (Runs.run load k cs).enforce = k.enforce := by
  refine Runs.run_invariant (I := fun k' : State => k'.cred = k.cred ∧ k'.enforce = k.enforce) ?_
    ⟨rfl, rfl⟩ cs
  rintro k' c ⟨hc, he⟩
  have h := load_frame (k := k') (by rw [hc]; exact hroot) c
  exact ⟨h.1.trans hc, h.2.trans he⟩

/-- The table holds what has been loaded, in order. -/
theorem entries_run_load {k : State} (hroot : k.cred.uid = 0) (cs : List PolicyLoad) :
    (Runs.run load k cs).table.entries = k.table.entries ++ loaded k cs := by
  induction cs generalizing k with
  | nil => simp [loaded]
  | cons c cs ih =>
    have hroot' : (load k c).cred.uid = 0 := by rw [(load_frame hroot c).1]; exact hroot
    rw [Runs.run_cons, ih hroot', loaded]
    rcases setPolicy_cases hroot c with ⟨-, h⟩ | ⟨-, -, h⟩ | ⟨-, -, t, ht, h⟩
    · simp [h, load]
    · simp [h, load]
    · simp [h, load, ht]

/-! ### Decisions -/

/-- What an entry allows. -/
def PolicyEntry.allows (e : PolicyEntry) (caps : BitVec 64) (full : Bool) : Bool :=
  if full then e.allowFullRoot != 0 else (caps &&& e.allowedCaps) == caps

/-- The decision by an entry, or without one. -/
def decideBy (o : Option PolicyEntry) (caps : BitVec 64) (full : Bool) : Ret :=
  match o with
  | none => .error .EPERM
  | some e => if e.allows caps full then .ok () else .error .EPERM

/-- The entry loaded last for a uid. -/
def latest (es : List PolicyEntry) (uid : UInt32) : Option PolicyEntry :=
  es.reverse.find? fun e => e.uid = uid

/-- Two entries decide alike. -/
def SameRights (a b : PolicyEntry) : Prop :=
  a.allowedCaps = b.allowedCaps ∧ (a.allowFullRoot = 0 ↔ b.allowFullRoot = 0)

/-- The module decides by the entry loaded last. -/
def DecidesByLatest (k : State) (es : List PolicyEntry) : Prop :=
  ∀ uid caps full, checkPolicy k.enforce k.table uid caps full = decideBy (latest es uid) caps full

theorem checkPolicy_eq (t : PolicyTable) (uid : UInt32) (caps : BitVec 64) (full : Bool) :
    checkPolicy true t uid caps full = decideBy (t.entryFor uid) caps full := by
  unfold checkPolicy decideBy
  cases he : t.entryFor uid with
  | none => simp
  | some e =>
    have hlen := PolicyTable.length_ne_zero_of_entryFor he
    simp [hlen, PolicyEntry.allows]

theorem decideBy_some (e : PolicyEntry) (caps : BitVec 64) (full : Bool) :
    decideBy (some e) caps full = .ok () ↔ e.allows caps full = true := by
  cases h : e.allows caps full <;> simp [decideBy, h]

/-- Entries that decide every request alike have the same rights: ask for each of the masks. -/
theorem sameRights_iff {a b : PolicyEntry} :
    (∀ caps full, decideBy (some a) caps full = decideBy (some b) caps full) ↔ SameRights a b := by
  constructor
  · intro h
    have hall : ∀ caps full, a.allows caps full = true ↔ b.allows caps full = true := by
      intro caps full
      rw [← decideBy_some, ← decideBy_some, h]
    have hab : a.allowedCaps &&& b.allowedCaps = a.allowedCaps := by
      simpa [PolicyEntry.allows] using (hall a.allowedCaps false).1 (by simp [PolicyEntry.allows])
    have hba : b.allowedCaps &&& a.allowedCaps = b.allowedCaps := by
      simpa [PolicyEntry.allows] using (hall b.allowedCaps false).2 (by simp [PolicyEntry.allows])
    refine ⟨by rw [← hab, BitVec.and_comm, hba], ?_⟩
    have hfull := hall 0#64 true
    simp only [PolicyEntry.allows, if_true, bne_iff_ne] at hfull
    exact not_iff_not.1 hfull
  · rintro ⟨hcaps, hfull⟩ caps full
    have hne : (a.allowFullRoot != 0) = (b.allowFullRoot != 0) := by
      rw [Bool.eq_iff_iff, bne_iff_ne, bne_iff_ne]
      exact not_iff_not.2 hfull
    simp [decideBy, PolicyEntry.allows, hcaps, hne]

/-- First and last entry of every uid decide alike. -/
def Unchanged (es : List PolicyEntry) : Prop :=
  ∀ uid a b, es.find? (fun e => e.uid = uid) = some a → latest es uid = some b → SameRights a b

theorem decidesByLatest_iff {k : State} (henf : k.enforce = true) :
    DecidesByLatest k k.table.entries ↔ Unchanged k.table.entries := by
  unfold DecidesByLatest Unchanged
  simp only [henf, checkPolicy_eq, PolicyTable.entryFor]
  refine forall_congr' fun uid => ?_
  cases hf : k.table.entries.find? (fun e => e.uid = uid) with
  | none =>
    have hl : latest k.table.entries uid = none := by
      rw [latest, List.find?_eq_none]
      rw [List.find?_eq_none] at hf
      exact fun e he => hf e (List.mem_reverse.1 he)
    simp [hl]
  | some a =>
    cases hl : latest k.table.entries uid with
    | none =>
      have hn : k.table.entries.find? (fun e => e.uid = uid) = none := by
        rw [latest, List.find?_eq_none] at hl
        rw [List.find?_eq_none]
        exact fun e he => hl e (List.mem_reverse.2 he)
      rw [hn] at hf
      cases hf
    | some b =>
      rw [sameRights_iff]
      simp

/-! ### Loading a list twice -/

/-- A list of policies can be loaded a second time: no load fails and no decision changes. -/
def Reloads (k : State) (es : List PolicyEntry) : Prop :=
  let once := Runs.run load k (loads es)
  let twice := Runs.run load once (loads es)
  (∀ r ∈ returns once (loads es), r = .ok ()) ∧
    ∀ uid caps full, checkPolicy twice.enforce twice.table uid caps full =
      checkPolicy once.enforce once.table uid caps full

/-- The loads of a list succeed exactly if it fits; the table is full otherwise. -/
theorem loads_spec {k : State} (hroot : k.cred.uid = 0) (es : List PolicyEntry) :
    (k.table.entries.length + es.length ≤ maxPolicies →
      loaded k (loads es) = es ∧ ∀ r ∈ returns k (loads es), r = .ok ()) ∧
    (maxPolicies < k.table.entries.length + es.length →
      (Runs.run load k (loads es)).table.entries.length = maxPolicies ∧
        ¬ ∀ r ∈ returns k (loads es), r = .ok ()) := by
  induction es generalizing k with
  | nil =>
    have hb := k.table.bound
    exact ⟨fun _ => ⟨rfl, by simp [loads, returns]⟩, fun h => absurd h (by simpa using hb)⟩
  | cons e es ih =>
    have hroot' : (load k (e, Faults.none)).cred.uid = 0 := by
      rw [(load_frame hroot _).1]; exact hroot
    have ih := ih hroot'
    rcases setPolicy_cases hroot (e, Faults.none) with ⟨h, -⟩ | ⟨-, hlen, h⟩ | ⟨-, hlen, t, ht, h⟩
    · cases h
    · have hload : load k (e, Faults.none) = k := congrArg Prod.fst h
      refine ⟨fun hfit => ?_, fun _ => ?_⟩
      · rw [List.length_cons] at hfit
        omega
      · have hret : returns k (loads (e :: es)) =
            .error .ENOSPC :: returns (load k (e, Faults.none)) (loads es) := by
          simp [loads, returns, h]
        refine ⟨?_, fun hall => absurd (hall (.error .ENOSPC) (by rw [hret]; simp)) (by simp)⟩
        have hrun : Runs.run load k (loads (e :: es)) = Runs.run load k (loads es) := by
          rw [loads, List.map_cons, Runs.run_cons, hload]
          rfl
        rw [hrun]
        rw [hload] at ih
        rcases Nat.eq_zero_or_pos es.length with h0 | hpos
        · rw [List.length_eq_zero_iff] at h0
          subst h0
          exact hlen
        · exact (ih.2 (by omega)).1
    · have hlen' : (load k (e, Faults.none)).table.entries.length = k.table.entries.length + 1 := by
        simp [load, h, ht]
      have hret : returns k (loads (e :: es)) =
          .ok () :: returns (load k (e, Faults.none)) (loads es) := by
        simp [loads, returns, h]
      have hload :
          loaded k (loads (e :: es)) = e :: loaded (load k (e, Faults.none)) (loads es) := by
        simp [loads, loaded, h]
      rw [hlen'] at ih
      rw [hret, hload, List.length_cons]
      refine ⟨fun hfit => ?_, fun hover => ?_⟩
      · obtain ⟨h1, h2⟩ := ih.1 (by omega)
        exact ⟨by rw [h1], by simpa using h2⟩
      · obtain ⟨h1, h2⟩ := ih.2 (by omega)
        exact ⟨h1, by simpa using h2⟩

theorem reloads_iff {k : State} (hroot : k.cred.uid = 0) (henf : k.enforce = true)
    (es : List PolicyEntry) :
    Reloads k es ↔ k.table.entries.length + 2 * es.length ≤ maxPolicies := by
  have hcred := (run_load_frame hroot (loads es)).1
  have hroot₁ : (Runs.run load k (loads es)).cred.uid = 0 := by rw [hcred]; exact hroot
  have henf₁ : (Runs.run load k (loads es)).enforce = true :=
    (run_load_frame hroot (loads es)).2.trans henf
  have henf₂ : (Runs.run load (Runs.run load k (loads es)) (loads es)).enforce = true :=
    (run_load_frame hroot₁ (loads es)).2.trans henf₁
  have hspec := loads_spec hroot es
  have hspec₁ := loads_spec hroot₁ es
  have hents := entries_run_load hroot (loads es)
  have hents₁ := entries_run_load hroot₁ (loads es)
  by_cases hfit : k.table.entries.length + es.length ≤ maxPolicies
  · have hes := (hspec.1 hfit).1
    rw [hes] at hents
    rw [hents, List.length_append] at hspec₁
    by_cases htwice : k.table.entries.length + 2 * es.length ≤ maxPolicies
    · obtain ⟨hes₁, hret⟩ := hspec₁.1 (by omega)
      refine iff_of_true ⟨hret, fun uid caps full => ?_⟩ htwice
      rw [henf₁, henf₂, checkPolicy_eq, checkPolicy_eq]
      congr 1
      rw [PolicyTable.entryFor, PolicyTable.entryFor, hents₁, hes₁, hents, List.find?_append]
      -- the second copy of the list is searched only for uids that the first does not have
      cases hfind : (k.table.entries ++ es).find? (fun e => e.uid = uid) with
      | some a => rfl
      | none =>
        rw [List.find?_append, Option.or_eq_none_iff] at hfind
        rw [hfind.2]
        rfl
    · exact iff_of_false (fun h => (hspec₁.2 (by omega)).2 h.1) htwice
  · obtain ⟨hfull, -⟩ := hspec.2 (not_le.1 hfit)
    rw [hfull] at hspec₁
    have hb := k.table.bound
    exact iff_of_false (fun h => (hspec₁.2 (by omega)).2 h.1) (by omega)

/-! ### Running out of space -/

/-- The number of different uids. -/
def distinctUids (es : List PolicyEntry) : ℕ := (es.map PolicyEntry.uid).toFinset.card

/-- The load is refused for lack of space only if there are too many uids. -/
def SpaceRunsOut (k : State) (c : PolicyLoad) : Prop :=
  (setPolicy k c.1 c.2).2.1 = .error .ENOSPC →
    maxPolicies < distinctUids (k.table.entries ++ [c.1])

theorem spaceRunsOut_iff {k : State} (hroot : k.cred.uid = 0) (c : PolicyLoad) :
    SpaceRunsOut k c ↔ c.2.copyFromUser = false ∨ k.table.entries.length < maxPolicies ∨
      ((k.table.entries ++ [c.1]).map PolicyEntry.uid).Nodup := by
  unfold SpaceRunsOut distinctUids
  rcases setPolicy_cases hroot c with ⟨hf, h⟩ | ⟨hf, hlen, h⟩ | ⟨-, hlen, t, -, h⟩
  · simp [h, hf]
  · simp only [h, true_imp_iff, hf, Bool.true_eq_false, hlen, lt_irrefl, false_or]
    have hmap : ((k.table.entries ++ [c.1]).map PolicyEntry.uid).length = maxPolicies + 1 := by
      simp [hlen]
    constructor
    · intro hlt
      have hle := List.toFinset_card_le ((k.table.entries ++ [c.1]).map PolicyEntry.uid)
      rw [← Multiset.coe_nodup, ← Multiset.toFinset_card_eq_card_iff_nodup, Multiset.coe_card,
        List.toFinset_coe]
      omega
    · intro hnd
      rw [List.toFinset_card_of_nodup hnd, hmap]
      exact Nat.lt_succ_self _
  · simp [h, hlen]

/-! ### All histories -/

/-- **When the policy table is a map from uids to their latest policies.**  After any history of
loads by root, with `enforce=1`: it decides by the latest entries exactly if the first and the last
entry of every uid have the same rights; a list can be loaded twice exactly if there is room for
both copies; and space runs out only for too many uids exactly if there is room, or all uids
are different. -/
theorem policyMap_iff (k : State) (hroot : k.cred.uid = 0) (henf : k.enforce = true)
    (hempty : k.table.entries = []) (cs : List PolicyLoad) :
    (DecidesByLatest (Runs.run load k cs) (loaded k cs) ↔ Unchanged (loaded k cs)) ∧
    (∀ es, Reloads (Runs.run load k cs) es ↔
      (loaded k cs).length + 2 * es.length ≤ maxPolicies) ∧
    ∀ c, SpaceRunsOut (Runs.run load k cs) c ↔ c.2.copyFromUser = false ∨
      (loaded k cs).length < maxPolicies ∨
      ((loaded k cs ++ [c.1]).map PolicyEntry.uid).Nodup := by
  obtain ⟨hcred, henf'⟩ := run_load_frame hroot cs
  have hroot' : (Runs.run load k cs).cred.uid = 0 := by rw [hcred]; exact hroot
  have hents : (Runs.run load k cs).table.entries = loaded k cs := by
    rw [entries_run_load hroot cs, hempty, List.nil_append]
  rw [← hents]
  exact ⟨decidesByLatest_iff (henf'.trans henf), reloads_iff hroot' (henf'.trans henf),
    spaceRunsOut_iff hroot'⟩

/-- astrad in front of the empty table. -/
def astrad : State where
  enforce := true
  table := PolicyTable.empty
  cred := initCred

theorem policyMap_syncedPolicies :
    DecidesByLatest (Runs.run load astrad (loads syncedPolicies)) syncedPolicies ∧
      Reloads (Runs.run load astrad (loads syncedPolicies)) syncedPolicies := by
  have hl : loaded astrad (loads syncedPolicies) = syncedPolicies := by decide
  have h := policyMap_iff astrad rfl rfl rfl (loads syncedPolicies)
  rw [hl] at h
  refine ⟨h.1.2 ?_, (h.2.1 syncedPolicies).2 (by decide)⟩
  intro uid a b ha hb
  have hall : ∀ e ∈ syncedPolicies, SameRights ⟨0, allCapsMask, 1⟩ e := by
    intro e he
    rcases List.mem_pair.1 he with rfl | rfl <;> exact ⟨rfl, by decide⟩
  have ha' := hall a (List.mem_of_find?_eq_some ha)
  have hb' := hall b (List.mem_reverse.1 (List.mem_of_find?_eq_some hb))
  exact ⟨ha'.1.symm.trans hb'.1, ha'.2.symm.trans hb'.2⟩

/-- The policy of an app is withdrawn; it is granted full root all the same. -/
theorem policyMap_withdrawn :
    let history := loads [⟨10123, allCapsMask, 1⟩, ⟨10123, 0#64, 0⟩]
    loaded astrad history = [⟨10123, allCapsMask, 1⟩, ⟨10123, 0#64, 0⟩] ∧
      checkPolicy true (Runs.run load astrad history).table 10123 0#64 true = .ok () ∧
      ¬ DecidesByLatest (Runs.run load astrad history) (loaded astrad history) := by
  intro history
  have hcheck : checkPolicy true (Runs.run load astrad history).table 10123 0#64 true = .ok () := by
    decide
  refine ⟨by decide, hcheck, fun h => ?_⟩
  have hlast := h 10123 0#64 true
  have henf : (Runs.run load astrad history).enforce = true := by decide
  rw [henf, hcheck] at hlast
  exact absurd hlast (by decide)

end AstraVeil.Kernel
