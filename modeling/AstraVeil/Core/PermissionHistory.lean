import AstraVeil.Core.Permissions
import AstraVeil.Lib.Runs
import AstraVeil.Rust.PolicyEngine

/-!
# Histories of the permission engine

Every sequence of calls of `core/permission/PermissionEngine.kt`, from a new engine: where the
permissions that a module holds come from, compared with the approvals that `policy.rs` asks for,
and what an observer of the emitted events knows of them.

* `approved_iff`: a permission of the Rust denylist is held without a grant, a load or an approved
  request exactly when `ptrace`, which the Kotlin list lacks, was requested without approval;
* `replica_iff`: an observer that follows the events holds what the engine holds exactly as long as
  `loadPermissions`, which emits none, changes nothing.
-/

namespace AstraVeil.Core

open Utf16 Finmaps Runs

/-- The calls that change the engine. -/
inductive PermissionOp
  | loadPermissions (data : Grants)
  | request (moduleId permission : JString)
  | grant (moduleId permission : JString)
  | revoke (moduleId permission : JString)
  | revokeAll (moduleId : JString)
  | setDangerousApproval (approved : Bool)

namespace PermissionEngine

/-- The engine after a call. -/
def step (e : PermissionEngine) : PermissionOp → PermissionEngine
  | .loadPermissions data => e.loadPermissions data
  | .request moduleId permission => (e.request moduleId permission).2
  | .grant moduleId permission => e.grant moduleId permission
  | .revoke moduleId permission => e.revoke moduleId permission
  | .revokeAll moduleId => e.revokeAll moduleId
  | .setDangerousApproval approved => e.setDangerousApproval approved

variable {e : PermissionEngine} {m p : JString}

theorem request_eq (e : PermissionEngine) (m p : JString) :
    (e.request m p).2 = if e.allows p then e.grant m p else e := by
  unfold request
  split_ifs <;> rfl

/-! ### Where permissions come from -/

/-- The call gives the permission: a grant, a load, or a request with approval. -/
def Gives (e : PermissionEngine) (m p : JString) : PermissionOp → Prop
  | .loadPermissions data => p ∈ data.list m
  | .request m' p' => m' = m ∧ p' = p ∧ e.dangerousApproval = true
  | .grant m' p' => m' = m ∧ p' = p
  | _ => False

/-- The module has held the permission ever since one of these calls. -/
def Given (ops : List PermissionOp) (m p : JString) : Prop :=
  ∃ pre op post, ops = pre ++ op :: post ∧ Gives (run step empty pre) m p op ∧
    ∀ q, q <+: post → p ∈ (run step empty (pre ++ op :: q)).list m

/-- The Rust engine asks for approval, under some registered policy. -/
def NeedsApproval (p : JString) : Prop :=
  ∃ name engine moduleId, p = ofString name ∧
    Rust.PolicyEngine.evaluate engine moduleId name = .requireApproval

/-- Every permission of the Rust denylist that is held was given. -/
def Accounted (ops : List PermissionOp) : Prop :=
  ∀ m, ∀ name ∈ Rust.denylist, ofString name ∈ (run step empty ops).list m →
    Given ops m (ofString name)

/-- With approval withheld a request gives no permission that needs approval. -/
def Withholds (e : PermissionEngine) : PermissionOp → Prop
  | .request m p => e.dangerousApproval = false → NeedsApproval p →
      p ∈ (e.step (.request m p)).list m → p ∈ e.list m
  | _ => True

/-- The call is not a request for `ptrace`, by a module that does not hold it, without approval. -/
def NoPtrace (e : PermissionEngine) : PermissionOp → Prop
  | .request m p => p = ofString "ptrace" → e.dangerousApproval = true ∨ p ∈ e.list m
  | _ => True

/-- The one name that is on the Rust list only. -/
theorem dangerous_of_mem_denylist {name : String} (h : name ∈ Rust.denylist)
    (hne : name ≠ "ptrace") : ofString name ∈ dangerousPermissions := by
  simp only [Rust.denylist, List.mem_cons, List.not_mem_nil, or_false] at h
  unfold dangerousPermissions
  rcases h with rfl | rfl | rfl | rfl | rfl
  · exact List.mem_map_of_mem (by simp)
  · exact List.mem_map_of_mem (by simp)
  · exact List.mem_map_of_mem (by simp)
  · exact absurd rfl hne
  · exact List.mem_map_of_mem (by simp)

theorem ptrace_notMem_dangerous : ofString "ptrace" ∉ dangerousPermissions := by decide

/-- Without approval only what is not on the Kotlin list passes. -/
theorem allows_iff_of_withheld (h : e.dangerousApproval = false) :
    e.allows p = true ↔ p ∉ dangerousPermissions := by
  simp [allows, h]

/-- A permission that appears with a call was given by it, or requested without approval. -/
theorem gives_of_new {op : PermissionOp} (hbefore : p ∉ e.list m)
    (hafter : p ∈ (e.step op).list m) :
    Gives e m p op ∨
      (op = .request m p ∧ e.dangerousApproval = false ∧ p ∉ dangerousPermissions) := by
  cases op with
  | loadPermissions data => exact Or.inl hafter
  | request m' p' =>
    rw [step, request_eq] at hafter
    split_ifs at hafter with hok
    · rcases mem_list_grant.1 hafter with ⟨rfl, rfl⟩ | hold
      · cases happ : e.dangerousApproval with
        | true => exact Or.inl ⟨rfl, rfl, happ⟩
        | false => exact Or.inr ⟨rfl, rfl, (allows_iff_of_withheld happ).1 hok⟩
      · exact absurd hold hbefore
    · exact absurd hafter hbefore
  | grant m' p' =>
    rcases mem_list_grant.1 hafter with ⟨rfl, rfl⟩ | hold
    · exact Or.inl ⟨rfl, rfl⟩
    · exact absurd hold hbefore
  | revoke m' p' => exact absurd (mem_list_revoke.1 hafter).2 hbefore
  | revokeAll m' =>
    rw [step, list_revokeAll] at hafter
    split_ifs at hafter
    · simp at hafter
    · exact absurd hafter hbefore
  | setDangerousApproval approved => exact absurd hafter hbefore

/-- What was given stays given as long as it is held. -/
theorem Given.snoc {ops : List PermissionOp} (h : Given ops m p) {op : PermissionOp}
    (hheld : p ∈ (run step empty (ops ++ [op])).list m) : Given (ops ++ [op]) m p := by
  obtain ⟨pre, op', post, rfl, hgives, hsince⟩ := h
  refine ⟨pre, op', post ++ [op], by simp, hgives, fun q hq => ?_⟩
  rcases List.prefix_concat_iff.1 hq with rfl | hq
  · simpa using hheld
  · exact hsince q hq

theorem given_of_gives {ops : List PermissionOp} {op : PermissionOp}
    (h : Gives (run step empty ops) m p op)
    (hheld : p ∈ (run step empty (ops ++ [op])).list m) : Given (ops ++ [op]) m p := by
  refine ⟨ops, op, [], rfl, h, fun q hq => ?_⟩
  rw [List.prefix_nil.1 hq]
  exact hheld

theorem accounted_nil : Accounted [] := by
  intro m name _ hheld
  simp [empty, list, Grants.list] at hheld

/-- A call other than an unapproved request for `ptrace` leaves everything accounted for. -/
theorem Accounted.snoc {ops : List PermissionOp} (h : Accounted ops) {op : PermissionOp}
    (hok : NoPtrace (run step empty ops) op) : Accounted (ops ++ [op]) := by
  intro m name hname hheld
  by_cases hbefore : ofString name ∈ (run step empty ops).list m
  · exact (h m name hname hbefore).snoc hheld
  · have hafter := hheld
    rw [run_append, run_cons, run_nil] at hafter
    rcases gives_of_new hbefore hafter with hgives | ⟨rfl, happ, hnot⟩
    · exact given_of_gives hgives hheld
    · exfalso
      by_cases hptrace : name = "ptrace"
      · subst hptrace
        rcases hok rfl with happ' | hold
        · rw [happ] at happ'
          cases happ'
        · exact hbefore hold
      · exact hnot (dangerous_of_mem_denylist hname hptrace)

/-- One request: the two policies agree but for `ptrace`. -/
theorem withholds_iff (e : PermissionEngine) (op : PermissionOp) :
    Withholds e op ↔ NoPtrace e op := by
  cases op with
  | request m p =>
    constructor
    · rintro h rfl
      by_contra hnone
      obtain ⟨happ, hbefore⟩ := not_or.1 hnone
      have happ : e.dangerousApproval = false := by simpa using happ
      have hneeds : NeedsApproval (ofString "ptrace") :=
        ⟨"ptrace", _, "m", rfl, Rust.PolicyEngine.evaluate_of_mem_denylist (by decide) "m"⟩
      refine hbefore (h happ hneeds ?_)
      rw [step, request_eq, if_pos ((allows_iff_of_withheld happ).2 ptrace_notMem_dangerous)]
      exact mem_list_grant.2 (Or.inl ⟨rfl, rfl⟩)
    · rintro h happ ⟨name, engine, moduleId, rfl, heval⟩ hafter
      by_contra hbefore
      have hname := Rust.PolicyEngine.mem_denylist_of_evaluate heval
      rcases gives_of_new hbefore hafter with ⟨-, -, happ'⟩ | ⟨-, -, hnot⟩
      · rw [happ] at happ'
        cases happ'
      · by_cases hptrace : name = "ptrace"
        · rcases h (by rw [hptrace]) with happ' | hold
          · rw [happ] at happ'
            cases happ'
          · exact hbefore hold
        · exact hnot (dangerous_of_mem_denylist hname hptrace)
  | _ => exact Iff.rfl

/-- **In every history the permissions of the Rust denylist come from grants, loads and approved
requests, and no request without approval gives what the Rust engine wants approval for, exactly
when `ptrace` is not requested without approval by a module that does not hold it.** -/
theorem approved_iff (ops : List PermissionOp) :
    ((∀ pre post, ops = pre ++ post → Accounted pre) ∧
      ∀ pre op post, ops = pre ++ op :: post → Withholds (run step empty pre) op) ↔
      Along step NoPtrace empty ops := by
  rw [along_iff]
  constructor
  · rintro ⟨-, h⟩ pre op post hcut
    exact (withholds_iff _ op).1 (h pre op post hcut)
  · intro h
    refine ⟨fun pre post hcut => ?_, fun pre op post hcut =>
      (withholds_iff _ op).2 (h pre op post hcut)⟩
    induction pre using List.reverseRecOn generalizing post with
    | nil => exact accounted_nil
    | append_singleton pre op ih =>
      have hcut' : ops = pre ++ op :: post := by simp [hcut]
      exact (ih (op :: post) hcut').snoc (h pre op post hcut')

/-- A module asks for `ptrace`, nothing is approved, and it gets it. -/
theorem not_accounted_ptrace : ¬ ∀ ops, Accounted ops := by
  intro h
  obtain ⟨pre, op, post, hcut, hgives, -⟩ := h [.request [0x6D] (ofString "ptrace")] [0x6D]
    "ptrace" (by decide) (by decide)
  cases pre with
  | nil =>
    obtain ⟨rfl, -⟩ := List.cons.inj hcut
    cases hgives.2.2
  | cons a pre => simp at hcut

end PermissionEngine

/-! ### Events -/

/-- `PermissionGrantedEvent` and `PermissionRevokedEvent`. -/
inductive PermissionEvent
  | granted (moduleId permission : JString)
  | revoked (moduleId permission : JString)

/-- The order in which a set is gone through. -/
structure Enumeration where
  toList : Finset JString → List JString
  mem_toList : ∀ s p, p ∈ toList s ↔ p ∈ s

/-- What an observer holds of the permissions. -/
abbrev Replica := JString → Finset JString

/-- An event is an insertion or a deletion. -/
def Replica.observe (r : Replica) : PermissionEvent → Replica
  | .granted m p => Function.update r m (insert p (r m))
  | .revoked m p => Function.update r m ((r m).erase p)

/-- The engine and an observer of its events. -/
structure Observed where
  engine : PermissionEngine
  replica : Replica

namespace PermissionEngine

variable (E : Enumeration)

/-- The event of `grant`. -/
def grantEvents (e : PermissionEngine) (m p : JString) : List PermissionEvent :=
  if p ∈ e.list m then [] else [.granted m p]

/-- The events that a call emits. -/
def events (e : PermissionEngine) : PermissionOp → List PermissionEvent
  | .loadPermissions _ => []
  | .request m p => if e.allows p then e.grantEvents m p else []
  | .grant m p => e.grantEvents m p
  | .revoke m p =>
      match e.granted.lookup m with
      | none => []
      | some current => if p ∈ current then [.revoked m p] else []
  | .revokeAll m =>
      match e.granted.lookup m with
      | none => []
      | some revoked => (E.toList revoked).map (.revoked m)
  | .setDangerousApproval _ => []

variable {E} {e : PermissionEngine}

theorem events_revoke (m p : JString) :
    e.events E (.revoke m p) = if p ∈ e.list m then [.revoked m p] else [] := by
  rw [events, list, Grants.list]
  cases h : e.granted.lookup m with
  | none => simp
  | some current => rfl

theorem events_revokeAll (m : JString) :
    ∃ l : List JString, e.events E (.revokeAll m) = l.map (.revoked m) ∧
      ∀ p, p ∈ l ↔ p ∈ e.list m := by
  rw [events, list, Grants.list]
  cases h : e.granted.lookup m with
  | none => exact ⟨[], rfl, by simp⟩
  | some current => exact ⟨E.toList current, rfl, E.mem_toList current⟩

end PermissionEngine

namespace Observed

open PermissionEngine

variable (E : Enumeration)

/-- A new engine, and an observer from the start. -/
def empty : Observed := ⟨PermissionEngine.empty, fun _ => ∅⟩

/-- A call, and its events. -/
def step (s : Observed) (op : PermissionOp) : Observed where
  engine := s.engine.step op
  replica := (s.engine.events E op).foldl Replica.observe s.replica

/-- The observer holds what the engine holds. -/
def InStep (s : Observed) : Prop := ∀ m, s.replica m = s.engine.list m

/-- A call that changes nothing emits nothing. -/
def Silent (s : Observed) (op : PermissionOp) : Prop :=
  (∀ m, (s.engine.step op).list m = s.engine.list m) → s.engine.events E op = []

/-- The call does not load other permissions than there are. -/
def LoadsSame (s : Observed) : PermissionOp → Prop
  | .loadPermissions data => ∀ m, data.list m = s.engine.list m
  | _ => True

variable {E} {s : Observed}

/-- `grant` and its event. -/
theorem inStep_grant (h : s.InStep) (m p : JString) :
    InStep ⟨s.engine.grant m p, (s.engine.grantEvents m p).foldl Replica.observe s.replica⟩ := by
  intro m'
  show _ = (s.engine.grant m p).list m'
  unfold grantEvents
  ext p'
  rw [mem_list_grant]
  split_ifs with hp
  · show p' ∈ s.replica m' ↔ _
    rw [h m']
    refine ⟨Or.inr, ?_⟩
    rintro (⟨rfl, rfl⟩ | hold)
    · exact hp
    · exact hold
  · show p' ∈ Function.update s.replica m (insert p (s.replica m)) m' ↔ _
    by_cases hm : m' = m
    · subst hm
      rw [Function.update_self, Finset.mem_insert, h m']
      simp
    · rw [Function.update_of_ne hm, h m']
      simp [hm]

theorem foldl_revoked (m : JString) (l : List JString) (r : Replica) (m' p : JString) :
    p ∈ (l.map (.revoked m)).foldl Replica.observe r m' ↔ p ∈ r m' ∧ ¬ (m' = m ∧ p ∈ l) := by
  induction l generalizing r with
  | nil => simp
  | cons a l ih =>
    rw [List.map_cons, List.foldl_cons, ih, Replica.observe]
    by_cases hm : m' = m
    · subst hm
      rw [Function.update_self, Finset.mem_erase, List.mem_cons]
      tauto
    · rw [Function.update_of_ne hm]
      simp [hm]

/-- Every call but `loadPermissions` tells the observer what it does. -/
theorem inStep_step_iff (h : s.InStep) (op : PermissionOp) :
    (step E s op).InStep ↔ s.LoadsSame op := by
  cases op with
  | loadPermissions data =>
    refine forall_congr' fun m => ?_
    show s.replica m = data.list m ↔ _
    rw [h m, eq_comm]
  | request m p =>
    refine ⟨fun _ => trivial, fun _ => ?_⟩
    unfold step events
    simp only [PermissionEngine.step, request_eq]
    split_ifs
    · exact inStep_grant h m p
    · exact h
  | grant m p => exact ⟨fun _ => trivial, fun _ => inStep_grant h m p⟩
  | revoke m p =>
    refine ⟨fun _ => trivial, fun _ m' => ?_⟩
    ext p'
    show p' ∈ (s.engine.events E (.revoke m p)).foldl Replica.observe s.replica m' ↔
      p' ∈ (s.engine.revoke m p).list m'
    rw [mem_list_revoke, ← h m', events_revoke, ← h m]
    split_ifs with hp
    · rw [← List.map_singleton, foldl_revoked, List.mem_singleton, and_comm]
    · refine ⟨fun hold => ⟨?_, hold⟩, And.right⟩
      rintro ⟨rfl, rfl⟩
      exact hp hold
  | revokeAll m =>
    refine ⟨fun _ => trivial, fun _ m' => ?_⟩
    obtain ⟨l, hevents, hl⟩ := events_revokeAll (E := E) (e := s.engine) m
    ext p'
    show p' ∈ (s.engine.events E (.revokeAll m)).foldl Replica.observe s.replica m' ↔
      p' ∈ (s.engine.revokeAll m).list m'
    rw [hevents, foldl_revoked, list_revokeAll, hl, h m']
    split_ifs with hm
    · subst hm
      simp
    · simp [hm]
  | setDangerousApproval approved => exact ⟨fun _ => trivial, fun _ => h⟩

/-- `grant` emits its event only when it gives something. -/
theorem silent_grant {m p : JString}
    (h : ∀ m', (s.engine.grant m p).list m' = s.engine.list m') :
    s.engine.grantEvents m p = [] := by
  have hmem : p ∈ (s.engine.grant m p).list m := mem_list_grant.2 (Or.inl ⟨rfl, rfl⟩)
  rw [h m] at hmem
  exact if_pos hmem

theorem silent (s : Observed) (op : PermissionOp) : Silent E s op := by
  intro h
  cases op with
  | loadPermissions data => rfl
  | request m p =>
    simp only [PermissionEngine.step, request_eq] at h
    rw [events]
    split_ifs with hok
    · simp only [hok, if_true] at h
      exact silent_grant h
    · rfl
  | grant m p => exact silent_grant h
  | revoke m p =>
    rw [events_revoke]
    refine if_neg fun hp => ?_
    rw [← h m] at hp
    exact (mem_list_revoke.1 hp).1 ⟨rfl, rfl⟩
  | revokeAll m =>
    obtain ⟨l, hevents, hl⟩ := events_revokeAll (E := E) (e := s.engine) m
    have hempty : s.engine.list m = ∅ := by
      rw [← h m, PermissionEngine.step, list_revokeAll, if_pos rfl]
    obtain rfl : l = [] := List.eq_nil_iff_forall_not_mem.2 fun p hp => by
      simpa [hempty] using (hl p).1 hp
    exact hevents
  | setDangerousApproval approved => rfl

/-- **In every history an observer of the events holds what the engine holds, and no call that
changes nothing emits one, exactly when every `loadPermissions` loads what the engine holds
already.** -/
theorem replica_iff (E : Enumeration) (ops : List PermissionOp) :
    ((∀ pre post, ops = pre ++ post → (run (step E) empty pre).InStep) ∧
      ∀ pre op post, ops = pre ++ op :: post → Silent E (run (step E) empty pre) op) ↔
      Along (step E) LoadsSame empty ops := by
  have hrun : (∀ pre post, ops = pre ++ post → (run (step E) empty pre).InStep) ↔
      Along (step E) LoadsSame empty ops :=
    prefixes_iff_along (I := InStep) (fun s op h => inStep_step_iff h op) fun _ => rfl
  rw [← hrun]
  exact ⟨And.left, fun h => ⟨h, fun pre op post _ => silent _ op⟩⟩

/-- A configuration is loaded: the engine has its permissions, the observer has none. -/
theorem not_inStep_load :
    ¬ ∀ (E : Enumeration) (ops : List PermissionOp), (run (step E) empty ops).InStep := by
  intro h
  have hstep := h ⟨Finset.toList, fun _ _ => Finset.mem_toList⟩ [.loadPermissions defaultGrants]
    (ofString "com.astraveil.sample")
  have hload : ∅ = defaultGrants.list (ofString "com.astraveil.sample") := hstep
  exact absurd hload (by decide)

end Observed

end AstraVeil.Core
