import AstraVeil.Daemon.AuditFidelity

/-!
# What the answers about permissions say

`main.cpp` splits the body `<module>:<permission>` of `QueryPermission`, `GrantPermission` and
`RevokePermission` at the first colon, and answers a grant with the return value of the database,
which says whether the permission is new.

* `check_run`: what the database holds after any run: what was granted last to an id without colon;
* `truthful_iff`: which requests are answered and audited truly;
* `permissionTruth_iff`: the runs in which all of them are.
-/

namespace AstraVeil.Daemon

open Json (FloatText noFloats)
open Utf16 (ascii)

variable {F : Type}

/-! ### The body of a request -/

/-- A request about a permission of a module, and the device on which it is served. -/
structure PermissionAsk where
  dev : Device
  kind : PermissionRequest
  mod : List UInt8
  perm : Permission

namespace PermissionAsk

/-- The body `<module>:<permission>`. -/
def body (r : PermissionAsk) : List UInt8 := r.mod ++ 0x3A :: ascii (permissionName r.perm)

/-- The answer of the handler, and the state afterwards. -/
def reply (fl : FloatText F) (s : State) (r : PermissionAsk) : Reply :=
  handler fl r.dev s (r.kind.type :: r.body)

/-- The daemon serves the request. -/
def serve (fl : FloatText F) (s : State) (r : PermissionAsk) : State := (r.reply fl s).2

end PermissionAsk

theorem splitColon_append {mod name : List UInt8} (h : (0x3A : UInt8) ∉ mod) :
    splitColon (mod ++ 0x3A :: name) = some (mod, name) := by
  have hall : ∀ c ∈ mod, decide (c ≠ 0x3A) = true := fun c hc =>
    decide_eq_true fun heq => h (heq ▸ hc)
  rw [splitColon, if_pos (by simp), List.takeWhile_append_of_pos hall,
    List.dropWhile_append_of_pos hall, List.takeWhile_cons_of_neg (by simp),
    List.dropWhile_cons_of_neg (by simp), List.append_nil, List.tail_cons]

theorem permissionFromName_permissionName (p : Permission) :
    permissionFromName (ascii (permissionName p)) = some p := by
  cases p <;> decide

/-- No permission has a colon in its name. -/
theorem permissionFromName_of_colon {name : List UInt8} (h : (0x3A : UInt8) ∈ name) :
    permissionFromName name = none := by
  have hnames : ∀ p ∈ allPermissions, (0x3A : UInt8) ∉ ascii (permissionName p) := by decide
  cases hp : permissionFromName name with
  | none => rfl
  | some p =>
    obtain ⟨hmem, rfl⟩ := permissionFromName_eq hp
    exact absurd h (hnames p hmem)

section Body

variable {s : State} {r : PermissionAsk} {bad unknown : List UInt8}
  {act : List UInt8 → List UInt8 → Permission → Reply}

theorem withPermission_of_plain (h : (0x3A : UInt8) ∉ r.mod) :
    withPermission s r.body bad unknown act =
      act r.mod (ascii (permissionName r.perm)) r.perm := by
  rw [withPermission, PermissionAsk.body, splitColon_append h]
  simp only [permissionFromName_permissionName]

/-- A colon in the id leaves no known permission behind the first one. -/
theorem withPermission_of_colon (h : (0x3A : UInt8) ∈ r.mod) :
    withPermission s r.body bad unknown act = (some unknown, s) := by
  obtain ⟨front, back, hmod, hfront⟩ := List.eq_append_cons_of_mem h
  have hbody : r.body = front ++ 0x3A :: (back ++ 0x3A :: ascii (permissionName r.perm)) := by
    rw [PermissionAsk.body, hmod]
    simp
  rw [withPermission, hbody, splitColon_append hfront]
  simp only [permissionFromName_of_colon (List.mem_append_right back List.mem_cons_self)]

end Body

/-! ### One request -/

/-- The answer to a grant that was carried out. -/
def grantedText : List UInt8 := ascii "\x7b\"granted\":true\x7d"

/-- The answer to a query that is allowed. -/
def allowedText : List UInt8 := ascii "\x7b\"granted\":true,\"message\":\"allow\"\x7d"

/-- The matrix offers the capability behind a permission, if there is one. -/
def Offers (matrix : CapabilityMatrix) (p : Permission) : Prop :=
  ∀ cap, permissionToCapability p = some cap → matrix cap = true

theorem authorize_iff {db : PermissionDatabase} {matrix : CapabilityMatrix} {mod : List UInt8}
    {p : Permission} :
    authorize db matrix mod p = true ↔ db.check mod p = true ∧ Offers matrix p := by
  unfold authorize Offers
  cases permissionToCapability p <;> simp

/-- Whether a permission of a module is granted after the request, if `held` says so before. -/
def PermissionAsk.settle (mod : List UInt8) (perm : Permission) (held : Bool)
    (r : PermissionAsk) : Bool :=
  if r.mod = mod ∧ r.perm = perm then
    match r.kind with
    | .query => held
    | .grant => true
    | .revoke => false
  else held

theorem PermissionAsk.settle_of_ne {mod : List UInt8} {r : PermissionAsk} (h : r.mod ≠ mod)
    (perm : Permission) (held : Bool) : r.settle mod perm held = held :=
  if_neg fun hr => h hr.1

theorem check_update (db : PermissionDatabase) (m mod : List UInt8) (set : Finset Permission)
    (perm : Permission) : PermissionDatabase.check (Function.update db m set) mod perm =
      if m = mod then decide (perm ∈ set) else db.check mod perm := by
  unfold PermissionDatabase.check
  split_ifs with hm
  · rw [hm, Function.update_self]
  · rw [Function.update_of_ne (Ne.symm hm)]

theorem check_grant (db : PermissionDatabase) (m mod : List UInt8) (p perm : Permission) :
    (db.grant m p).2.check mod perm =
      if m = mod ∧ p = perm then true else db.check mod perm := by
  rw [PermissionDatabase.grant, check_update]
  by_cases hm : m = mod
  · by_cases hp : p = perm <;> simp [hm, hp, eq_comm, PermissionDatabase.check]
  · simp [hm]

theorem check_revoke (db : PermissionDatabase) (m mod : List UInt8) (p perm : Permission) :
    (db.revoke m p).2.check mod perm =
      if m = mod ∧ p = perm then false else db.check mod perm := by
  rw [PermissionDatabase.revoke, check_update]
  by_cases hm : m = mod
  · by_cases hp : p = perm <;> simp [hm, hp, eq_comm, PermissionDatabase.check]
  · simp [hm]

/-- The answer to a request that names no known permission. -/
def unknownText : PermissionRequest → List UInt8
  | .query => ascii "\x7b\"granted\":false,\"message\":\"unknown permission\"\x7d"
  | .grant => ascii "\x7b\"granted\":false\x7d"
  | .revoke => ascii "\x7b\"revoked\":false\x7d"

theorem unknownText_refuses (kind : PermissionRequest) :
    kind.type :: unknownText kind ≠ 0x0C :: grantedText ∧
      kind.type :: unknownText kind ≠ 0x0B :: allowedText := by
  cases kind <;> exact ⟨by decide, by decide⟩

section Step

variable (fl : FloatText F) (s : State) {r : PermissionAsk}

/-- A request about an id with a colon is refused and changes nothing. -/
theorem reply_of_colon (h : (0x3A : UInt8) ∈ r.mod) :
    r.reply fl s = (some (r.kind.type :: unknownText r.kind), s) := by
  obtain ⟨dev, kind, mod, perm⟩ := r
  cases kind with
  | query =>
    exact congrArg (fun t : Reply => (t.1.map (0x0B :: ·), t.2)) (withPermission_of_colon h)
  | grant =>
    exact congrArg (fun t : Reply => (t.1.map (0x0C :: ·), t.2)) (withPermission_of_colon h)
  | revoke =>
    exact congrArg (fun t : Reply => (t.1.map (0x0D :: ·), t.2)) (withPermission_of_colon h)

/-- A query about an id without colon is decided by `authorize`. -/
theorem reply_query (h : (0x3A : UInt8) ∉ r.mod) (hr : r.kind = .query) :
    (r.reply fl s).1 = some (0x0B :: allowedText) ↔
      authorize s.database s.matrix r.mod r.perm = true := by
  obtain ⟨dev, kind, mod, perm⟩ := r
  cases hr
  have hreply : (PermissionAsk.reply fl s ⟨dev, .query, mod, perm⟩).1 =
      some (0x0B :: if authorize s.database s.matrix mod perm then allowedText
        else ascii "\x7b\"granted\":false,\"message\":\"denied\"\x7d") :=
    congrArg (fun t : Reply => t.1.map (0x0B :: ·)) (withPermission_of_plain h)
  rw [hreply]
  cases authorize s.database s.matrix mod perm
  · exact iff_of_false (by decide) (by decide)
  · exact iff_of_true rfl rfl

/-- A grant to an id without colon answers whether the permission is new. -/
theorem reply_grant (h : (0x3A : UInt8) ∉ r.mod) (hr : r.kind = .grant) :
    ((r.reply fl s).1 = some (0x0C :: grantedText) ↔ s.database.check r.mod r.perm = false) ∧
      (r.serve fl s).auditFile = auditLog r.dev r.mod
        (ascii "GRANT:" ++ ascii (permissionName r.perm)) (!s.database.check r.mod r.perm)
        s.auditFile := by
  obtain ⟨dev, kind, mod, perm⟩ := r
  cases hr
  have hreply : (PermissionAsk.reply fl s ⟨dev, .grant, mod, perm⟩).1 =
      some (0x0C :: if !s.database.check mod perm then grantedText
        else ascii "\x7b\"granted\":false\x7d") :=
    congrArg (fun t : Reply => t.1.map (0x0C :: ·)) (withPermission_of_plain h)
  refine ⟨?_, congrArg (fun t : Reply => t.2.auditFile) (withPermission_of_plain h)⟩
  rw [hreply]
  cases s.database.check mod perm
  · exact iff_of_true rfl rfl
  · exact iff_of_false (by decide) (by decide)

/-- What a request does to the database. -/
theorem check_serve (mod : List UInt8) (perm : Permission) :
    (r.serve fl s).database.check mod perm =
      if (0x3A : UInt8) ∈ r.mod then s.database.check mod perm
      else r.settle mod perm (s.database.check mod perm) := by
  by_cases h : (0x3A : UInt8) ∈ r.mod
  · rw [if_pos h, PermissionAsk.serve, reply_of_colon fl s h]
  rw [if_neg h, PermissionAsk.settle]
  obtain ⟨dev, kind, m, p⟩ := r
  cases kind with
  | query =>
    have hdb : (PermissionAsk.serve fl s ⟨dev, .query, m, p⟩).database = s.database :=
      congrArg (fun t : Reply => t.2.database) (withPermission_of_plain h)
    rw [hdb, ite_self]
  | grant =>
    have hdb : (PermissionAsk.serve fl s ⟨dev, .grant, m, p⟩).database =
        (s.database.grant m p).2 :=
      congrArg (fun t : Reply => t.2.database) (withPermission_of_plain h)
    rw [hdb, check_grant]
  | revoke =>
    have hdb : (PermissionAsk.serve fl s ⟨dev, .revoke, m, p⟩).database =
        (s.database.revoke m p).2 :=
      congrArg (fun t : Reply => t.2.database) (withPermission_of_plain h)
    rw [hdb, check_revoke]

theorem matrix_serve : (r.serve fl s).matrix = s.matrix := by
  by_cases h : (0x3A : UInt8) ∈ r.mod
  · rw [PermissionAsk.serve, reply_of_colon fl s h]
  obtain ⟨dev, kind, m, p⟩ := r
  cases kind <;> exact congrArg (fun t : Reply => t.2.matrix) (withPermission_of_plain h)

end Step

/-! ### Runs -/

/-- The last grant or revocation of a permission of a module is a grant. -/
def lastGranted (mod : List UInt8) (perm : Permission) (rs : List PermissionAsk) : Bool :=
  rs.foldl (PermissionAsk.settle mod perm) false

/-- The daemon with no permission granted. -/
def State.fresh (s : State) : State := { s with database := fun _ => ∅ }

section Run

variable (fl : FloatText F) (s : State)

/-- **The database holds what was granted last, to ids without a colon.** -/
theorem check_run (rs : List PermissionAsk) (mod : List UInt8) (perm : Permission) :
    (Runs.run (PermissionAsk.serve fl) s.fresh rs).database.check mod perm =
      (decide ((0x3A : UInt8) ∉ mod) && lastGranted mod perm rs) := by
  induction rs using List.reverseRecOn with
  | nil => simp [State.fresh, PermissionDatabase.check, lastGranted]
  | append_singleton rs r ih =>
    have hlast : lastGranted mod perm (rs ++ [r]) = r.settle mod perm (lastGranted mod perm rs) :=
      List.foldl_append
    rw [Runs.run_append, Runs.run_cons, Runs.run_nil, check_serve, ih, hlast]
    by_cases hr : (0x3A : UInt8) ∈ r.mod
    · rw [if_pos hr]
      -- the request is lost, but it can only be about an id that has no entries anyway
      by_cases hmod : (0x3A : UInt8) ∈ mod
      · simp [hmod]
      · have hne : r.mod ≠ mod := fun heq => hmod (heq ▸ hr)
        rw [PermissionAsk.settle_of_ne hne]
    · rw [if_neg hr]
      by_cases hmod : (0x3A : UInt8) ∈ mod
      · have hne : r.mod ≠ mod := fun heq => hr (heq ▸ hmod)
        rw [PermissionAsk.settle_of_ne hne, PermissionAsk.settle_of_ne hne]
      · simp [hmod]

theorem matrix_run (rs : List PermissionAsk) :
    (Runs.run (PermissionAsk.serve fl) s.fresh rs).matrix = s.matrix :=
  Runs.run_invariant (I := fun t => t.matrix = s.matrix) (s := s.fresh)
    (fun t _ ht => (matrix_serve fl t).trans ht) rfl rs

/-- The answer to a request, after the requests `pre`, tells the truth. -/
def Truthful (pre : List PermissionAsk) (r : PermissionAsk) : Prop :=
  let t := Runs.run (PermissionAsk.serve fl) s.fresh pre
  match r.kind with
  | .grant =>
      (r.reply fl t).1 = some (0x0C :: grantedText) ∧
        (r.serve fl t).auditFile = auditLog r.dev r.mod
          (ascii "GRANT:" ++ ascii (permissionName r.perm)) true t.auditFile ↔
      (r.serve fl t).database.check r.mod r.perm = true
  | .query =>
      (r.reply fl t).1 = some (0x0B :: allowedText) ↔
        lastGranted r.mod r.perm pre = true ∧ Offers t.matrix r.perm
  | .revoke => True

/-- No grant is repeated, and no permission that is granted last to an id with a colon is
queried. -/
def InOrder (pre : List PermissionAsk) (r : PermissionAsk) : Prop :=
  match r.kind with
  | .grant => (0x3A : UInt8) ∉ r.mod → lastGranted r.mod r.perm pre = false
  | .query => (0x3A : UInt8) ∈ r.mod → lastGranted r.mod r.perm pre = true →
      ¬ Offers s.matrix r.perm
  | .revoke => True

section Answer

variable {fl} {t : State} {r : PermissionAsk} {held : Bool}
  (hcheck : t.database.check r.mod r.perm = (decide ((0x3A : UInt8) ∉ r.mod) && held))
include hcheck

/-- A query is answered truly unless something was granted to an id with a colon. -/
theorem query_iff (hkind : r.kind = .query) :
    ((r.reply fl t).1 = some (0x0B :: allowedText) ↔ held = true ∧ Offers t.matrix r.perm) ↔
      ((0x3A : UInt8) ∈ r.mod → held = true → ¬ Offers t.matrix r.perm) := by
  by_cases hr : (0x3A : UInt8) ∈ r.mod
  · have hno : (r.reply fl t).1 ≠ some (0x0B :: allowedText) := by
      rw [reply_of_colon fl t hr]
      exact fun h => (unknownText_refuses r.kind).2 (Option.some.inj h)
    simp only [hno, hr, false_iff, true_implies, not_and]
  · refine iff_of_true ?_ fun h => absurd h hr
    rw [reply_query fl t hr hkind, authorize_iff, hcheck, decide_eq_true hr, Bool.true_and]

/-- A grant is answered and audited truly unless it is repeated. -/
theorem grant_iff (hkind : r.kind = .grant) :
    ((r.reply fl t).1 = some (0x0C :: grantedText) ∧
        (r.serve fl t).auditFile = auditLog r.dev r.mod
          (ascii "GRANT:" ++ ascii (permissionName r.perm)) true t.auditFile ↔
      (r.serve fl t).database.check r.mod r.perm = true) ↔
      ((0x3A : UInt8) ∉ r.mod → held = false) := by
  by_cases hr : (0x3A : UInt8) ∈ r.mod
  · -- nothing is held for such an id, and nothing is said to be
    have hno : (r.reply fl t).1 ≠ some (0x0C :: grantedText) := by
      rw [reply_of_colon fl t hr]
      exact fun h => (unknownText_refuses r.kind).1 (Option.some.inj h)
    have hafter : (r.serve fl t).database.check r.mod r.perm = false := by
      rw [check_serve, if_pos hr, hcheck]
      simp [hr]
    simp [hno, hr, hafter]
  · have hheld : t.database.check r.mod r.perm = held := by
      rw [hcheck, decide_eq_true hr, Bool.true_and]
    have hafter : (r.serve fl t).database.check r.mod r.perm = true := by
      rw [check_serve, if_neg hr, PermissionAsk.settle, if_pos ⟨rfl, rfl⟩, hkind]
    obtain ⟨hgranted, haudit⟩ := reply_grant fl t hr hkind
    rw [hgranted, hafter, haudit, hheld, imp_iff_right hr]
    constructor
    · intro h
      exact (h.2 rfl).1
    · intro h
      rw [h]
      exact iff_of_true ⟨rfl, rfl⟩ rfl

end Answer

theorem truthful_iff (pre : List PermissionAsk) (r : PermissionAsk) :
    Truthful fl s pre r ↔ InOrder s pre r := by
  have hcheck := check_run fl s pre r.mod r.perm
  unfold Truthful InOrder
  cases hkind : r.kind with
  | query =>
    rw [← matrix_run fl s pre]
    exact query_iff hcheck hkind
  | grant => exact grant_iff hcheck hkind
  | revoke => exact Iff.rfl

/-- **The answers and the audit of a run tell the truth exactly when no grant is repeated and no
permission granted to an id with a colon is queried.** -/
theorem permissionTruth_iff (rs : List PermissionAsk) :
    (∀ pre r post, rs = pre ++ r :: post → Truthful fl s pre r) ↔
      ∀ pre r post, rs = pre ++ r :: post → InOrder s pre r :=
  forall_congr' fun pre => forall_congr' fun r => forall_congr' fun _ =>
    imp_congr_right fun _ => truthful_iff fl s pre r

end Run

/-- A grant, and once more the same. -/
def repeatedGrant : List PermissionAsk :=
  [⟨sampleDevice, .grant, ascii "com.test.mod", .mount⟩,
    ⟨sampleDevice, .grant, ascii "com.test.mod", .mount⟩]

/-- A grant to an id with a colon, and a query. -/
def builtinGrant : List PermissionAsk :=
  [⟨sampleDevice, .grant, ascii "astra:builtin", .mount⟩,
    ⟨sampleDevice, .query, ascii "astra:builtin", .mount⟩]

/-- The second grant is answered as a failure, although the permission is held; a permission granted
to `astra:builtin` is not found, although the matrix offers the capability. -/
theorem not_truthful_repeatedGrant_builtinGrant :
    (¬ ∀ pre r post, repeatedGrant = pre ++ r :: post → Truthful noFloats sampleState pre r) ∧
      ¬ ∀ pre r post, builtinGrant = pre ++ r :: post →
        Truthful noFloats { sampleState with matrix := fun _ => true } pre r := by
  constructor
  · intro h
    have hsecond := (truthful_iff noFloats sampleState _ _).1 (h [_] _ [] rfl)
    exact absurd (hsecond (by decide)) (by decide)
  · intro h
    have hquery := (truthful_iff noFloats { sampleState with matrix := fun _ => true } _ _).1
      (h [_] _ [] rfl)
    exact hquery (by decide) (by decide) fun _ _ => rfl

end AstraVeil.Daemon
