import AstraVeil.Kernel.Ioctl

/-!
# What a process can make of its policy entry

With `enforce=1` and a table that is no longer changed, two questions about the ioctls a process
may issue:

* which capabilities one `ASTRA_GET_CAPS` may commit (`capsContained_iff`), and whether a failed
  call leaves the credentials alone;
* which identities, and whether uid 0, a whole sequence of calls may lead to
  (`rootConfined_iff`).

Both answers are exact.  `check_policy` looks at `cap_effective` only, `commit_creds` comes before
the copy back to the caller, and `target_uid` is not looked at by any check: the conditions below
are what is left to the policy under these three facts.
-/

namespace AstraVeil.Kernel

/-- The table `sync_policies_to_kernel` loads (astrad and the shell with full root), followed by
its own example of an app that may only mount: uid 10123 with `CAP_SYS_ADMIN`. -/
def syncedTable : PolicyTable where
  entries := [⟨0, allCapsMask, 1⟩, ⟨2000, allCapsMask, 1⟩, ⟨10123, 1#64 <<< 21, 0⟩]
  bound := by decide

/-- The app 10123 in front of that table. -/
def mountApp : State where
  enforce := true
  table := syncedTable
  cred := ⟨10123, 10123, 10123, 10123, 10123, 10123, 0#64, 0#64, 0#64, allCapsMask, initUserNs⟩

/-! ### One call of `ASTRA_GET_CAPS` -/

/-- What the policy is to guarantee of one `ASTRA_GET_CAPS`: on success both committed sets lie in
the mask of the caller's entry, on failure the credentials are as before. -/
def CapsContained (s : State) (r : AstraCaps) (f : Faults) : Prop :=
  let out := getCaps s r f
  (out.2.1 = .ok () → ∃ e, s.table.entryFor s.caller = some e ∧
      CapsSubset out.1.cred.capEffective e.allowedCaps ∧
      CapsSubset out.1.cred.capPermitted e.allowedCaps) ∧
  (out.2.1 ≠ .ok () → out.1.cred = s.cred)

/-- The request asks for the credentials `c` already holds. -/
structure Restates (c : Cred) (r : AstraCaps) : Prop where
  effective : ∀ i, c.capEffective.getLsbD i = (r.capEffective.getLsbD i && decide (i ≤ capLastCap))
  permitted : ∀ i, c.capPermitted.getLsbD i = (r.capPermitted.getLsbD i && decide (i ≤ capLastCap))
  inheritable : c.capInheritable = 0#64
  bset : c.capBset = 0#64
  uids : r.targetUid ≠ 0 →
    let kuid := c.userNs.makeKuid r.targetUid
    c.uid = kuid ∧ c.euid = kuid ∧ c.suid = kuid
  gids : r.targetGid ≠ 0 →
    let kgid := c.userNs.makeKgid r.targetGid
    c.gid = kgid ∧ c.egid = kgid ∧ c.sgid = kgid

theorem eq_raiseRequested_iff (caps mask : BitVec 64) :
    raiseRequested mask = caps ↔
      ∀ i, caps.getLsbD i = (mask.getLsbD i && decide (i ≤ capLastCap)) := by
  constructor
  · rintro rfl i
    exact getLsbD_raiseRequested mask i
  · intro h
    apply BitVec.eq_of_getLsbD_eq
    intro i _
    rw [getLsbD_raiseRequested, h]

theorem ite_target_eq_iff (t new old : UInt32) :
    (if t != 0 then new else old) = old ↔ (t ≠ 0 → old = new) := by
  by_cases h : t = 0
  · simp [h]
  · simpa [h] using eq_comm

theorem capsCred_eq_iff (c : Cred) (r : AstraCaps) : capsCred c r = c ↔ Restates c r := by
  rw [Cred.ext_iff]
  constructor
  · rintro ⟨hu, heu, hsu, hg, heg, hsg, he, hp, hi, hb, -⟩
    refine ⟨(eq_raiseRequested_iff _ _).1 he, (eq_raiseRequested_iff _ _).1 hp, hi.symm, hb.symm,
      fun ht => ⟨?_, ?_, ?_⟩, fun ht => ⟨?_, ?_, ?_⟩⟩
    · exact (ite_target_eq_iff _ _ _).1 hu ht
    · exact (ite_target_eq_iff _ _ _).1 heu ht
    · exact (ite_target_eq_iff _ _ _).1 hsu ht
    · exact (ite_target_eq_iff _ _ _).1 hg ht
    · exact (ite_target_eq_iff _ _ _).1 heg ht
    · exact (ite_target_eq_iff _ _ _).1 hsg ht
  · rintro ⟨he, hp, hi, hb, hu, hg⟩
    refine ⟨?_, ?_, ?_, ?_, ?_, ?_, (eq_raiseRequested_iff _ _).2 he,
      (eq_raiseRequested_iff _ _).2 hp, hi.symm, hb.symm, rfl⟩
    · exact (ite_target_eq_iff _ _ _).2 fun ht => (hu ht).1
    · exact (ite_target_eq_iff _ _ _).2 fun ht => (hu ht).2.1
    · exact (ite_target_eq_iff _ _ _).2 fun ht => (hu ht).2.2
    · exact (ite_target_eq_iff _ _ _).2 fun ht => (hg ht).1
    · exact (ite_target_eq_iff _ _ _).2 fun ht => (hg ht).2.1
    · exact (ite_target_eq_iff _ _ _).2 fun ht => (hg ht).2.2

/-- The cases in which one `ASTRA_GET_CAPS` does respect the policy: it stops before the commit;
or its result is copied back and no permitted bit lies outside the entry's mask; or the copy fails
on a request for the credentials already held. -/
def CapsSafe (s : State) (r : AstraCaps) (f : Faults) : Prop :=
  ¬ (f.copyFromUser = true ∧ CapsAllowed s r ∧ f.prepareCred = true) ∨
  (f.copyToUser = true ∧ ∀ e, s.table.entryFor s.caller = some e →
    ∀ i ≤ capLastCap, r.capPermitted.getLsbD i = true → e.allowedCaps.getLsbD i = true) ∨
  (f.copyToUser = false ∧ Restates s.cred r)

/-- **Exactly when one `ASTRA_GET_CAPS` stays inside the caller's policy entry.** -/
theorem capsContained_iff (s : State) (henf : s.enforce = true) (r : AstraCaps) (f : Faults) :
    CapsContained s r f ↔ CapsSafe s r f := by
  unfold CapsContained CapsSafe
  rcases getCaps_cases henf r f with ⟨hstop, hst, hret⟩ | ⟨hcf, hall, hpc, hst, hret⟩
  · simp [hstop, hst, hret]
  · obtain ⟨e, he, heff⟩ := id hall
    simp only [hst, hcf, hall, hpc, and_self, not_true, false_or, he, Option.some.injEq,
      exists_eq_left', forall_eq']
    cases hct : f.copyToUser with
    | false =>
      have hne : (getCaps s r f).2.1 ≠ .ok () := by rw [ne_eq, hret, hct]; simp
      simp [hne, capsCred_eq_iff]
    | true =>
      have hok : (getCaps s r f).2.1 = .ok () := hret.2 hct
      have hes : CapsSubset (capsCred s.cred r).capEffective e.allowedCaps :=
        raiseRequested_subset heff
      have hps : CapsSubset (capsCred s.cred r).capPermitted e.allowedCaps ↔ _ :=
        raiseRequested_subset_iff
      simp [hok, hes, hps]

theorem capsContained_mountApp :
    mountApp.enforce = true ∧
      (CapsContained mountApp ⟨1#64 <<< 21, 1#64 <<< 21, 0, 0, 0⟩ Faults.none ↔
        CapsSafe mountApp ⟨1#64 <<< 21, 1#64 <<< 21, 0, 0, 0⟩ Faults.none) :=
  ⟨rfl, capsContained_iff mountApp rfl _ _⟩

/-- The mount app gets `CAP_SYS_MODULE` (bit 16) into its permitted set, and, when the page of its
request is read-only, keeps the new credentials although the call reports `-EFAULT`. -/
theorem capsEscape_mountApp :
    ¬ CapsContained mountApp ⟨0#64, 1#64 <<< 16, 0, 0, 0⟩ Faults.none ∧
    ¬ CapsContained mountApp ⟨1#64 <<< 21, 1#64 <<< 21, 0, 0, 0⟩ ⟨true, false, true⟩ := by
  constructor
  · rintro ⟨hok, -⟩
    obtain ⟨e, he, -, hperm⟩ := hok (by decide)
    have h16 := hperm 16 (by decide)
    have he' : e = ⟨10123, 1#64 <<< 21, 0⟩ := by
      have : mountApp.table.entryFor mountApp.caller = some ⟨10123, 1#64 <<< 21, 0⟩ := by decide
      rw [this] at he
      exact (Option.some.inj he).symm
    subst he'
    revert h16
    decide
  · rintro ⟨-, herr⟩
    have hcred := herr (by decide)
    have hbset : (0#64 : BitVec 64) = allCapsMask := congrArg Cred.capBset hcred
    revert hbset
    decide

/-! ### Sequences of calls by one process -/

/-- The calls open to a process that is not root: the table is not changed. -/
inductive ProcessCall
  | getRoot
  | getCaps (r : AstraCaps)
  | getVersion

def ProcessCall.ioctl : ProcessCall → Ioctl
  | .getRoot => .getRoot
  | .getCaps r => .getCaps r
  | .getVersion => .getVersion

/-- The state after one call. -/
def issue (s : State) (c : ProcessCall × Faults) : State := (astraIoctl s c.2 c.1.ioctl).1

/-- Some `ASTRA_GET_ROOT` of the sequence succeeds. -/
def ObtainsRoot (s : State) (calls : List (ProcessCall × Faults)) : Prop :=
  ∃ pre f post, calls = pre ++ (.getRoot, f) :: post ∧
    (getRoot (Runs.run issue s pre) f).2.1 = .ok ()

/-- `target_uid = t` makes a process of `s` act as this identity. -/
def State.switchTo (s : State) (t : UInt32) : UInt32 :=
  s.cred.userNs.fromKuid (s.cred.userNs.makeKuid t)

/-- The entry of `u` covers acting as `v`: it is `u` itself, or the entry gives full root. -/
def PolicyTable.Covers (t : PolicyTable) (u v : UInt32) : Prop := v = u ∨ t.GrantsFullRoot u

theorem capsCred_caller (s : State) (r : AstraCaps) :
    ({ s with cred := capsCred s.cred r } : State).caller =
      if r.targetUid ≠ 0 then s.switchTo r.targetUid else s.caller := by
  by_cases h : r.targetUid = 0 <;> simp [State.caller, State.switchTo, capsCred, h]

/-- Everything a call can do to the state. -/
theorem issue_cases {s : State} (henf : s.enforce = true) (c : ProcessCall × Faults) :
    issue s c = s ∨
    (∃ r, CapsAllowed s r ∧ issue s c = { s with cred := capsCred s.cred r }) ∨
    (s.table.GrantsFullRoot s.caller ∧ issue s c = { s with cred := initCred }) := by
  obtain ⟨c, f⟩ := c
  cases c with
  | getRoot =>
    by_cases hg : s.table.GrantsFullRoot s.caller
    · have hc := (checkPolicy_full_iff s.table s.caller 0#64).2 hg
      simp only [issue, ProcessCall.ioctl, astraIoctl, getRoot, henf, hc]
      cases f.prepareCred with
      | false => exact Or.inl rfl
      | true => exact Or.inr (Or.inr ⟨hg, rfl⟩)
    · exact Or.inl (getRoot_refused henf hg)
  | getCaps r =>
    rcases getCaps_cases henf r f with ⟨-, hst, -⟩ | ⟨-, hall, -, hst, -⟩
    · exact Or.inl hst
    · exact Or.inr (Or.inl ⟨r, hall, hst⟩)
  | getVersion =>
    left
    simp only [issue, ProcessCall.ioctl, astraIoctl]
    cases f.copyToUser <;> rfl

/-- As long as no full-root entry has been reached: module parameter, table and namespace are the
initial ones, and the process acts as itself or as a uid it switched to. -/
structure Switched (s₀ s : State) : Prop where
  enforce : s.enforce = true
  table : s.table = s₀.table
  userNs : s.cred.userNs = s₀.cred.userNs
  caller : s.caller = s₀.caller ∨ ∃ t ≠ 0, s.caller = s₀.switchTo t

theorem Switched.refl {s : State} (henf : s.enforce = true) : Switched s s :=
  ⟨henf, rfl, rfl, Or.inl rfl⟩

/-- The step lemma: where no identity within reach has a full-root entry, a call keeps it so. -/
theorem Switched.issue {s₀ s : State} (h : Switched s₀ s)
    (hself : ¬ s₀.table.GrantsFullRoot s₀.caller)
    (htarget : ∀ t ≠ 0, ¬ s₀.table.GrantsFullRoot (s₀.switchTo t))
    (c : ProcessCall × Faults) : Switched s₀ (issue s c) := by
  rcases issue_cases h.enforce c with hst | ⟨r, -, hst⟩ | ⟨hg, -⟩
  · rw [hst]; exact h
  · rw [hst]
    refine ⟨h.enforce, h.table, h.userNs, ?_⟩
    rw [capsCred_caller]
    split_ifs with ht
    · exact Or.inr ⟨r.targetUid, ht, by simp [State.switchTo, h.userNs]⟩
    · exact h.caller
  · exfalso
    rw [h.table] at hg
    rcases h.caller with hc | ⟨t, ht, hc⟩
    · exact hself (hc ▸ hg)
    · exact htarget t ht (hc ▸ hg)

/-- A process without an entry of its own cannot change its state. -/
theorem issue_eq_of_entryFor_none {s : State} (henf : s.enforce = true)
    (hnone : s.table.entryFor s.caller = none) (c : ProcessCall × Faults) : issue s c = s := by
  rcases issue_cases henf c with hst | ⟨r, ⟨e, he, -⟩, -⟩ | ⟨⟨e, he, -⟩, -⟩
  · exact hst
  · rw [hnone] at he; cases he
  · rw [hnone] at he; cases he

theorem run_eq_of_entryFor_none {s : State} (henf : s.enforce = true)
    (hnone : s.table.entryFor s.caller = none) (calls : List (ProcessCall × Faults)) :
    Runs.run issue s calls = s := by
  apply Runs.run_invariant (I := fun s' => s' = s) _ rfl
  rintro s' c rfl
  exact issue_eq_of_entryFor_none henf hnone c

/-- The request that only switches identity: no capability, so every entry allows it. -/
def switchRequest (t : UInt32) : AstraCaps := ⟨0#64, 0#64, t, 0, 0⟩

theorem issue_switchRequest {s : State} (henf : s.enforce = true) {e : PolicyEntry}
    (he : s.table.entryFor s.caller = some e) (t : UInt32) :
    issue s (.getCaps (switchRequest t), Faults.none) =
      { s with cred := capsCred s.cred (switchRequest t) } := by
  have hall : CapsAllowed s (switchRequest t) := ⟨e, he, fun i hi => by simp [switchRequest] at hi⟩
  rcases getCaps_cases henf (switchRequest t) Faults.none with ⟨hno, -, -⟩ | ⟨-, -, -, hst, -⟩
  · exact absurd ⟨rfl, hall, rfl⟩ hno
  · exact hst

/-- Two calls lead a process with an entry to the full root of any uid it can switch to. -/
theorem obtainsRoot_of_switch {s : State} (henf : s.enforce = true) {e : PolicyEntry}
    (he : s.table.entryFor s.caller = some e) {t : UInt32} (ht : t ≠ 0)
    (hg : s.table.GrantsFullRoot (s.switchTo t)) :
    ObtainsRoot s [(.getCaps (switchRequest t), Faults.none), (.getRoot, Faults.none)] := by
  refine ⟨[(.getCaps (switchRequest t), Faults.none)], Faults.none, [], rfl, ?_⟩
  rw [Runs.run_cons, Runs.run_nil, issue_switchRequest henf he]
  have henf' : ({ s with cred := capsCred s.cred (switchRequest t) } : State).enforce = true := henf
  rw [getRoot_ok_iff henf']
  refine ⟨?_, rfl⟩
  rw [capsCred_caller, if_pos (show (switchRequest t).targetUid ≠ 0 from ht)]
  exact hg

/-- The conditions under which no sequence of calls leaves the caller's own entry. -/
def RootSafe (s : State) : Prop :=
  s.table.GrantsFullRoot s.caller ∨ s.table.entryFor s.caller = none ∨
    ∀ t ≠ 0, ¬ s.table.GrantsFullRoot (s.switchTo t)

def IdentitySafe (s : State) : Prop :=
  s.table.GrantsFullRoot s.caller ∨ s.table.entryFor s.caller = none ∨
    ∀ t ≠ 0, s.switchTo t = s.caller

/-- **Exactly when a process is confined to its own entry**, over every finite sequence of calls:
it obtains root only with a full-root entry of its own if and only if `RootSafe`, and acts only as
identities its own entry covers if and only if `IdentitySafe`. -/
theorem rootConfined_iff (s : State) (henf : s.enforce = true) :
    ((∀ calls, ObtainsRoot s calls → s.table.GrantsFullRoot s.caller) ↔ RootSafe s) ∧
    ((∀ calls, s.table.Covers s.caller (Runs.run issue s calls).caller) ↔ IdentitySafe s) := by
  constructor
  · constructor
    · intro h
      by_contra hns
      simp only [RootSafe, not_or, not_forall, not_not] at hns
      obtain ⟨hself, hent, t, ht, hg⟩ := hns
      obtain ⟨e, he⟩ := Option.ne_none_iff_exists'.1 hent
      exact hself (h _ (obtainsRoot_of_switch henf he ht hg))
    · rintro (hself | hnone | hno) calls ⟨pre, f, post, -, hroot⟩
      · exact hself
      · rw [run_eq_of_entryFor_none henf hnone, getRoot_ok_iff henf] at hroot
        exact hroot.1
      · by_contra hself
        -- as long as no root is granted, a run can only change the uid
        have hsw : Switched s (Runs.run issue s pre) :=
          Runs.run_invariant (fun s' c hs => hs.issue hself hno c) (Switched.refl henf) pre
        rw [getRoot_ok_iff hsw.enforce, hsw.table] at hroot
        rcases hsw.caller with hc | ⟨t, ht, hc⟩
        · exact hself (hc ▸ hroot.1)
        · exact hno t ht (hc ▸ hroot.1)
  · constructor
    · intro h
      by_contra hns
      simp only [IdentitySafe, not_or, not_forall] at hns
      obtain ⟨hself, hent, t, ht, hne⟩ := hns
      obtain ⟨e, he⟩ := Option.ne_none_iff_exists'.1 hent
      -- one call is enough to become the other uid
      have hrun := h [(.getCaps (switchRequest t), Faults.none)]
      rw [Runs.run_cons, Runs.run_nil, issue_switchRequest henf he, capsCred_caller,
        if_pos (show (switchRequest t).targetUid ≠ 0 from ht)] at hrun
      exact hrun.elim hne hself
    · rintro (hself | hnone | hsame) calls
      · exact Or.inr hself
      · rw [run_eq_of_entryFor_none henf hnone]; exact Or.inl rfl
      · by_cases hself : s.table.GrantsFullRoot s.caller
        · exact Or.inr hself
        · have hno : ∀ t ≠ 0, ¬ s.table.GrantsFullRoot (s.switchTo t) := by
            intro t ht; rw [hsame t ht]; exact hself
          have hsw : Switched s (Runs.run issue s calls) :=
            Runs.run_invariant (fun s' c hs => hs.issue hself hno c) (Switched.refl henf) calls
          rcases hsw.caller with hc | ⟨t, ht, hc⟩
          · exact Or.inl hc
          · exact Or.inl (hc.trans (hsame t ht))

theorem rootConfined_mountApp :
    mountApp.enforce = true ∧
      ((∀ calls, ObtainsRoot mountApp calls → mountApp.table.GrantsFullRoot mountApp.caller) ↔
        RootSafe mountApp) :=
  ⟨rfl, (rootConfined_iff mountApp rfl).1⟩

/-- The mount app asks for no capability at all and for the uid of the shell, and is root one call
later, without a full-root entry of its own. -/
theorem rootEscape_mountApp :
    mountApp.enforce = true ∧ mountApp.caller = 10123 ∧
    ObtainsRoot mountApp
      [(.getCaps (switchRequest 2000), Faults.none), (.getRoot, Faults.none)] ∧
    ¬ mountApp.table.GrantsFullRoot mountApp.caller := by
  have he : mountApp.table.entryFor mountApp.caller = some ⟨10123, 1#64 <<< 21, 0⟩ := by decide
  have hshell : mountApp.table.GrantsFullRoot (mountApp.switchTo 2000) :=
    ⟨⟨2000, allCapsMask, 1⟩, by decide, by decide⟩
  refine ⟨rfl, rfl, obtainsRoot_of_switch rfl he (by decide) hshell, ?_⟩
  rintro ⟨e, he', hfull⟩
  rw [he] at he'
  cases he'
  exact hfull rfl

end AstraVeil.Kernel
