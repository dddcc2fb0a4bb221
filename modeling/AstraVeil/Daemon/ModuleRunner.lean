import AstraVeil.Lib.Runs

/-!
# The processes of modules

`ModuleRunner::start` and `stop` of `daemon/src/module/module_runner.cpp`, called by any number of
threads.  The lock is held for one look at `g_running` or one change of it, and what a thread does
between two such sections, `fork` or the wait for a child, is a step of its own.  A child that ends
stays a zombie, and its pid in use, until somebody waits for it.

* `step_iff`: when one step keeps the table right and answers right;
* `Orderly`: what holds where calls for one module do not overlap;
* `module_runner_iff`: all steps of a run are right where calls for one module do not overlap and no
  module is started whose process has ended, and exactly where every step goes well.
-/

namespace AstraVeil.Daemon.ModuleRunner

open Runs

abbrev ModuleId := String
abbrev Pid := ℕ
abbrev Thread := ℕ

/-- A child process that nobody has waited for. -/
inductive Child
  | live (m : ModuleId)
  | zombie
  deriving DecidableEq

/-- Where a thread is: in no call, in `start` before `fork` or before the pid is recorded, in `stop`
with the pid it has found or before the pid is erased. -/
inductive Phase
  | idle
  | forking (m : ModuleId)
  | recording (m : ModuleId) (child : Pid)
  | stopping (m : ModuleId) (pid : Pid)
  | erasing (m : ModuleId)
  deriving DecidableEq

/-- `g_running`, the children of the daemon and its threads. -/
structure State where
  running : ModuleId → Option Pid
  children : Pid → Option Child
  phase : Thread → Phase

/-- The steps: the sections of `start` and `stop`, and the end of a child.  `fork` fails or returns
a pid. -/
inductive Action
  | check (t : Thread) (m : ModuleId)
  | fork (t : Thread) (pid : Option Pid)
  | record (t : Thread)
  | find (t : Thread) (m : ModuleId)
  | reap (t : Thread)
  | erase (t : Thread)
  | exit (pid : Pid)

/-- What a call returns, and why. -/
inductive Return
  | alreadyRunning (m : ModuleId)
  | forkFailed (m : ModuleId)
  | started (m : ModuleId)
  | notRunning (m : ModuleId)
  | stopped (m : ModuleId)
  deriving DecidableEq

/-- A thread goes on. -/
def State.setPhase (s : State) (t : Thread) (p : Phase) : State :=
  { s with phase := Function.update s.phase t p }

/-- One step; a thread that is not there does nothing, and `fork` does not return a pid in use. -/
def step (s : State) : Action → State
  | .check t m =>
      match s.phase t, s.running m with
      | .idle, none => s.setPhase t (.forking m)
      | _, _ => s
  | .fork t none =>
      match s.phase t with
      | .forking _ => s.setPhase t .idle
      | _ => s
  | .fork t (some pid) =>
      match s.phase t, s.children pid with
      | .forking m, none =>
          { s.setPhase t (.recording m pid) with
            children := Function.update s.children pid (some (.live m)) }
      | _, _ => s
  | .record t =>
      match s.phase t with
      | .recording m pid =>
          { s.setPhase t .idle with running := Function.update s.running m (some pid) }
      | _ => s
  | .find t m =>
      match s.phase t, s.running m with
      | .idle, some pid => s.setPhase t (.stopping m pid)
      | _, _ => s
  -- `kill` and `waitpid`: whatever child has the pid is gone afterwards
  | .reap t =>
      match s.phase t with
      | .stopping m pid =>
          { s.setPhase t (.erasing m) with children := Function.update s.children pid none }
      | _ => s
  | .erase t =>
      match s.phase t with
      | .erasing m => { s.setPhase t .idle with running := Function.update s.running m none }
      | _ => s
  | .exit pid =>
      match s.children pid with
      | some (.live _) => { s with children := Function.update s.children pid (some .zombie) }
      | _ => s

/-- The call that returns with a step. -/
def returns (s : State) : Action → Option Return
  | .check t m =>
      match s.phase t, s.running m with
      | .idle, some _ => some (.alreadyRunning m)
      | _, _ => none
  | .fork t none =>
      match s.phase t with
      | .forking m => some (.forkFailed m)
      | _ => none
  | .record t =>
      match s.phase t with
      | .recording m _ => some (.started m)
      | _ => none
  | .find t m =>
      match s.phase t, s.running m with
      | .idle, none => some (.notRunning m)
      | _, _ => none
  | .erase t =>
      match s.phase t with
      | .erasing m => some (.stopped m)
      | _ => none
  | _ => none

/-- No module runs and no call is under way. -/
def initial : State := ⟨fun _ => none, fun _ => none, fun _ => .idle⟩

/-! ### What is expected -/

/-- The process `pid` is a child that runs the module. -/
def Live (s : State) (m : ModuleId) (pid : Pid) : Prop := s.children pid = some (.live m)

instance (s : State) (m : ModuleId) (pid : Pid) : Decidable (Live s m pid) :=
  inferInstanceAs (Decidable (_ = _))

/-- The module has a live child. -/
def HasLive (s : State) (m : ModuleId) : Prop := ∃ pid, Live s m pid

/-- A thread has forked the child and has not recorded its pid. -/
def InWindow (s : State) (m : ModuleId) (pid : Pid) : Prop := ∃ t, s.phase t = .recording m pid

/-- A module has at most one live child, whose pid is recorded or about to be. -/
structure Safe (s : State) : Prop where
  unique : ∀ m p q, Live s m p → Live s m q → p = q
  recorded : ∀ m p, Live s m p → s.running m = some p ∨ InWindow s m p

/-- A start is refused only if the module has a live child, and a module that was stopped has
none. -/
def AnswersRight (s : State) (a : Action) : Prop :=
  match returns s a with
  | some (.alreadyRunning m) => HasLive s m
  | some (.stopped m) => ¬ HasLive (step s a) m
  | _ => True

/-- The module has a live child that is recorded or about to be. -/
def Occupied (s : State) (m : ModuleId) : Prop :=
  ∃ pid, Live s m pid ∧ (s.running m = some pid ∨ InWindow s m pid)

/-- The step goes well: a start is refused for an occupied module only, `fork` succeeds and a pid is
erased for an unoccupied one only, and a recorded pid does not displace that of a live child, unless
that one is about to be recorded itself. -/
def GoesWell (s : State) : Action → Prop
  | .check t m => s.phase t = .idle → s.running m ≠ none → Occupied s m
  | .fork t (some pid) =>
      ∀ m, s.phase t = .forking m → s.children pid = none → ¬ Occupied s m
  | .record t => ∀ m pid, s.phase t = .recording m pid →
      ∀ q, s.running m = some q → Live s m q → q = pid ∨ InWindow s m q
  | .erase t => ∀ m, s.phase t = .erasing m → ¬ Occupied s m
  | _ => True

/-! ### States -/

variable {s : State}

theorem Safe.hasLive_iff (h : Safe s) {m : ModuleId} : HasLive s m ↔ Occupied s m :=
  ⟨fun ⟨pid, hpid⟩ => ⟨pid, hpid, h.recorded m pid hpid⟩, fun ⟨pid, hpid, _⟩ => ⟨pid, hpid⟩⟩

theorem safe_initial : Safe initial where
  unique := fun m p q hp => by cases hp
  recorded := fun m p hp => by cases hp

/-- Fewer live children, with their pids where they were. -/
theorem Safe.mono {s' : State} (h : Safe s) (hlive : ∀ m p, Live s' m p → Live s m p)
    (hrunning : ∀ m p, Live s' m p → s.running m = some p → s'.running m = some p)
    (hwindow : ∀ m p, Live s' m p → InWindow s m p → s'.running m = some p ∨ InWindow s' m p) :
    Safe s' where
  unique := fun m p q hp hq => h.unique m p q (hlive m p hp) (hlive m q hq)
  recorded := fun m p hp =>
    (h.recorded m p (hlive m p hp)).elim (fun hr => Or.inl (hrunning m p hp hr)) (hwindow m p hp)

/-- A thread that goes on from elsewhere leaves the children of the others where they are. -/
theorem inWindow_of_ne {s' : State} {t : Thread} {ph ph' : Phase} {m : ModuleId} {p : Pid}
    (hphase : s.phase t = ph) (hnext : s'.phase = Function.update s.phase t ph')
    (hne : ph ≠ .recording m p) (h : InWindow s m p) : InWindow s' m p := by
  obtain ⟨t', ht'⟩ := h
  have htt : t' ≠ t := by
    rintro rfl
    exact hne (hphase.symm.trans ht')
  exact ⟨t', by rw [hnext, Function.update_of_ne htt, ht']⟩

theorem safe_setPhase (h : Safe s) {t : Thread} {ph : Phase} (hphase : s.phase t = ph)
    (hne : ∀ m p, ph ≠ .recording m p) (ph' : Phase) : Safe (s.setPhase t ph') :=
  h.mono (fun _ _ hp => hp) (fun _ _ _ hr => hr)
    fun m p _ hw => Or.inr (inWindow_of_ne hphase rfl (hne m p) hw)

/-! ### One step -/

theorem check_iff (h : Safe s) (t : Thread) (m : ModuleId) :
    Safe (step s (.check t m)) ∧ AnswersRight s (.check t m) ↔ GoesWell s (.check t m) := by
  cases hphase : s.phase t with
  | idle =>
    cases hrun : s.running m with
    | none =>
      have hsafe : Safe (s.setPhase t (.forking m)) :=
        safe_setPhase h hphase (fun _ _ => Phase.noConfusion) _
      simp [step, AnswersRight, returns, GoesWell, hphase, hrun, hsafe]
    | some pid => simp [step, AnswersRight, returns, GoesWell, hphase, hrun, h, h.hasLive_iff]
  | _ => simp [step, AnswersRight, returns, GoesWell, hphase, h]

/-- A new child of a module: it must be the only one. -/
theorem safe_fork_iff (h : Safe s) {t : Thread} {m : ModuleId} {pid : Pid}
    (hphase : s.phase t = .forking m) (hfree : s.children pid = none) :
    Safe { s.setPhase t (.recording m pid) with
      children := Function.update s.children pid (some (.live m)) } ↔ ¬ HasLive s m := by
  constructor
  · rintro hsafe ⟨q, hq⟩
    have hqp : q ≠ pid := by
      rintro rfl
      exact absurd (hfree.symm.trans hq) (by simp)
    refine hqp (hsafe.unique m q pid ?_ ?_)
    · exact (Function.update_of_ne hqp _ _).trans hq
    · exact Function.update_self _ _ _
  · intro hno
    -- the new child, or a child from before of another module
    have hcases : ∀ m' q, Function.update s.children pid (some (.live m)) q = some (.live m') →
        m' = m ∧ q = pid ∨ m' ≠ m ∧ Live s m' q := by
      intro m' q hq
      by_cases hqp : q = pid
      · rw [hqp, Function.update_self] at hq
        obtain rfl := Child.live.inj (Option.some.inj hq)
        exact Or.inl ⟨rfl, hqp⟩
      · rw [Function.update_of_ne hqp] at hq
        refine Or.inr ⟨?_, hq⟩
        rintro rfl
        exact hno ⟨q, hq⟩
    constructor
    · intro m' p q hp hq
      rcases hcases m' p hp with ⟨rfl, rfl⟩ | ⟨hm, hp'⟩
      · rcases hcases m' q hq with ⟨-, rfl⟩ | ⟨hm, -⟩
        · rfl
        · exact absurd rfl hm
      · rcases hcases m' q hq with ⟨rfl, -⟩ | ⟨-, hq'⟩
        · exact absurd rfl hm
        · exact h.unique m' p q hp' hq'
    · intro m' p hp
      rcases hcases m' p hp with ⟨rfl, rfl⟩ | ⟨-, hp'⟩
      · exact Or.inr ⟨t, Function.update_self _ _ _⟩
      · exact (h.recorded m' p hp').imp id (inWindow_of_ne hphase rfl Phase.noConfusion)

theorem fork_iff (h : Safe s) (t : Thread) (pid : Pid) :
    Safe (step s (.fork t (some pid))) ∧ AnswersRight s (.fork t (some pid)) ↔
      GoesWell s (.fork t (some pid)) := by
  cases hphase : s.phase t with
  | forking m =>
    cases hfree : s.children pid with
    | none =>
      simp [step, AnswersRight, returns, GoesWell, hphase, hfree, safe_fork_iff h hphase hfree,
        h.hasLive_iff]
    | some c => simp [step, AnswersRight, returns, GoesWell, hphase, hfree, h]
  | _ => simp [step, AnswersRight, returns, GoesWell, hphase, h]

/-- A pid is recorded: no live child's pid may be displaced. -/
theorem safe_record_iff (h : Safe s) {t : Thread} {m : ModuleId} {pid : Pid}
    (hphase : s.phase t = .recording m pid) :
    Safe { s.setPhase t .idle with running := Function.update s.running m (some pid) } ↔
      ∀ q, s.running m = some q → Live s m q → q = pid ∨ InWindow s m q := by
  constructor
  · intro hsafe q _ hq
    rcases hsafe.recorded m q hq with hrun | ⟨t', ht'⟩
    · have hrun' := (Function.update_self m (some pid) s.running).symm.trans hrun
      exact Or.inl (Option.some.inj hrun').symm
    · by_cases htt : t' = t
      · rw [htt, show (s.setPhase t .idle).phase t = .idle from Function.update_self _ _ _] at ht'
        cases ht'
      · exact Or.inr ⟨t', (Function.update_of_ne htt _ _).symm.trans ht'⟩
  · intro hkept
    refine ⟨h.unique, fun m' q hq => ?_⟩
    have hwindow : InWindow s m' q → ¬ (m' = m ∧ q = pid) →
        InWindow { s.setPhase t .idle with
          running := Function.update s.running m (some pid) } m' q := by
      intro hw hne
      refine inWindow_of_ne hphase rfl ?_ hw
      rintro heq
      cases heq
      exact hne ⟨rfl, rfl⟩
    by_cases hm : m' = m
    · subst hm
      by_cases hqp : q = pid
      · exact Or.inl (by rw [hqp]; exact Function.update_self _ _ _)
      · have hw : InWindow s m' q := (h.recorded m' q hq).elim
          (fun hrun => (hkept q hrun hq).resolve_left hqp) id
        exact Or.inr (hwindow hw fun hboth => hqp hboth.2)
    · refine (h.recorded m' q hq).imp (fun hrun => ?_) fun hw => hwindow hw fun hboth => hm hboth.1
      exact (Function.update_of_ne hm _ _).trans hrun

theorem record_iff (h : Safe s) (t : Thread) :
    Safe (step s (.record t)) ∧ AnswersRight s (.record t) ↔ GoesWell s (.record t) := by
  cases hphase : s.phase t with
  | recording m pid =>
    simp [step, AnswersRight, returns, GoesWell, hphase, safe_record_iff h hphase]
  | _ => simp [step, AnswersRight, returns, GoesWell, hphase, h]

/-- A pid is erased, of a module without live child. -/
theorem safe_erase (h : Safe s) {t : Thread} {m : ModuleId} (hphase : s.phase t = .erasing m)
    (hno : ¬ HasLive s m) :
    Safe { s.setPhase t .idle with running := Function.update s.running m none } := by
  refine h.mono (fun _ _ hp => hp) (fun m' p hp hrun => ?_) fun m' p _ hw => Or.inr ?_
  · have hm : m' ≠ m := by
      rintro rfl
      exact hno ⟨p, hp⟩
    exact (Function.update_of_ne hm _ _).trans hrun
  · exact inWindow_of_ne hphase rfl Phase.noConfusion hw

theorem erase_iff (h : Safe s) (t : Thread) :
    Safe (step s (.erase t)) ∧ AnswersRight s (.erase t) ↔ GoesWell s (.erase t) := by
  cases hphase : s.phase t with
  | erasing m =>
    have hstep : step s (.erase t) =
        { s.setPhase t .idle with running := Function.update s.running m none } := by
      simp [step, hphase]
    have hanswers : AnswersRight s (.erase t) ↔ ¬ HasLive s m := by
      simp only [AnswersRight, returns, hphase, hstep]
      rfl
    have hwell : GoesWell s (.erase t) ↔ ¬ HasLive s m := by
      simp [GoesWell, hphase, h.hasLive_iff]
    rw [hanswers, hwell, hstep]
    exact and_iff_right_of_imp (safe_erase h hphase)
  | _ => simp [step, AnswersRight, returns, GoesWell, hphase, h]

/-- A child that ends or is waited for. -/
theorem safe_update_children (h : Safe s) {phase : Thread → Phase} {pid : Pid} {c : Option Child}
    (hc : ∀ m, c ≠ some (.live m))
    (hwindow : ∀ m p, InWindow s m p → ∃ t, phase t = .recording m p) :
    Safe ⟨s.running, Function.update s.children pid c, phase⟩ := by
  refine h.mono (fun m p hp => ?_) (fun _ _ _ hr => hr) fun m p _ hw => Or.inr (hwindow m p hw)
  change Function.update s.children pid c p = some (.live m) at hp
  by_cases hpid : p = pid
  · rw [hpid, Function.update_self] at hp
    exact absurd hp (hc m)
  · rwa [Function.update_of_ne hpid] at hp

theorem forkFails_iff (h : Safe s) (t : Thread) :
    Safe (step s (.fork t none)) ∧ AnswersRight s (.fork t none) ↔ GoesWell s (.fork t none) := by
  cases hphase : s.phase t with
  | forking m =>
    have hsafe : Safe (s.setPhase t .idle) :=
      safe_setPhase h hphase (fun _ _ => Phase.noConfusion) _
    simp [step, AnswersRight, returns, GoesWell, hphase, hsafe]
  | _ => simp [step, AnswersRight, returns, GoesWell, hphase, h]

theorem find_iff (h : Safe s) (t : Thread) (m : ModuleId) :
    Safe (step s (.find t m)) ∧ AnswersRight s (.find t m) ↔ GoesWell s (.find t m) := by
  cases hphase : s.phase t with
  | idle =>
    cases hrun : s.running m with
    | none => simp [step, AnswersRight, returns, GoesWell, hphase, hrun, h]
    | some pid =>
      have hsafe : Safe (s.setPhase t (.stopping m pid)) :=
        safe_setPhase h hphase (fun _ _ => Phase.noConfusion) _
      simp [step, AnswersRight, returns, GoesWell, hphase, hrun, hsafe]
  | _ => simp [step, AnswersRight, returns, GoesWell, hphase, h]

theorem reap_iff (h : Safe s) (t : Thread) :
    Safe (step s (.reap t)) ∧ AnswersRight s (.reap t) ↔ GoesWell s (.reap t) := by
  cases hphase : s.phase t with
  | stopping m pid =>
    have hwindow : ∀ m' p, InWindow s m' p → InWindow (s.setPhase t (.erasing m)) m' p :=
      fun m' p => inWindow_of_ne hphase rfl Phase.noConfusion
    have hsafe : Safe { s.setPhase t (.erasing m) with
        children := Function.update s.children pid none } :=
      safe_update_children h (fun _ => Option.some_ne_none _ ∘ Eq.symm) hwindow
    simp [step, AnswersRight, returns, GoesWell, hphase, hsafe]
  | _ => simp [step, AnswersRight, returns, GoesWell, hphase, h]

/-- The end of a child, or nothing. -/
theorem step_exit_cases (s : State) (pid : Pid) : step s (.exit pid) = s ∨
    step s (.exit pid) = { s with children := Function.update s.children pid (some .zombie) } := by
  simp only [step]
  split
  · exact Or.inr rfl
  · exact Or.inl rfl

theorem exit_iff (h : Safe s) (pid : Pid) :
    Safe (step s (.exit pid)) ∧ AnswersRight s (.exit pid) ↔ GoesWell s (.exit pid) := by
  refine iff_of_true ⟨?_, trivial⟩ trivial
  rcases step_exit_cases s pid with hstep | hstep
  · rwa [hstep]
  · rw [hstep]
    exact safe_update_children h (fun _ => by simp) fun _ _ hw => hw

/-- When one step keeps the table right and answers right. -/
theorem step_iff (h : Safe s) (a : Action) :
    Safe (step s a) ∧ AnswersRight s a ↔ GoesWell s a := by
  cases a with
  | check t m => exact check_iff h t m
  | fork t pid =>
    cases pid with
    | none => exact forkFails_iff h t
    | some pid => exact fork_iff h t pid
  | record t => exact record_iff h t
  | find t m => exact find_iff h t m
  | reap t => exact reap_iff h t
  | erase t => exact erase_iff h t
  | exit pid => exact exit_iff h pid

/-! ### Runs -/

/-- At every moment of the run the table is right, and all its answers are. -/
def RunsRight (as : List Action) : Prop :=
  ∀ pre a post, as = pre ++ a :: post →
    Safe (run step initial (pre ++ [a])) ∧ AnswersRight (run step initial pre) a

theorem runsRight_iff (as : List Action) : RunsRight as ↔ Along step GoesWell initial as :=
  (along_iff_cuts (I := Safe) (fun _ a h => step_iff h a) safe_initial).symm

/-! ### Calls one after the other -/

/-- The module that the call of a thread is about. -/
def Phase.module : Phase → Option ModuleId
  | .idle => none
  | .forking m => some m
  | .recording m _ => some m
  | .stopping m _ => some m
  | .erasing m => some m

/-- A call for a module begins when no thread is in one, and a start not where the process that is
recorded has ended. -/
def Serial (s : State) : Action → Prop
  | .check _ m => (∀ t, (s.phase t).module ≠ some m) ∧
      ∀ pid, s.running m = some pid → Live s m pid
  | .find _ m => ∀ t, (s.phase t).module ≠ some m
  | _ => True

/-- What a thread knows where it is. -/
def Knows (s : State) : Phase → Prop
  | .idle => True
  | .forking m => s.running m = none
  | .recording m _ => s.running m = none
  | .stopping m pid => s.running m = some pid
  | .erasing m => ¬ HasLive s m

/-- No two threads are in calls for one module, and each knows what it should. -/
structure Orderly (s : State) : Prop where
  safe : Safe s
  alone : ∀ t t' m, (s.phase t).module = some m → (s.phase t').module = some m → t = t'
  knows : ∀ t, Knows s (s.phase t)

theorem orderly_initial : Orderly initial where
  safe := safe_initial
  alone := fun t t' m h => by cases h
  knows := fun _ => trivial

theorem Orderly.knows_of (h : Orderly s) {t : Thread} {ph : Phase} (hphase : s.phase t = ph) :
    Knows s ph :=
  hphase ▸ h.knows t

/-- A thread before `fork` has the module for itself, and it does not run. -/
theorem Orderly.not_hasLive (h : Orderly s) {t : Thread} {m : ModuleId}
    (hphase : s.phase t = .forking m) : ¬ HasLive s m := by
  have hnone : s.running m = none := h.knows_of hphase
  rintro ⟨p, hp⟩
  rcases h.safe.recorded m p hp with hrun | ⟨t', ht'⟩
  · rw [hnone] at hrun
    cases hrun
  · obtain rfl : t = t' := h.alone t t' m (by rw [hphase]; rfl) (by rw [ht']; rfl)
    rw [hphase] at ht'
    cases ht'

/-- Where calls do not overlap, a step goes well. -/
theorem Orderly.goesWell (h : Orderly s) {a : Action} (ha : Serial s a) : GoesWell s a := by
  cases a with
  | check t m =>
    intro _ hrun
    obtain ⟨pid, hpid⟩ := Option.ne_none_iff_exists'.1 hrun
    exact ⟨pid, ha.2 pid hpid, Or.inl hpid⟩
  | fork t pid =>
    cases pid with
    | none => trivial
    | some pid => exact fun m hphase _ => h.safe.hasLive_iff.not.1 (h.not_hasLive hphase)
  | record t =>
    intro m pid hphase q hrun
    have hnone : s.running m = none := h.knows_of hphase
    rw [hnone] at hrun
    cases hrun
  | find t m => trivial
  | reap t => trivial
  | erase t => exact fun m hphase => h.safe.hasLive_iff.not.1 (h.knows_of hphase)
  | exit pid => trivial

/-- What a thread knows depends on its module only. -/
theorem Knows.frame {s' : State} {ph : Phase} (h : Knows s ph)
    (hsame : ∀ m, ph.module = some m →
      s'.running m = s.running m ∧ (HasLive s' m → HasLive s m)) : Knows s' ph := by
  cases ph with
  | idle => trivial
  | forking m => exact (hsame m rfl).1.trans h
  | recording m pid => exact (hsame m rfl).1.trans h
  | stopping m pid => exact (hsame m rfl).1.trans h
  | erasing m => exact fun hl => h ((hsame m rfl).2 hl)

theorem Orderly.others (h : Orderly s) {t : Thread} {m : ModuleId}
    (hm : (s.phase t).module = some m) : ∀ t', t' ≠ t → (s.phase t').module ≠ some m :=
  fun t' hne hm' => hne (h.alone t' t m hm' hm)

/-- A step of one thread for one module, with no other thread in a call for it. -/
theorem Orderly.update (h : Orderly s) {s' : State} {t : Thread} {ph : Phase} {m : ModuleId}
    (hsafe : Safe s') (hphase : s'.phase = Function.update s.phase t ph)
    (hothers : ∀ t', t' ≠ t → (s.phase t').module ≠ some m)
    (hmodule : ∀ m', ph.module = some m' → m' = m)
    (hsame : ∀ m', m' ≠ m → s'.running m' = s.running m' ∧ (HasLive s' m' → HasLive s m'))
    (hknows : Knows s' ph) : Orderly s' := by
  have hself : s'.phase t = ph := by rw [hphase, Function.update_self]
  have hother : ∀ t', t' ≠ t → s'.phase t' = s.phase t' := fun t' hne => by
    rw [hphase, Function.update_of_ne hne]
  -- the other threads are in calls for other modules
  have hne : ∀ t' m', t' ≠ t → (s.phase t').module = some m' → m' ≠ m := by
    rintro t' m' htt hm' rfl
    exact hothers t' htt hm'
  refine ⟨hsafe, fun t₁ t₂ m' h₁ h₂ => ?_, fun t' => ?_⟩
  · by_cases ht₁ : t₁ = t
    · by_cases ht₂ : t₂ = t
      · rw [ht₁, ht₂]
      · rw [ht₁, hself] at h₁
        rw [hother t₂ ht₂] at h₂
        exact absurd (hmodule m' h₁) (hne t₂ m' ht₂ h₂)
    · rw [hother t₁ ht₁] at h₁
      by_cases ht₂ : t₂ = t
      · rw [ht₂, hself] at h₂
        exact absurd (hmodule m' h₂) (hne t₁ m' ht₁ h₁)
      · rw [hother t₂ ht₂] at h₂
        exact h.alone t₁ t₂ m' h₁ h₂
  · by_cases ht : t' = t
    · rwa [ht, hself]
    · rw [hother t' ht]
      exact (h.knows t').frame fun m' hm' => hsame m' (hne t' m' ht hm')

/-- The live children after a change of one entry of the process table. -/
theorem hasLive_of_update {children : Pid → Option Child} {pid : Pid} {c : Option Child}
    {m : ModuleId} (hc : c ≠ some (.live m))
    (h : ∃ q, Function.update children pid c q = some (.live m)) :
    ∃ q, q ≠ pid ∧ children q = some (.live m) := by
  obtain ⟨q, hq⟩ := h
  by_cases hqp : q = pid
  · rw [hqp, Function.update_self] at hq
    exact absurd hq hc
  · exact ⟨q, hqp, (Function.update_of_ne hqp c children).symm.trans hq⟩

theorem Orderly.check (h : Orderly s) {t : Thread} {m : ModuleId}
    (hsafe : Safe (step s (.check t m))) (hothers : ∀ t, (s.phase t).module ≠ some m) :
    Orderly (step s (.check t m)) := by
  cases hphase : s.phase t with
  | idle =>
    cases hrun : s.running m with
    | none =>
      simp only [step, hphase, hrun] at hsafe ⊢
      exact h.update hsafe rfl (fun t' _ => hothers t') (fun m' hm => (Option.some.inj hm).symm)
        (fun _ _ => ⟨rfl, id⟩) hrun
    | some pid => simpa [step, hphase, hrun] using h
  | _ => simpa [step, hphase] using h

theorem Orderly.fork (h : Orderly s) {t : Thread} {pid : Option Pid}
    (hsafe : Safe (step s (.fork t pid))) : Orderly (step s (.fork t pid)) := by
  cases hphase : s.phase t with
  | forking m =>
    have hothers := h.others (t := t) (m := m) (by rw [hphase]; rfl)
    cases pid with
    | none =>
      simp only [step, hphase] at hsafe ⊢
      exact h.update hsafe rfl hothers (fun m' hm => by cases hm) (fun _ _ => ⟨rfl, id⟩) trivial
    | some pid =>
      cases hfree : s.children pid with
      | none =>
        simp only [step, hphase, hfree] at hsafe ⊢
        refine h.update hsafe rfl hothers (fun m' hm => (Option.some.inj hm).symm)
          (fun m' hm => ⟨rfl, fun hl => ?_⟩) (h.knows_of hphase)
        obtain ⟨q, -, hq⟩ := hasLive_of_update
          (fun hc => hm (Child.live.inj (Option.some.inj hc)).symm) hl
        exact ⟨q, hq⟩
      | some c => simpa [step, hphase, hfree] using h
  | _ => cases pid <;> simpa [step, hphase] using h

theorem Orderly.record (h : Orderly s) {t : Thread} (hsafe : Safe (step s (.record t))) :
    Orderly (step s (.record t)) := by
  cases hphase : s.phase t with
  | recording m pid =>
    simp only [step, hphase] at hsafe ⊢
    exact h.update hsafe rfl (h.others (by rw [hphase]; rfl)) (fun m' hm => by cases hm)
      (fun m' hm => ⟨Function.update_of_ne hm _ _, id⟩) trivial
  | _ => simpa [step, hphase] using h

theorem Orderly.find (h : Orderly s) {t : Thread} {m : ModuleId} (hsafe : Safe (step s (.find t m)))
    (hothers : ∀ t, (s.phase t).module ≠ some m) : Orderly (step s (.find t m)) := by
  cases hphase : s.phase t with
  | idle =>
    cases hrun : s.running m with
    | none => simpa [step, hphase, hrun] using h
    | some pid =>
      simp only [step, hphase, hrun] at hsafe ⊢
      exact h.update hsafe rfl (fun t' _ => hothers t') (fun m' hm => (Option.some.inj hm).symm)
        (fun _ _ => ⟨rfl, id⟩) hrun
  | _ => simpa [step, hphase] using h

/-- The child that `stop` waits for is the only one of the module. -/
theorem Orderly.reap (h : Orderly s) {t : Thread} (hsafe : Safe (step s (.reap t))) :
    Orderly (step s (.reap t)) := by
  cases hphase : s.phase t with
  | stopping m pid =>
    have hothers := h.others (t := t) (m := m) (by rw [hphase]; rfl)
    have hrun : s.running m = some pid := h.knows_of hphase
    simp only [step, hphase] at hsafe ⊢
    refine h.update hsafe rfl hothers (fun m' hm => (Option.some.inj hm).symm)
      (fun m' _ => ⟨rfl, fun hl => ?_⟩) fun hl => ?_
    · obtain ⟨q, -, hq⟩ := hasLive_of_update (by simp) hl
      exact ⟨q, hq⟩
    · obtain ⟨q, hne, hq⟩ := hasLive_of_update (by simp) hl
      rcases h.safe.recorded m q hq with hq | ⟨t', ht'⟩
      · exact hne (Option.some.inj (hq.symm.trans hrun))
      · obtain rfl : t = t' := h.alone t t' m (by rw [hphase]; rfl) (by rw [ht']; rfl)
        rw [hphase] at ht'
        cases ht'
  | _ => simpa [step, hphase] using h

theorem Orderly.erase (h : Orderly s) {t : Thread} (hsafe : Safe (step s (.erase t))) :
    Orderly (step s (.erase t)) := by
  cases hphase : s.phase t with
  | erasing m =>
    simp only [step, hphase] at hsafe ⊢
    exact h.update hsafe rfl (h.others (by rw [hphase]; rfl)) (fun m' hm => by cases hm)
      (fun m' hm => ⟨Function.update_of_ne hm _ _, id⟩) trivial
  | _ => simpa [step, hphase] using h

theorem Orderly.exit (h : Orderly s) {pid : Pid} (hsafe : Safe (step s (.exit pid))) :
    Orderly (step s (.exit pid)) := by
  rcases step_exit_cases s pid with hstep | hstep
  · rwa [hstep]
  · rw [hstep] at hsafe ⊢
    refine ⟨hsafe, h.alone, fun t => (h.knows t).frame fun m _ => ⟨rfl, fun hl => ?_⟩⟩
    obtain ⟨q, -, hq⟩ := hasLive_of_update (by simp) hl
    exact ⟨q, hq⟩

/-- Calls that do not overlap leave the threads in order. -/
theorem Orderly.step (h : Orderly s) {a : Action} (ha : Serial s a) : Orderly (step s a) := by
  have hsafe := ((step_iff h.safe a).2 (h.goesWell ha)).1
  cases a with
  | check t m => exact h.check hsafe ha.1
  | fork t pid => exact h.fork hsafe
  | record t => exact h.record hsafe
  | find t m => exact h.find hsafe ha
  | reap t => exact h.reap hsafe
  | erase t => exact h.erase hsafe
  | exit pid => exact h.exit hsafe

/-- Where calls for one module do not overlap, and no module is started whose process has ended by
itself, the table of processes is right. -/
theorem runsRight_of_serial {as : List Action} (has : Along step Serial initial as) :
    RunsRight as := by
  rw [runsRight_iff]
  exact along_of_invariant (fun _ _ h ha => ⟨h.goesWell ha, h.step ha⟩) orderly_initial has

/-- **In which runs the table of processes is right**, at every moment and in every answer: where
calls for one module do not overlap and no module is started whose process has ended by itself,
and exactly where every step goes well. -/
theorem module_runner_iff (as : List Action) :
    (Along step Serial initial as → RunsRight as) ∧
      (Safe initial ∧ RunsRight as ↔ Along step GoesWell initial as) := by
  refine ⟨runsRight_of_serial, ?_⟩
  rw [runsRight_iff]
  exact and_iff_right safe_initial

/-- A module starts, and is stopped. -/
def startStopRun : List Action :=
  [.check 0 "m", .fork 0 (some 1), .record 0, .find 0 "m", .reap 0, .erase 0]

theorem runsRight_startStopRun : RunsRight startStopRun := by
  have hidle : ∀ t, (run step initial [.check 0 "m", .fork 0 (some 1), .record 0]).phase t =
      .idle := by
    intro t
    simp [run, step, initial, State.setPhase]
  refine (module_runner_iff startStopRun).1 ⟨⟨fun t h => ?_, fun pid h => ?_⟩, trivial, trivial,
    fun t h => ?_, trivial, trivial, trivial⟩
  · cases h
  · cases h
  · have hphase := hidle t
    rw [run, List.foldl_cons, List.foldl_cons, List.foldl_cons, List.foldl_nil] at hphase
    rw [hphase] at h
    cases h

/-- A module starts, its process ends by itself, and it can never be started again. -/
def exitedRun : List Action :=
  [.check 0 "m", .fork 0 (some 1), .record 0, .exit 1, .check 0 "m"]

/-- Two threads start a module, and both find that it is not running. -/
def twiceRun : List Action :=
  [.check 0 "m", .fork 0 (some 1), .check 1 "m", .fork 1 (some 2)]

theorem not_runsRight_exitedRun : ¬ RunsRight exitedRun := by
  intro h
  have hrefused : HasLive _ "m" :=
    (h [.check 0 "m", .fork 0 (some 1), .record 0, .exit 1] (.check 0 "m") [] rfl).2
  obtain ⟨pid, hpid⟩ := hrefused
  by_cases h1 : pid = 1
  · subst h1
    exact absurd hpid (by decide)
  · have hchildren : (run step initial
        [.check 0 "m", .fork 0 (some 1), .record 0, .exit 1]).children =
          Function.update (Function.update initial.children 1 (some (.live "m"))) 1
            (some .zombie) := rfl
    rw [Live, hchildren, Function.update_of_ne h1, Function.update_of_ne h1] at hpid
    cases hpid

theorem not_runsRight_twiceRun : ¬ RunsRight twiceRun := by
  intro h
  have hsafe := (h [.check 0 "m", .fork 0 (some 1), .check 1 "m"] (.fork 1 (some 2)) [] rfl).1
  have hpid : 1 = 2 := hsafe.unique "m" 1 2 (by decide) (by decide)
  exact absurd hpid (by decide)

/-- Neither run is right. -/
theorem not_runsRight_sample : ¬ RunsRight exitedRun ∧ ¬ RunsRight twiceRun :=
  ⟨not_runsRight_exitedRun, not_runsRight_twiceRun⟩

end AstraVeil.Daemon.ModuleRunner
