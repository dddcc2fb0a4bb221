import AstraVeil.Lib.KotlinString
import AstraVeil.Lib.Runs

/-!
# Approval of privileged shells in the terminal

`app/terminal/TerminalViewModel.kt`: the flags that stand between a tap in the terminal and a shell
under `su`.  `requestPrivilegedSession` goes on in a coroutine, so that its end is an event of its
own (`opened`).  Two history variables are kept along: whether the user has acknowledged the dialog
since the last `endSession`, and every shell started, with the value of the first at that moment.

* `opened_of_fallenBack`: `sessionApproved` is set without an acknowledgement by a request that
  finds no root backend, and by nothing else;
* `safe_run_iff`: in every sequence of calls all privileged shells are started with approval
  exactly when `cycleMode` is never called in that situation.
-/

namespace AstraVeil.App

open Utf16 KotlinString Runs

/-- `TerminalMode`. -/
inductive TerminalMode
  | root
  | adb
  | shell
  deriving DecidableEq

/-- The modes in the order of `cycleMode`. -/
def TerminalMode.next : TerminalMode → TerminalMode
  | .root => .adb
  | .adb => .shell
  | .shell => .root

/-- The command of the shell of a mode. -/
def shellCommand : TerminalMode → List JString
  | .root => [ofString "su"]
  | .adb => [ofString "su", ofString "2000"]
  | .shell => [ofString "sh"]

/-- The shells that need approval. -/
def Privileged (command : List JString) : Prop :=
  command = [ofString "su"] ∨ command = [ofString "su", ofString "2000"]

/-- `ShellSession`, as far as the view model looks at it. -/
structure ShellSession where
  command : List JString
  isAlive : Bool

/-- `TerminalViewModel`, with what is under way and the history of its shells. -/
structure TerminalViewModel where
  mode : TerminalMode
  needsApproval : Bool
  sessionApproved : Bool
  isRunning : Bool
  shell : Option ShellSession
  /-- `privilegedSession` is not null.  A session that was closed is dropped, so that `approve()`
  never throws. -/
  privilegedSession : Bool
  /-- The calls of `sessionFactory.open` that have not come back. -/
  opening : ℕ
  /-- History: the dialog was acknowledged after the last `endSession`. -/
  acknowledged : Bool
  /-- History: the shells started, each with `acknowledged` at that moment. -/
  started : List (List JString × Bool)

/-- What can happen to the view model. -/
inductive Event
  | cycleMode
  | requestPrivilegedSession
  /-- `sessionFactory.open` comes back, with a root backend or without. -/
  | opened (found : Bool)
  /-- The dialog's button, which is there while `needsApproval` is. -/
  | acknowledge
  | cancelApproval
  | executeCommand (raw : JString)
  | interrupt
  | endSession
  | commandFinished
  | shellDied

namespace TerminalViewModel

/-- A new view model. -/
def initial : TerminalViewModel where
  mode := .root
  needsApproval := false
  sessionApproved := false
  isRunning := false
  shell := none
  privilegedSession := false
  opening := 0
  acknowledged := false
  started := []

variable (vm : TerminalViewModel)

/-- `shell?.kill()`. -/
def killShell : TerminalViewModel :=
  { vm with shell := vm.shell.map fun s => { s with isAlive := false } }

/-- `startShell`. -/
def startShell (command : List JString) : TerminalViewModel :=
  { vm with
    shell := some ⟨command, true⟩
    started := vm.started ++ [(command, vm.acknowledged)] }

/-- `beginSession`. -/
def beginSession : TerminalViewModel :=
  { vm.startShell (shellCommand vm.mode) with needsApproval := false, sessionApproved := true }

/-- `cycleMode`. -/
def cycleMode : TerminalViewModel :=
  let vm := { vm with mode := vm.mode.next }
  if vm.sessionApproved then vm.beginSession else vm

/-- `requestPrivilegedSession`, up to the call of `sessionFactory.open`. -/
def requestPrivilegedSession : TerminalViewModel :=
  if vm.sessionApproved then vm else { vm with opening := vm.opening + 1 }

/-- `requestPrivilegedSession`, from there on. -/
def opened (found : Bool) : TerminalViewModel :=
  if vm.opening = 0 then vm
  else
    let vm := { vm with opening := vm.opening - 1 }
    if found then { vm with privilegedSession := true, needsApproval := true }
    else { vm with mode := .shell }.beginSession

/-- The dialog's button: `beginSession`. -/
def acknowledge : TerminalViewModel :=
  if vm.needsApproval then { vm with acknowledged := true }.beginSession else vm

/-- `cancelApproval`. -/
def cancelApproval : TerminalViewModel :=
  { vm with needsApproval := false, privilegedSession := false, mode := .shell }

/-- `endSession`. -/
def endSession : TerminalViewModel :=
  { vm with
    shell := none
    privilegedSession := false
    sessionApproved := false
    isRunning := false
    acknowledged := false }

/-- There is a shell to send a command to. -/
def hasShell : Bool := (vm.shell.map ShellSession.isAlive).getD false

/-- `executeCommand`.  No letter outside ASCII has a lower case in `clear` or `exit`. -/
def executeCommand (raw : JString) : TerminalViewModel :=
  let command := trim raw
  if command.all isWhitespace || vm.isRunning then vm
  else if command.map lower = ofString "clear" then vm
  else if command.map lower = ofString "exit" then vm.endSession
  else if vm.mode ≠ .shell ∧ vm.sessionApproved = false then vm.requestPrivilegedSession
  else
    { (if vm.hasShell then vm else vm.startShell (shellCommand vm.mode)) with isRunning := true }

/-- What an event does. -/
def step : Event → TerminalViewModel
  | .cycleMode => vm.cycleMode
  | .requestPrivilegedSession => vm.requestPrivilegedSession
  | .opened found => vm.opened found
  | .acknowledge => vm.acknowledge
  | .cancelApproval => vm.cancelApproval
  | .executeCommand raw => vm.executeCommand raw
  | .interrupt => { vm.killShell with isRunning := false }
  | .endSession => vm.endSession
  | .commandFinished => { vm with isRunning := false }
  | .shellDied => { vm.killShell with isRunning := false }

/-- Every privileged shell was started with approval. -/
def Safe : Prop := ∀ e ∈ vm.started, Privileged e.1 → e.2 = true

/-- The session at hand is the app-UID shell that a request without a root backend fell back
to. -/
def FallenBack : Prop := vm.sessionApproved = true ∧ vm.acknowledged = false

/-- The event is not `cycleMode` on such a session. -/
def Stays (vm : TerminalViewModel) : Event → Prop
  | .cycleMode => ¬ vm.FallenBack
  | _ => True

/-- What holds as long as no privileged shell was started without approval. -/
structure Inv : Prop where
  safe : vm.Safe
  fallback : vm.FallenBack → vm.mode = .shell

variable {vm}

theorem privileged_shellCommand {mode : TerminalMode} :
    Privileged (shellCommand mode) ↔ mode ≠ .shell := by
  cases mode with
  | root => exact ⟨fun _ h => (by cases h), fun _ => Or.inl rfl⟩
  | adb => exact ⟨fun _ h => (by cases h), fun _ => Or.inr rfl⟩
  | shell =>
    refine ⟨fun h => ?_, fun h => absurd rfl h⟩
    rcases h with h | h
    · exact absurd h (by decide)
    · exact absurd h (by decide)

/-- A shell of the app's own uid, or one with approval. -/
theorem safe_startShell (h : vm.Safe) {mode : TerminalMode}
    (hok : mode = .shell ∨ vm.acknowledged = true) : (vm.startShell (shellCommand mode)).Safe := by
  intro e he hpriv
  rcases List.mem_append.1 he with he | he
  · exact h e he hpriv
  · obtain rfl := List.mem_singleton.1 he
    rcases hok with hmode | hack
    · exact absurd hmode (privileged_shellCommand.1 hpriv)
    · exact hack

/-- `beginSession` in the app's own shell, or with approval. -/
theorem inv_beginSession (h : vm.Safe) (hok : vm.mode = .shell ∨ vm.acknowledged = true) :
    vm.beginSession.Inv where
  safe := safe_startShell h hok
  fallback hf := by
    rcases hok with hmode | hack
    · exact hmode
    · have hnot : vm.acknowledged = false := hf.2
      rw [hack] at hnot
      cases hnot

/-- A session that is not the fallback is approved or not there. -/
theorem acknowledged_of_not_fallenBack (h : ¬ vm.FallenBack) (happ : vm.sessionApproved = true) :
    vm.acknowledged = true := by
  by_contra hack
  exact h ⟨happ, by simpa using hack⟩

theorem inv_endSession (h : vm.Inv) : vm.endSession.Inv where
  safe := h.safe
  fallback hf := by cases hf.1

theorem requestPrivilegedSession_eq (vm : TerminalViewModel) :
    ∃ n, vm.requestPrivilegedSession = { vm with opening := n } := by
  unfold requestPrivilegedSession
  split
  · exact ⟨vm.opening, rfl⟩
  · exact ⟨vm.opening + 1, rfl⟩

/-- What `executeCommand` can come to. -/
theorem executeCommand_cases (vm : TerminalViewModel) (raw : JString) :
    (∃ running n, vm.executeCommand raw = { vm with isRunning := running, opening := n }) ∨
    vm.executeCommand raw = vm.endSession ∨
    ((vm.mode = .shell ∨ vm.sessionApproved = true) ∧
      vm.executeCommand raw = { vm.startShell (shellCommand vm.mode) with isRunning := true }) := by
  unfold executeCommand
  simp only
  split
  · exact Or.inl ⟨vm.isRunning, vm.opening, rfl⟩
  split
  · exact Or.inl ⟨vm.isRunning, vm.opening, rfl⟩
  split
  · exact Or.inr (Or.inl rfl)
  split
  · obtain ⟨n, hn⟩ := requestPrivilegedSession_eq vm
    exact Or.inl ⟨vm.isRunning, n, hn⟩
  · rename_i hnot
    split
    · exact Or.inl ⟨true, vm.opening, rfl⟩
    · refine Or.inr (Or.inr ⟨?_, rfl⟩)
      by_contra hnone
      obtain ⟨hmode, happ⟩ := not_or.1 hnone
      exact hnot ⟨hmode, by simpa using happ⟩

theorem inv_executeCommand (h : vm.Inv) (raw : JString) : (vm.executeCommand raw).Inv := by
  rcases executeCommand_cases vm raw with ⟨running, n, heq⟩ | heq | ⟨hok, heq⟩
  · rw [heq]
    exact ⟨h.safe, h.fallback⟩
  · rw [heq]
    exact inv_endSession h
  · rw [heq]
    refine ⟨safe_startShell h.safe ?_, h.fallback⟩
    by_cases hmode : vm.mode = .shell
    · exact Or.inl hmode
    · exact Or.inr (acknowledged_of_not_fallenBack (fun hf => hmode (h.fallback hf))
        (hok.resolve_left hmode))

theorem inv_step (h : vm.Inv) {e : Event} (hok : Stays vm e) : (vm.step e).Inv := by
  cases e with
  | cycleMode =>
    rw [step, cycleMode]
    simp only
    split
    · rename_i happ
      exact inv_beginSession h.safe (Or.inr (acknowledged_of_not_fallenBack hok happ))
    · rename_i happ
      exact ⟨h.safe, fun hf => absurd hf.1 happ⟩
  | requestPrivilegedSession =>
    obtain ⟨n, hn⟩ := requestPrivilegedSession_eq vm
    rw [step, hn]
    exact ⟨h.safe, h.fallback⟩
  | opened found =>
    rw [step, opened]
    split
    · exact h
    simp only
    split
    · exact ⟨h.safe, h.fallback⟩
    · exact inv_beginSession h.safe (Or.inl rfl)
  | acknowledge =>
    rw [step, acknowledge]
    split
    · exact inv_beginSession h.safe (Or.inr rfl)
    · exact h
  | cancelApproval => exact ⟨h.safe, fun _ => rfl⟩
  | executeCommand raw => exact inv_executeCommand h raw
  | interrupt => exact ⟨h.safe, h.fallback⟩
  | endSession => exact inv_endSession h
  | commandFinished => exact ⟨h.safe, h.fallback⟩
  | shellDied => exact ⟨h.safe, h.fallback⟩

/-- `sessionApproved` without an acknowledgement comes from a request without a root backend. -/
theorem opened_of_fallenBack {e : Event} (hbefore : ¬ vm.FallenBack)
    (hafter : (vm.step e).FallenBack) : e = .opened false := by
  cases e with
  | opened found =>
    cases found with
    | false => rfl
    | true =>
      rw [step, opened] at hafter
      split at hafter
      · exact absurd hafter hbefore
      · exact absurd hafter hbefore
  | cycleMode =>
    rw [step, cycleMode] at hafter
    simp only at hafter
    split at hafter
    · rename_i happ
      exact absurd ⟨happ, hafter.2⟩ hbefore
    · exact absurd hafter hbefore
  | acknowledge =>
    rw [step, acknowledge] at hafter
    split at hafter
    · cases hafter.2
    · exact absurd hafter hbefore
  | requestPrivilegedSession =>
    obtain ⟨n, hn⟩ := requestPrivilegedSession_eq vm
    rw [step, hn] at hafter
    exact absurd hafter hbefore
  | executeCommand raw =>
    rw [step] at hafter
    rcases executeCommand_cases vm raw with ⟨running, n, heq⟩ | heq | ⟨-, heq⟩
    · rw [heq] at hafter
      exact absurd hafter hbefore
    · rw [heq] at hafter
      cases hafter.1
    · rw [heq] at hafter
      exact absurd hafter hbefore
  | endSession => cases hafter.1
  | cancelApproval | interrupt | commandFinished | shellDied => exact absurd hafter hbefore

/-- Shells are only added to the history. -/
theorem started_step (vm : TerminalViewModel) (e : Event) : vm.started ⊆ (vm.step e).started := by
  cases e with
  | cycleMode =>
    rw [step, cycleMode]
    simp only
    split
    · exact List.subset_append_left _ _
    · exact List.Subset.refl _
  | opened found =>
    rw [step, opened]
    split
    · exact List.Subset.refl _
    simp only
    split
    · exact List.Subset.refl _
    · exact List.subset_append_left _ _
  | acknowledge =>
    rw [step, acknowledge]
    split
    · exact List.subset_append_left _ _
    · exact List.Subset.refl _
  | requestPrivilegedSession =>
    obtain ⟨n, hn⟩ := requestPrivilegedSession_eq vm
    rw [step, hn]
    exact List.Subset.refl _
  | executeCommand raw =>
    rw [step]
    rcases executeCommand_cases vm raw with ⟨running, n, heq⟩ | heq | ⟨-, heq⟩
    · rw [heq]
      exact List.Subset.refl _
    · rw [heq]
      exact List.Subset.refl _
    · rw [heq]
      exact List.subset_append_left _ _
  | cancelApproval | interrupt | endSession | commandFinished | shellDied =>
    exact List.Subset.refl _

theorem started_run (vm : TerminalViewModel) (es : List Event) :
    vm.started ⊆ (run step vm es).started := by
  induction es generalizing vm with
  | nil => exact List.Subset.refl _
  | cons e es ih => exact fun x hx => ih (vm.step e) (started_step vm e hx)

/-- `cycleMode` on the fallback shell starts `su`. -/
theorem not_safe_cycleMode (h : vm.Inv) (hf : vm.FallenBack) : ¬ (vm.step .cycleMode).Safe := by
  intro hsafe
  have hmode := h.fallback hf
  have hstarted : (vm.step .cycleMode).started =
      vm.started ++ [(shellCommand .root, vm.acknowledged)] := by
    rw [step, cycleMode]
    simp only [hf.1, if_true, hmode]
    rfl
  have hmem : (shellCommand .root, vm.acknowledged) ∈ (vm.step .cycleMode).started := by
    rw [hstarted]
    simp
  have hack := hsafe _ hmem (Or.inl rfl)
  rw [hf.2] at hack
  cases hack

/-- **In every sequence of events all privileged shells are started with approval exactly when
`cycleMode` is never called on the shell that a request without a root backend fell back to.** -/
theorem safe_run_iff (es : List Event) :
    (run step initial es).Safe ↔ Along step Stays initial es := by
  suffices hall : ∀ vm : TerminalViewModel, vm.Inv →
      ((run step vm es).Safe ↔ Along step Stays vm es) from
    hall initial ⟨fun e he => (by cases he), fun hf => (by cases hf.1)⟩
  induction es with
  | nil => exact fun vm h => ⟨fun _ => trivial, fun _ => h.safe⟩
  | cons e es ih =>
    intro vm h
    by_cases hok : Stays vm e
    · rw [run_cons, ih _ (inv_step h hok)]
      exact ⟨fun hrest => ⟨hok, hrest⟩, fun hrest => hrest.2⟩
    · refine ⟨fun hsafe => ?_, fun hrest => absurd hrest.1 hok⟩
      cases e with
      | cycleMode =>
        refine absurd (fun x hx => ?_) (not_safe_cycleMode h (not_not.1 hok))
        exact hsafe x (started_run _ es hx)
      | _ => exact absurd trivial hok

/-- A request that finds no root backend, then a tap on the mode: `su` starts without approval. -/
theorem not_safe_fallback : ¬ ∀ es : List Event, (run step initial es).Safe := by
  intro h
  have hsafe := h [.requestPrivilegedSession, .opened false, .cycleMode]
  have hack := hsafe (shellCommand .root, false) (by decide) (Or.inl rfl)
  cases hack

end TerminalViewModel

end AstraVeil.App
