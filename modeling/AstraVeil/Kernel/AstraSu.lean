import AstraVeil.Kernel.Ioctl
import AstraVeil.Lib.Utf16
import AstraVeil.Lib.Utf8
import Mathlib.Data.List.TakeWhile

/-!
# The su binary

`native/astra_su.c`: `main` over its argument vector, with what the system calls answer as an
argument.  A C string is the list of its bytes; `long` has 64 bits, `int` and `uid_t` 32.

* `uidOf_digits`: a decimal number below 2^32 is read as itself;
* `main_eq_execs`: when a shell is executed, and with which ids;
* `runsAsRequested_iff`: when it runs as the requested user;
* `runsAsRequested_kernel_iff`: the same with the kernel module of this repository behind the
  device;
* `astra_su_runs_as_requested_iff`: both together.
-/

namespace AstraVeil.Kernel

open Utf16 (ascii)

namespace AstraSu

/-- A C string. -/
abbrev CString := List UInt8

/-! ### `atoi` -/

/-- `isspace`. -/
def isSpace (c : UInt8) : Bool := c == 0x20 || (0x09 ≤ c && c ≤ 0x0D)

/-- `isdigit`. -/
def isDigit (c : UInt8) : Bool := 0x30 ≤ c && c ≤ 0x39

/-- The number that digits write. -/
def number (digits : CString) : ℕ := digits.foldl (fun n c => n * 10 + (c.toNat - 0x30)) 0

/-- `strtol(s, NULL, 10)`: blanks, a sign, and as many digits as follow; out of range it is
`LONG_MAX` or `LONG_MIN`. -/
def strtol (s : CString) : ℤ :=
  match s.dropWhile isSpace with
  | 0x2D :: rest => max (-2 ^ 63) (-(number (rest.takeWhile isDigit) : ℤ))
  | 0x2B :: rest => min (2 ^ 63 - 1) (number (rest.takeWhile isDigit))
  | rest => min (2 ^ 63 - 1) (number (rest.takeWhile isDigit))

/-- `atoi`, which drops the upper half of the `long`. -/
def atoi (s : CString) : ℤ := (strtol s).bmod (2 ^ 32)

/-- `(uid_t)atoi(s)`. -/
def uidOf (s : CString) : UInt32 := UInt32.ofNat (atoi s % 2 ^ 32).toNat

/-! ### The program -/

/-- The user and the group of a process. -/
structure Ids where
  uid : UInt32
  gid : UInt32
  deriving DecidableEq

/-- What the system calls of a run answer: whether the device opens, the ids after `ASTRA_GET_ROOT`
unless it is denied, and whether `setgid` and `setuid` succeed. -/
structure Answers where
  opens : Bool
  getRoot : Option Ids
  setgid : Bool
  setuid : Bool

/-- How `main` ends: it returns, or it comes to `execv`. -/
inductive Exit
  | returns (status : ℤ)
  | execs (args : List CString) (env : List (String × String)) (ids : Ids)
  deriving DecidableEq

/-- The command line: help, a `-c` without its command, or a shell with its command and the text
of the user id. -/
inductive CommandLine
  | usage
  | noCommand
  | shell (command uid : Option CString)
  deriving DecidableEq

/-- The arguments behind the program's name. -/
def parseArgs : List CString → CommandLine
  | [] => .shell none none
  | arg :: rest =>
      if arg = ascii "-h" then .usage
      else if arg = ascii "-c" then
        match rest with
        | [] => .noCommand
        | command :: rest => .shell (some command) rest.head?
      else .shell none (some arg)

variable (a : Answers)

/-- `escalate`, with the ids it leaves. -/
def escalate : Option Ids :=
  if !a.opens then none
  else
    match a.getRoot with
    | none => none
    | some ids => if ids.uid ≠ 0 then none else some ids

/-- `setgid`, whose result nobody reads. -/
def setgid (gid : UInt32) (ids : Ids) : Ids := if a.setgid then { ids with gid := gid } else ids

/-- `setuid`, whose result nobody reads. -/
def setuid (uid : UInt32) (ids : Ids) : Ids := if a.setuid then { ids with uid := uid } else ids

/-- The environment that `setup_env` sets. -/
def environment (uid : UInt32) : List (String × String) :=
  [("PATH", "/sbin:/system/bin:/system/xbin:/vendor/bin:" ++
      "/system/sbin:/product/bin:/apex/com.android.runtime/bin"),
    ("HOME", "/data"), ("USER", if uid = 0 then "root" else "shell"),
    ("SHELL", "/system/bin/sh"), ("TERM", "xterm-256color")]

/-- The ids after `setup_env`. -/
def setupIds (uid : UInt32) (ids : Ids) : Ids :=
  if uid = 0 then setuid a 0 (setgid a 0 ids) else ids

/-- The ids after the drop to the target. -/
def dropIds (target : UInt32) (ids : Ids) : Ids :=
  if target ≠ 0 then setuid a target (setgid a target ids) else ids

/-- The arguments of the shell. -/
def shellArgs : Option CString → List CString
  | some command => [ascii "/system/bin/sh", ascii "-c", command]
  | none => [ascii "/system/bin/sh"]

/-- The target of a run. -/
def targetUid : Option CString → UInt32
  | some text => uidOf text
  | none => 0

/-- `main`. -/
def main (argv : List CString) : Exit :=
  match parseArgs argv.tail with
  | .usage => .returns 0
  | .noCommand => .returns 1
  | .shell command uid =>
      match escalate a with
      | none => .returns 1
      | some ids =>
          .execs (shellArgs command) (environment (targetUid uid))
            (dropIds a (targetUid uid) (setupIds a (targetUid uid) ids))

/-! ### What is expected -/

/-- A complete decimal number below 2^32. -/
def IsUid (text : CString) : Prop :=
  text ≠ [] ∧ (∀ c ∈ text, isDigit c = true) ∧ number text < 2 ^ 32

/-- The ids are those that the command line asks for, and the drop to a user other than root has not
failed. -/
def Requested (uid : Option CString) (ids : Ids) : Prop :=
  match uid with
  | none => ids = ⟨0, 0⟩
  | some text => IsUid text ∧ (ids.uid.toNat = number text ∧ ids.gid.toNat = number text) ∧
      (number text ≠ 0 → a.setuid = true ∧ a.setgid = true)

/-- A shell is executed as the requested user or not at all. -/
def RunsAsRequested (argv : List CString) : Prop :=
  ∀ args env ids, main a argv = .execs args env ids →
    ∃ command uid, parseArgs argv.tail = .shell command uid ∧ Requested a uid ids

/-- The ids come out right: without a target, or with the target 0, the group is 0 or is set to it;
with another target, which is a number, both calls succeed. -/
def Obtained (uid : Option CString) (gid : UInt32) : Prop :=
  match uid with
  | none => gid = 0 ∨ a.setgid = true
  | some text => IsUid text ∧ (number text = 0 → gid = 0 ∨ a.setgid = true) ∧
      (number text ≠ 0 → a.setuid = true ∧ a.setgid = true)

/-! ### Numbers -/

theorem isDigit_cons {c : UInt8} (hc : isDigit c = true) :
    isSpace c = false ∧ c ≠ 0x2D ∧ c ≠ 0x2B := by
  revert hc
  exact Utf8.forall_byte (P := fun c => isDigit c = true → isSpace c = false ∧ c ≠ 0x2D ∧ c ≠ 0x2B)
    (by decide +kernel) c

/-- A text of digits is read to its end. -/
theorem strtol_digits {text : CString} (hne : text ≠ []) (hd : ∀ c ∈ text, isDigit c = true) :
    strtol text = min (2 ^ 63 - 1) (number text : ℤ) := by
  cases text with
  | nil => exact absurd rfl hne
  | cons c rest =>
    obtain ⟨hspace, hminus, hplus⟩ := isDigit_cons (hd c List.mem_cons_self)
    have htake : (c :: rest).takeWhile isDigit = c :: rest := List.takeWhile_eq_self_iff.2 hd
    unfold strtol
    rw [List.dropWhile_cons_of_neg (by rw [hspace]; decide)]
    split
    · rename_i heq
      exact absurd (List.cons.inj heq).1 hminus
    · rename_i heq
      exact absurd (List.cons.inj heq).1 hplus
    · rw [htake]

/-- A decimal number below 2^32 is read as itself. -/
theorem uidOf_digits {text : CString} (h : IsUid text) : (uidOf text).toNat = number text := by
  obtain ⟨hne, hd, hlt⟩ := h
  have hatoi : atoi text % 2 ^ 32 = number text := by
    have hmin : min (2 ^ 63 - 1) (number text : ℤ) = number text := by omega
    have hmod : (number text : ℤ).bmod (2 ^ 32) % ((2 ^ 32 : ℕ) : ℤ) =
        number text % ((2 ^ 32 : ℕ) : ℤ) := Int.bmod_emod
    rw [Nat.cast_pow, Nat.cast_ofNat] at hmod
    rw [atoi, strtol_digits hne hd, hmin, hmod]
    omega
  rw [uidOf, hatoi, Int.toNat_natCast, UInt32.toNat_ofNat_of_lt' hlt]

/-! ### Runs -/

variable {a}

theorem escalate_eq_some_iff {ids : Ids} :
    escalate a = some ids ↔ a.opens = true ∧ a.getRoot = some ids ∧ ids.uid = 0 := by
  unfold escalate
  by_cases hopen : a.opens = true
  · rw [if_neg (by simp [hopen]), and_iff_right hopen]
    cases a.getRoot with
    | none => simp
    | some ids' =>
      dsimp only
      by_cases hroot : ids'.uid = 0
      · rw [if_neg (not_not.2 hroot)]
        constructor
        · intro h
          cases h
          exact ⟨rfl, hroot⟩
        · exact fun h => h.1
      · rw [if_pos hroot]
        refine iff_of_false (by simp) ?_
        rintro ⟨h, huid⟩
        cases h
        exact hroot huid
  · rw [if_pos (by simpa using hopen)]
    exact iff_of_false (by simp) fun h => hopen h.1

/-- The ids of the shell: each of the two calls counts as far as it succeeds. -/
theorem dropIds_setupIds (target gid : UInt32) :
    dropIds a target (setupIds a target ⟨0, gid⟩) =
      ⟨if a.setuid then target else 0, if a.setgid then target else gid⟩ := by
  unfold dropIds setupIds setuid setgid
  by_cases htarget : target = 0
  · subst htarget
    cases a.setuid <;> cases a.setgid <;> rfl
  · cases a.setuid <;> cases a.setgid <;> simp [htarget]

/-- When a shell is executed, and with which ids. -/
theorem main_eq_execs {argv args : List CString} {env : List (String × String)} {ids : Ids} :
    main a argv = .execs args env ids ↔ ∃ command uid gid,
      parseArgs argv.tail = .shell command uid ∧ a.opens = true ∧ a.getRoot = some ⟨0, gid⟩ ∧
        args = shellArgs command ∧ env = environment (targetUid uid) ∧
        ids = ⟨if a.setuid then targetUid uid else 0, if a.setgid then targetUid uid else gid⟩ := by
  unfold main
  cases hparse : parseArgs argv.tail with
  | usage => simp
  | noCommand => simp
  | shell command uid =>
    cases hesc : escalate a with
    | none =>
      refine iff_of_false (by simp) ?_
      rintro ⟨command', uid', gid, -, hopen, hroot, -⟩
      have hsome := escalate_eq_some_iff.2 ⟨hopen, hroot, rfl⟩
      rw [hesc] at hsome
      cases hsome
    | some start =>
      obtain ⟨hopen, hroot, huid⟩ := escalate_eq_some_iff.1 hesc
      obtain ⟨uid₀, gid⟩ := start
      obtain rfl : uid₀ = 0 := huid
      dsimp only
      rw [dropIds_setupIds]
      constructor
      · intro h
        cases h
        exact ⟨command, uid, gid, rfl, hopen, hroot, rfl, rfl, rfl⟩
      · rintro ⟨command', uid', gid', hline, -, hroot', rfl, rfl, rfl⟩
        obtain ⟨rfl, rfl⟩ := CommandLine.shell.inj hline
        obtain rfl : gid = gid' := congrArg Ids.gid (Option.some.inj (hroot.symm.trans hroot'))
        rfl

/-- The ids of the shell are the requested ones when the calls that matter succeed. -/
theorem requested_iff {uid : Option CString} {gid : UInt32} :
    Requested a uid
        ⟨if a.setuid then targetUid uid else 0, if a.setgid then targetUid uid else gid⟩ ↔
      Obtained a uid gid := by
  cases uid with
  | none =>
    unfold Requested Obtained targetUid
    cases a.setuid <;> cases a.setgid <;> simp
  | some text =>
    unfold Requested Obtained targetUid
    refine and_congr_right fun htext => ?_
    have huid := uidOf_digits htext
    by_cases hzero : number text = 0
    · rw [hzero] at huid
      have hgid : gid.toNat = 0 ↔ gid = 0 := by rw [← UInt32.toNat_inj, UInt32.toNat_zero]
      cases a.setuid <;> cases a.setgid <;> simp [huid, hzero, hgid]
    · cases a.setuid <;> cases a.setgid <;> simp [huid, hzero]

theorem obtained_of_runsAsRequested {argv : List CString} (h : RunsAsRequested a argv)
    {command uid : Option CString} {gid : UInt32}
    (hparse : parseArgs argv.tail = .shell command uid)
    (hopen : a.opens = true) (hroot : a.getRoot = some ⟨0, gid⟩) : Obtained a uid gid := by
  obtain ⟨command', uid', hparse', hreq⟩ := h _ _ _ (main_eq_execs.2
    ⟨command, uid, gid, hparse, hopen, hroot, rfl, rfl, rfl⟩)
  obtain ⟨rfl, rfl⟩ := CommandLine.shell.inj (hparse.symm.trans hparse')
  exact requested_iff.1 hreq

/-- The shell runs as the requested user or not at all where root is not reached or the ids come
out right. -/
theorem runsAsRequested_iff {argv : List CString} :
    RunsAsRequested a argv ↔ ∀ command uid gid, parseArgs argv.tail = .shell command uid →
      a.opens = true → a.getRoot = some ⟨0, gid⟩ → Obtained a uid gid := by
  constructor
  · exact fun h command uid gid => obtained_of_runsAsRequested h
  · intro h args env ids hmain
    obtain ⟨command, uid, gid, hparse, hopen, hroot, -, -, rfl⟩ := main_eq_execs.1 hmain
    exact ⟨command, uid, hparse, requested_iff.2 (h command uid gid hparse hopen hroot)⟩

/-! ### With the kernel module -/

/-- The answers when `ASTRA_GET_ROOT` is served by the kernel module. -/
def kernelAnswers (k : State) (f : Faults) (opens setgid setuid : Bool) : Answers where
  opens := opens
  getRoot :=
    match Kernel.getRoot k f with
    | (k', .ok (), _) => some ⟨k'.cred.uid, k'.cred.gid⟩
    | _ => none
  setgid := setgid
  setuid := setuid

/-- The kernel module gives the ids of root or nothing. -/
theorem getRoot_kernelAnswers {k : State} {f : Faults} {opens setgid setuid : Bool} {ids : Ids} :
    (kernelAnswers k f opens setgid setuid).getRoot = some ids ↔
      (Kernel.getRoot k f).2.1 = .ok () ∧ ids = ⟨0, 0⟩ := by
  unfold kernelAnswers Kernel.getRoot
  cases checkPolicy k.enforce k.table k.caller 0#64 true with
  | error e => simp
  | ok u =>
    cases hcred : f.prepareCred with
    | false => simp
    | true => simp [initCred, eq_comm]

/-- Over the kernel module: without a user id all is well; a user id must be a number, and must be 0
unless both calls succeed. -/
theorem runsAsRequested_kernel_iff (k : State) (f : Faults) (opens setgid setuid : Bool)
    (argv : List CString) : RunsAsRequested (kernelAnswers k f opens setgid setuid) argv ↔
      ∀ command text, parseArgs argv.tail = .shell command (some text) → opens = true →
        (Kernel.getRoot k f).2.1 = .ok () → IsUid text ∧
          (number text ≠ 0 → setuid = true ∧ setgid = true) := by
  rw [runsAsRequested_iff]
  constructor
  · intro h command text hparse hopen hroot
    obtain ⟨htext, -, hcalls⟩ := h command (some text) 0 hparse hopen
      (getRoot_kernelAnswers.2 ⟨hroot, rfl⟩)
    exact ⟨htext, hcalls⟩
  · intro h command uid gid hparse hopen hroot
    obtain ⟨hok, hids⟩ := getRoot_kernelAnswers.1 hroot
    obtain rfl : gid = 0 := congrArg Ids.gid hids
    cases uid with
    | none => exact Or.inl rfl
    | some text =>
      obtain ⟨htext, hcalls⟩ := h command text hparse hopen hok
      exact ⟨htext, fun _ => Or.inl rfl, hcalls⟩

/-- **When `astra_su` runs the command as the requested user or not at all**, for all answers of the
system calls, and for those that the kernel module of this repository can give. -/
theorem astra_su_runs_as_requested_iff (a : Answers) (argv : List CString) :
    (RunsAsRequested a argv ↔
      ∀ command uid gid, parseArgs argv.tail = .shell command uid → a.opens = true →
        a.getRoot = some ⟨0, gid⟩ → Obtained a uid gid) ∧
    ∀ (k : State) (f : Faults) (opens setgid setuid : Bool),
      RunsAsRequested (kernelAnswers k f opens setgid setuid) argv ↔
        ∀ command text, parseArgs argv.tail = .shell command (some text) → opens = true →
          (Kernel.getRoot k f).2.1 = .ok () → IsUid text ∧
            (number text ≠ 0 → setuid = true ∧ setgid = true) :=
  ⟨runsAsRequested_iff, fun k f opens setgid setuid =>
    runsAsRequested_kernel_iff k f opens setgid setuid argv⟩

/-- Everything succeeds. -/
def allWell : Answers := ⟨true, some ⟨0, 0⟩, true, true⟩

example : main allWell [ascii "astra_su", ascii "shell"] =
    .execs [ascii "/system/bin/sh"] (environment 0) ⟨0, 0⟩ := by
  decide +kernel

/-- `astra_su shell` and `astra_su 4294967296` run a shell as root, and `astra_su 10123` does so
where `setuid` fails. -/
theorem not_runsAsRequested_sample :
    (¬ RunsAsRequested allWell [ascii "astra_su", ascii "shell"]) ∧
    (¬ RunsAsRequested allWell [ascii "astra_su", ascii "4294967296"]) ∧
    ¬ RunsAsRequested { allWell with setuid := false } [ascii "astra_su", ascii "10123"] := by
  have hshell : ¬ IsUid (ascii "shell") := fun h =>
    absurd (h.2.1 0x73 (by decide)) (by decide)
  have hwraps : ¬ IsUid (ascii "4294967296") := fun h =>
    absurd h.2.2 (by decide +kernel)
  have hline : ∀ text ∈ [ascii "shell", ascii "4294967296", ascii "10123"],
      parseArgs [text] = .shell none (some text) := by
    decide +kernel
  refine ⟨fun h => hshell ?_, fun h => hwraps ?_, fun h => ?_⟩
  · exact (obtained_of_runsAsRequested h (hline _ (by simp)) rfl rfl).1
  · exact (obtained_of_runsAsRequested h (hline _ (by simp)) rfl rfl).1
  · have hcalls := (obtained_of_runsAsRequested h (hline _ (by simp)) rfl rfl).2.2
    exact absurd (hcalls (by decide +kernel)).1 (by decide)

end AstraSu

end AstraVeil.Kernel
