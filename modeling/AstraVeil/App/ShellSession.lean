import AstraVeil.Lib.KotlinNumbers

/-!
# The marker protocol of the terminal's shell

`app/terminal/ShellSession.kt`: behind every command the session sends an `echo` line to the shell,
and takes the line that it prints as the end of the command.  The shell's output is a text.  This
module is about the lines and the events that they give; which of the events get through the flow,
and the lines of standard error between them, are in `ShellFlow`.

* `Command`: what a command wrote, its exit code and the working directory behind it;
* `eventsOf`: the events of a command as the session should emit them;
* `handleLine_marker`, `handleLine_plain`: what the session makes of a line;
* `offered_of_faithful`, `faithful_of_offered`: one command, in front of any further output;
* `offered_eq_iff`: the events that standard output gives are those of the commands exactly when
  every command ends its output with a line feed, prints no carriage return and no line that looks
  like the marker, and leaves a working directory without line breaks.
-/

namespace AstraVeil.App

open Utf16 KotlinString

/-- `ShellSession.Event`, for the lines of the shell. -/
inductive ShellEvent
  | output (line : JString) (isError : Bool)
  | commandFinished (exitCode : Int32) (cwd : JString)
  deriving DecidableEq

/-- `MARKER_PREFIX`. -/
def markerStart : JString := ofString "___ASTRA_DONE_"

/-- `MARKER_SUFFIX`. -/
def markerEnd : JString := ofString "___"

/-- The separator in the marker. -/
def pipe : UInt16 := 0x7C

/-- The line has the form of the marker. -/
def isMarker (line : JString) : Bool := startsWith line markerStart && endsWith line markerEnd

/-- `handleLine`: the event that it offers to the flow. -/
def handleLine (line : JString) (isError : Bool) : ShellEvent :=
  if isMarker line then
    let body := removeSuffix (removePrefix line markerStart) markerEnd
    match body.idxOf? pipe with
    | some sep =>
        .commandFinished ((toIntOrNull (trim (body.take sep))).getD (-1)) (body.drop (sep + 1))
    | none => .commandFinished (-1) []
  else .output line isError

/-- A command, by what the shell does with it. -/
structure Command where
  stdout : JString
  stderr : JString
  exitCode : UInt8
  cwd : JString

/-- `$(...)` in the shell: the output without the line feeds at its end. -/
def substituted (s : JString) : JString := (s.reverse.dropWhile (· == 0x0A)).reverse

/-- What `echo "___ASTRA_DONE_$?|$(pwd)___"` prints behind the command. -/
def echoed (c : Command) : JString :=
  markerStart ++ decimal c.exitCode.toNat ++ pipe :: substituted c.cwd ++ markerEnd ++ [0x0A]

/-- The output of the shell for a sequence of commands. -/
def stream (commands : List Command) : JString := commands.flatMap fun c => c.stdout ++ echoed c

/-- The lines that `readLine` gives of an open stream: what stands behind the last line break is
still waited for. -/
def readLines (s : JString) : List JString := (lines s).dropLast

/-- The events that a session offers to the flow when it reads this output. -/
def offered (s : JString) : List ShellEvent := (readLines s).map fun line => handleLine line false

/-- The lines of a command's output: they end with a line feed, the last one also without. -/
def stdoutLines (s : JString) : List JString :=
  if (s.splitOn 0x0A).getLast? = some [] then (s.splitOn 0x0A).dropLast else s.splitOn 0x0A

/-- The events that an output and the end of a command should give: the lines as they are, then
the end. -/
def eventsFrom (s : JString) (c : Command) : List ShellEvent :=
  (stdoutLines s).map (fun line => .output line false) ++
    [.commandFinished (Int32.ofNat c.exitCode.toNat) c.cwd]

/-- The events of a command. -/
def eventsOf (c : Command) : List ShellEvent := eventsFrom c.stdout c

/-- The output keeps to the protocol: no carriage return, no line in the form of the marker, and
a line feed at the end. -/
structure FaithfulOutput (s : JString) : Prop where
  terminated : s = [] ∨ s.getLast? = some 0x0A
  noReturn : 0x0D ∉ s
  noMarker : ∀ line ∈ stdoutLines s, isMarker line = false

/-- The command keeps to the protocol. -/
structure Faithful (c : Command) : Prop where
  stdout : FaithfulOutput c.stdout
  cwd : SingleLine c.cwd

/-! ### One line -/

theorem pipe_notMem_decimal (z : ℤ) : pipe ∉ decimal z := by
  intro h
  rcases mem_decimal h with h | h
  · cases h
  · exact absurd h.2 (by decide)

/-- The marker is read as it was written. -/
theorem handleLine_marker (code : UInt8) (w : JString) (isError : Bool) :
    handleLine (markerStart ++ decimal code.toNat ++ pipe :: w ++ markerEnd) isError =
      .commandFinished (Int32.ofNat code.toNat) w := by
  have hstart : startsWith (markerStart ++ decimal code.toNat ++ pipe :: w ++ markerEnd)
      markerStart = true := by
    rw [startsWith, List.isPrefixOf_iff_prefix, List.append_assoc, List.append_assoc]
    exact List.prefix_append _ _
  have hend : ∀ x : JString, endsWith (x ++ markerEnd) markerEnd = true := fun x => by
    rw [endsWith, List.isSuffixOf_iff_suffix]
    exact List.suffix_append _ _
  have hbody : removeSuffix (removePrefix
      (markerStart ++ decimal code.toNat ++ pipe :: w ++ markerEnd) markerStart) markerEnd =
      decimal code.toNat ++ pipe :: w := by
    rw [removePrefix, if_pos hstart, List.append_assoc, List.append_assoc, List.drop_left,
      ← List.append_assoc, removeSuffix, if_pos (hend _), List.length_append, Nat.add_sub_cancel,
      List.take_left]
  have hcode : -2 ^ 31 ≤ (code.toNat : ℤ) ∧ (code.toNat : ℤ) < 2 ^ 31 := by
    have := code.toNat_lt
    omega
  have hcwd : (decimal code.toNat ++ pipe :: w).drop ((decimal code.toNat).length + 1) = w := by
    simp
  rw [handleLine, isMarker, hstart, hend, Bool.true_and, if_pos rfl]
  simp only [hbody, idxOf?_append_cons (pipe_notMem_decimal _), List.take_left, trim_decimal, hcwd,
    toIntOrNull_decimal hcode, Option.getD_some]
  rfl

theorem handleLine_plain {line : JString} (h : isMarker line = false) (isError : Bool) :
    handleLine line isError = .output line isError := by
  rw [handleLine, h]
  rfl

/-- Everything in an event is in its line. -/
theorem mem_line_of_finished {line w : JString} {isError : Bool} {code : Int32}
    (h : handleLine line isError = .commandFinished code w) {u : UInt16} (hu : u ∈ w) :
    u ∈ line := by
  have hbody : ∀ v ∈ removeSuffix (removePrefix line markerStart) markerEnd, v ∈ line := by
    intro v hv
    have hv' : v ∈ removePrefix line markerStart := by
      unfold removeSuffix at hv
      split_ifs at hv
      · exact List.mem_of_mem_take hv
      · exact hv
    unfold removePrefix at hv'
    split_ifs at hv'
    · exact List.mem_of_mem_drop hv'
    · exact hv'
  unfold handleLine at h
  split_ifs at h
  dsimp only at h
  split at h
  · injection h with _ hw
    exact hbody u (List.mem_of_mem_drop (hw ▸ hu))
  · injection h with _ hw
    rw [← hw] at hu
    cases hu

/-- Only a line that is not in the form of the marker is shown, as it is. -/
theorem handleLine_eq_output {line x : JString} {isError isError' : Bool}
    (h : handleLine line isError = .output x isError') : x = line ∧ isMarker line = false := by
  unfold handleLine at h
  split_ifs at h with hmark
  · dsimp only at h
    split at h <;> cases h
  · injection h with hx
    exact ⟨hx.symm, by simpa using hmark⟩

/-! ### Reading -/

theorem offered_line {x : JString} (hx : SingleLine x) (y : JString) :
    offered (x ++ 0x0A :: y) = handleLine x false :: offered y := by
  rw [offered, readLines, lines_append hx, List.dropLast_cons_of_ne_nil (lines_ne_nil y),
    List.map_cons]
  rfl

/-- The first event comes from a text without line breaks, up to the first line break. -/
theorem offered_first {x : JString} (hx : SingleLine x) {s : JString} (hs : 0x0A ∈ s) :
    ∃ y T, SingleLine (x ++ y) ∧ y <+: s ∧ offered (x ++ s) = handleLine (x ++ y) false :: T := by
  obtain ⟨y, t, z, hy, ht, rfl⟩ := exists_first_line hs
  have hxy : SingleLine (x ++ y) := singleLine_append.2 ⟨hx, hy⟩
  obtain ⟨z', hz'⟩ := exists_lines_cons hxy ht z
  refine ⟨y, offered z', hxy, List.prefix_append _ _, ?_⟩
  rw [offered, readLines, ← List.append_assoc, hz',
    List.dropLast_cons_of_ne_nil (lines_ne_nil z'), List.map_cons]
  rfl

/-! ### The lines of an output -/

theorem stdoutLines_cons {x : JString} (hx : 0x0A ∉ x) (y : JString) :
    stdoutLines (x ++ 0x0A :: y) = x :: stdoutLines y := by
  obtain ⟨l, ls, hls⟩ := List.exists_cons_of_ne_nil (List.splitOn_ne_nil 0x0A y)
  rw [stdoutLines, stdoutLines, List.splitOn_append_cons_self_of_not_mem hx, hls,
    List.getLast?_cons_cons, List.dropLast_cons_of_ne_nil (List.cons_ne_nil l ls)]
  split_ifs <;> rfl

theorem stdoutLines_single {x : JString} (hx : 0x0A ∉ x) (hne : x ≠ []) :
    stdoutLines x = [x] := by
  rw [stdoutLines, List.splitOn_eq_singleton hx, if_neg (by simpa using hne)]

/-- Induction along the lines of an output. -/
theorem line_induction {P : JString → Prop} (nil : P [])
    (line : ∀ x y, 0x0A ∉ x → P y → P (x ++ 0x0A :: y)) (last : ∀ x, 0x0A ∉ x → x ≠ [] → P x)
    (s : JString) : P s := by
  induction hn : s.length using Nat.strong_induction_on generalizing s with
  | _ n ih =>
    by_cases hlf : 0x0A ∈ s
    · obtain ⟨x, y, rfl, hx⟩ := List.eq_append_cons_of_mem hlf
      exact line x y hx (ih y.length (by simp at hn; omega) y rfl)
    · rcases eq_or_ne s [] with rfl | hne
      · exact nil
      · exact last s hlf hne

theorem faithfulOutput_nil : FaithfulOutput [] where
  terminated := Or.inl rfl
  noReturn := by simp
  noMarker := by simp [stdoutLines]

theorem faithfulOutput_cons {x : JString} (hx : 0x0A ∉ x) (y : JString) :
    FaithfulOutput (x ++ 0x0A :: y) ↔
      (0x0D ∉ x ∧ isMarker x = false) ∧ FaithfulOutput y := by
  have hlast : (x ++ 0x0A :: y = [] ∨ (x ++ 0x0A :: y).getLast? = some 0x0A) ↔
      (y = [] ∨ y.getLast? = some 0x0A) := by
    rw [List.getLast?_append_of_ne_nil _ (List.cons_ne_nil _ _)]
    cases y with
    | nil => simp
    | cons u y => simp [List.getLast?_cons_cons]
  constructor
  · rintro ⟨hterm, hret, hmark⟩
    rw [stdoutLines_cons hx, List.forall_mem_cons] at hmark
    simp only [List.mem_append, List.mem_cons, not_or] at hret
    exact ⟨⟨hret.1, hmark.1⟩, hlast.1 hterm, hret.2.2, hmark.2⟩
  · rintro ⟨⟨hret, hmark⟩, hy⟩
    refine ⟨hlast.2 hy.terminated, ?_, ?_⟩
    · simp only [List.mem_append, List.mem_cons, not_or]
      exact ⟨hret, by decide, hy.noReturn⟩
    · rw [stdoutLines_cons hx, List.forall_mem_cons]
      exact ⟨hmark, hy.noMarker⟩

/-! ### One command -/

variable {c : Command}

theorem substituted_of_singleLine {s : JString} (h : SingleLine s) : substituted s = s := by
  have hhead : s.reverse.dropWhile (· == 0x0A) = s.reverse := by
    cases hs : s.reverse with
    | nil => rfl
    | cons u t =>
      have hu : u ∈ s := List.mem_reverse.1 (hs ▸ List.mem_cons_self)
      exact List.dropWhile_cons_of_neg (by simpa using (h u hu).1)
  rw [substituted, hhead, List.reverse_reverse]

theorem singleLine_marker (code : UInt8) {w : JString} (hw : SingleLine w) :
    SingleLine (markerStart ++ decimal code.toNat ++ pipe :: w ++ markerEnd) := by
  have hstart : SingleLine markerStart := by decide
  have hend : SingleLine markerEnd := by decide
  simp [hstart, hend, hw, singleLine_decimal, pipe]

/-- The end of a command, in front of more output. -/
theorem offered_echoed (h : SingleLine c.cwd) (rest : JString) :
    offered (echoed c ++ rest) =
      .commandFinished (Int32.ofNat c.exitCode.toNat) c.cwd :: offered rest := by
  rw [echoed, substituted_of_singleLine h, List.append_assoc, List.singleton_append,
    offered_line (singleLine_marker _ h), handleLine_marker]

/-- A working directory with a line break is never reported. -/
theorem singleLine_of_offered_echoed {rest : JString} {T : List ShellEvent}
    (h : offered (echoed c ++ rest) =
      .commandFinished (Int32.ofNat c.exitCode.toNat) c.cwd :: T) : SingleLine c.cwd := by
  have hlf : 0x0A ∈ echoed c ++ rest := by simp [echoed]
  obtain ⟨y, T', hy, -, hfirst⟩ := offered_first singleLine_nil hlf
  rw [List.nil_append] at hy hfirst
  have hevent := (List.cons.inj (hfirst.symm.trans h)).1
  exact fun u hu => hy u (mem_line_of_finished hevent hu)

theorem eventsFrom_cons {x : JString} (hx : 0x0A ∉ x) (y : JString) (c : Command) :
    eventsFrom (x ++ 0x0A :: y) c = .output x false :: eventsFrom y c := by
  rw [eventsFrom, stdoutLines_cons hx]
  rfl

/-- An output that does not end with a line feed is glued to the marker. -/
theorem not_offered_glued {x : JString} (hx : 0x0A ∉ x) (hne : x ≠ []) (rest : JString)
    (T : List ShellEvent) : offered (x ++ (echoed c ++ rest)) ≠ eventsFrom x c ++ T := by
  intro h
  rw [eventsFrom, stdoutLines_single hx hne] at h
  have hlf : 0x0A ∈ x ++ (echoed c ++ rest) := by simp [echoed]
  obtain ⟨y, T', hy, hprefix, hfirst⟩ := offered_first singleLine_nil hlf
  rw [List.nil_append] at hy hfirst
  obtain ⟨rfl, -⟩ := handleLine_eq_output (List.cons.inj (hfirst.symm.trans h)).1
  -- the first line is not over where the output is
  have hsingle : SingleLine (x ++ markerStart) := singleLine_append.2 ⟨hy, by decide⟩
  have hlf' : 0x0A ∈ decimal c.exitCode.toNat ++ pipe :: substituted c.cwd ++ markerEnd ++ [0x0A] ++
      rest := by simp
  obtain ⟨z, T'', -, -, hglued⟩ := offered_first hsingle hlf'
  have hstream : x ++ (echoed c ++ rest) = x ++ markerStart ++
      (decimal c.exitCode.toNat ++ pipe :: substituted c.cwd ++ markerEnd ++ [0x0A] ++ rest) := by
    simp [echoed]
  rw [hstream, hglued] at h
  have hlen := congrArg List.length (handleLine_eq_output (List.cons.inj h).1).1
  rw [List.length_append, List.length_append, show markerStart.length = 14 from rfl] at hlen
  omega

/-- A command that keeps to the protocol, in front of more output. -/
theorem offered_of_faithful {s : JString} (hs : FaithfulOutput s) (hc : SingleLine c.cwd)
    (rest : JString) : offered (s ++ (echoed c ++ rest)) = eventsFrom s c ++ offered rest := by
  induction s using line_induction with
  | nil => exact offered_echoed hc rest
  | last x hx hne =>
    rcases hs.terminated with h | h
    · exact absurd h hne
    · exact absurd (List.mem_of_getLast? h) hx
  | line x y hx ih =>
    obtain ⟨⟨hcr, hmark⟩, hy⟩ := (faithfulOutput_cons hx y).1 hs
    have hsingle : SingleLine x := fun u hu => ⟨fun h => hx (h ▸ hu), fun h => hcr (h ▸ hu)⟩
    rw [List.append_assoc, List.cons_append, offered_line hsingle, handleLine_plain hmark, ih hy,
      eventsFrom_cons hx]
    rfl

/-- A command whose events come as they should keeps to the protocol, whatever follows. -/
theorem faithful_of_offered {s rest : JString} {T : List ShellEvent}
    (h : offered (s ++ (echoed c ++ rest)) = eventsFrom s c ++ T) :
    FaithfulOutput s ∧ SingleLine c.cwd := by
  induction s using line_induction with
  | nil => exact ⟨faithfulOutput_nil, singleLine_of_offered_echoed h⟩
  | last x hx hne => exact absurd h (not_offered_glued hx hne rest T)
  | line x y hx ih =>
    rw [eventsFrom_cons hx] at h
    -- the first line read is the line `x`, so that it has no carriage return
    obtain ⟨z, T', hz, -, hfirst⟩ := offered_first singleLine_nil
      (s := x ++ 0x0A :: y ++ (echoed c ++ rest)) (by simp)
    rw [List.nil_append] at hz hfirst
    obtain ⟨rfl, -⟩ := handleLine_eq_output (List.cons.inj (hfirst.symm.trans h)).1
    rw [List.append_assoc, List.cons_append, offered_line hz] at h
    obtain ⟨hline, htail⟩ := List.cons.inj h
    obtain ⟨hy, hcwd⟩ := ih htail
    exact ⟨(faithfulOutput_cons hx y).2
      ⟨⟨fun hcr => (hz _ hcr).2 rfl, (handleLine_eq_output hline).2⟩, hy⟩, hcwd⟩

/-! ### Sessions -/

/-- **The events that standard output gives are those of the commands exactly when every command
keeps to the protocol: its output is empty or ends with a line feed, has no carriage return and no
line in the form of the marker, and its working directory has no line break.** -/
theorem offered_eq_iff (commands : List Command) :
    offered (stream commands) = commands.flatMap eventsOf ↔ ∀ c ∈ commands, Faithful c := by
  induction commands with
  | nil => exact iff_of_true rfl (by simp)
  | cons c commands ih =>
    have hstream : stream (c :: commands) = c.stdout ++ (echoed c ++ stream commands) := by
      rw [stream, List.flatMap_cons, List.append_assoc]
      rfl
    rw [hstream, List.flatMap_cons, List.forall_mem_cons, ← ih]
    constructor
    · intro h
      obtain ⟨hout, hcwd⟩ := faithful_of_offered h
      rw [offered_of_faithful hout hcwd] at h
      exact ⟨⟨hout, hcwd⟩, List.append_cancel_left h⟩
    · rintro ⟨⟨hout, hcwd⟩, hrest⟩
      rw [offered_of_faithful hout hcwd, hrest]
      rfl

end AstraVeil.App
