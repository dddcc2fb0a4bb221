import AstraVeil.Lib.LineFilter
import AstraVeil.Lib.Paths
import AstraVeil.Lib.Utf16
import Mathlib.Tactic

/-!
# The environment shield

An application's `openat` and, where the bypass for direct system calls is on, its `syscall` are
hooked.  Paths that begin like a hidden one do not exist for it; a few files of `/proc` are read
by the hook and handed over from memory with the telling lines taken out; everything else is
forwarded.  What the kernel does is `Os`: the file that a call opens, as the results of the reads
from it, and what a file in memory holds after its content was written.

* `hooked_openat_cases`: all that the hook can do with a path;
* `hooked_openat_memfd_clean`: what is handed over from memory has no signature anywhere, and is
  the real file less exactly the lines that have one, or with its tracer lines rewritten;
* `hooks_dotted`: the hooks know paths by their spelling, and let every file through under
  another one.
-/

namespace EnvShield

open LineFilter Utf16

/-- The bytes of a C string or of a file. -/
abbrev Bytes := List UInt8

/-- The switches that the hooks read. -/
structure ShieldConfig where
  hide_magisk : Bool
  hide_mounts : Bool
  hide_maps : Bool
  hide_selinux : Bool
  hide_debugger : Bool
  hide_frida : Bool
  hide_net_unix : Bool

/-- Every switch as it stands before a configuration is read. -/
def ShieldConfig.default : ShieldConfig := ⟨true, true, true, true, true, true, true⟩

def HIDDEN_PREFIXES : List Bytes := [
  ascii "/data/adb/magisk",
  ascii "/data/adb/modules",
  ascii "/data/adb/lspd",
  ascii "/data/adb/lsposed",
  ascii "/data/adb/astraveil",
  ascii "/data/adb/post-fs-data.d",
  ascii "/data/adb/service.d",
  ascii "/sbin/su",
  ascii "/system/bin/su",
  ascii "/system/xbin/su",
  ascii "/system/sbin/su",
  ascii "/vendor/bin/su",
  ascii "/odm/bin/su",
  ascii "/data/local/su",
  ascii "/data/local/bin/su",
  ascii "/data/local/xbin/su",
  ascii "/system/etc/.installed_su_daemon",
  ascii "/data/misc/riru",
  ascii "/system/lib/libxposed",
  ascii "/system/lib64/libxposed",
  ascii "/data/data/de.robv.android.xposed",
  ascii "/data/data/org.lsposed",
  ascii "/data/data/org.meowcat.edxposed",
  ascii "/data/local/tmp/frida",
  ascii "/data/local/tmp/re.frida",
  ascii "/tmp/frida",
  ascii "/system/app/Superuser.apk",
  ascii "/system/app/SuperSU",
  ascii "/system/app/KingRoot"]

def MOUNT_SIGNATURES : List Bytes := [
  ascii "magisk",
  ascii "worker",
  ascii "/data/adb",
  ascii "tmpfs /system",
  ascii "tmpfs /vendor",
  ascii "tmpfs /product",
  ascii "mirror"]

def UNIX_SOCKET_SIGNATURES : List Bytes := [
  ascii "magisk",
  ascii "zygisk",
  ascii "lsposed",
  ascii "riru",
  ascii "astraveil"]

/-- The ports 27042 and 27043 as the kernel writes them. -/
def FRIDA_PORTS : List Bytes := [ascii ":69A2", ascii ":69A3"]

/-- What the hook looks for in the memory maps. -/
def MAPS_SIGNATURES : List Bytes := [
  ascii "astraveil",
  ascii "dobby",
  ascii "zygisk",
  ascii "lsposed",
  ascii "riru",
  ascii "xposed",
  ascii "magisk",
  ascii "frida"]

/-- The end of a line. -/
def newline : UInt8 := 10

/-- `line.find(sig) != npos` for one of the signatures. -/
def hasSignature (signatures : List Bytes) (line : Bytes) : Bool :=
  signatures.any fun sig => decide (sig <:+: line)

def filter_mounts (raw : Bytes) : Bytes :=
  filterLines newline (hasSignature MOUNT_SIGNATURES) raw

/-- The line written in place of one that names the tracer. -/
def untraced : Bytes := ascii "TracerPid:\t0\n"

def filter_status (raw : Bytes) : Bytes :=
  rewriteLines newline
    (fun line => if ascii "TracerPid:" <:+: line then untraced else line) raw

def filter_unix (raw : Bytes) : Bytes :=
  filterLines newline (hasSignature UNIX_SOCKET_SIGNATURES) raw

def filter_tcp (config : ShieldConfig) (raw : Bytes) : Bytes :=
  filterLines newline (fun line => config.hide_frida && hasSignature FRIDA_PORTS line) raw

/-- The loop over the memory maps inside the hook. -/
def filter_maps (raw : Bytes) : Bytes :=
  filterLines newline (hasSignature MAPS_SIGNATURES) raw

/-- The arguments of an `openat`; the mode is read only for a call that may create the file. -/
structure Call where
  dirfd : ℤ
  pathname : Option Bytes
  flags : BitVec 32
  mode : Option ℕ
  deriving DecidableEq

/-- `O_CREAT`. -/
def O_CREAT : BitVec 32 := 0o100

/-- The kernel: the file a call opens, as what successive reads from it return (`none` is an
error), and what a file in memory holds once its content was written, which may be cut short. -/
structure Os where
  openat : Call → Option (List (Option Bytes))
  memfd : Bytes → Option Bytes
  memfd_prefix : ∀ content held, memfd content = some held → held <+: content

/-- What a hook returns. -/
inductive Ret
  /-- No such file, without asking the kernel. -/
  | enoent
  /-- A file in memory with its content, or an error. -/
  | memfd (held : Option Bytes)
  /-- What the kernel returns for the call. -/
  | real (call : Call)
  deriving DecidableEq

def memfd_with (os : Os) (content : Bytes) : Ret := .memfd (os.memfd content)

/-- Reading until the end of the file or an error. -/
def readAll : List (Option Bytes) → Bytes
  | some (b :: bs) :: rest => (b :: bs) ++ readAll rest
  | _ => []

def read_real (os : Os) (call : Call) : Bytes :=
  match os.openat { call with mode := none } with
  | none => []
  | some reads => readAll reads

def should_hide_path (config : ShieldConfig) (path : Bytes) : Bool :=
  HIDDEN_PREFIXES.any (·.isPrefixOf path) ||
    config.hide_magisk && (ascii "/data/adb").isPrefixOf path

def MOUNT_FILES : List Bytes :=
  [ascii "/proc/self/mountinfo", ascii "/proc/mounts", ascii "/proc/self/mounts"]

def STATUS_FILES : List Bytes := [ascii "/proc/self/status"]

def UNIX_FILES : List Bytes := [ascii "/proc/net/unix"]

def TCP_FILES : List Bytes := [ascii "/proc/net/tcp", ascii "/proc/net/tcp6"]

def SELINUX_FILES : List Bytes := [ascii "/sys/fs/selinux/enforce"]

def MAPS_FILES : List Bytes := [ascii "/proc/self/maps", ascii "/proc/self/smaps"]

/-- One of the blocks that read a file and hand over what a filter leaves of it; a file that
reads as empty is left to the blocks below. -/
def filtered (on : Bool) (files : List Bytes) (filter : Bytes → Bytes) (os : Os) (call : Call)
    (path : Bytes) (below : Ret) : Ret :=
  if on && files.contains path then
    if (read_real os call).isEmpty then below
    else memfd_with os (filter (read_real os call))
  else below

/-- The call as the hook passes it on. -/
def forward (call : Call) : Ret :=
  if call.flags &&& O_CREAT ≠ 0 then .real call else .real { call with mode := none }

def hooked_openat (config : ShieldConfig) (os : Os) (call : Call) : Ret :=
  match call.pathname with
  | none => forward call
  | some path =>
    if should_hide_path config path then .enoent else
    filtered config.hide_mounts MOUNT_FILES filter_mounts os call path <|
    filtered config.hide_debugger STATUS_FILES filter_status os call path <|
    filtered config.hide_net_unix UNIX_FILES filter_unix os call path <|
    filtered config.hide_frida TCP_FILES (filter_tcp config) os call path <|
    if config.hide_selinux && SELINUX_FILES.contains path then memfd_with os (ascii "1") else
    filtered config.hide_maps MAPS_FILES filter_maps os call path <|
    forward call

/-- What `syscall(__NR_openat, …)` is forwarded with: the mode is not among the arguments. -/
def hooked_syscall_openat (config : ShieldConfig) (call : Call) : Ret :=
  match call.pathname with
  | none => .real { call with mode := none }
  | some path =>
    if should_hide_path config path then .enoent else .real { call with mode := none }

/-! ### What the application reads -/

/-- The signatures whose lines are taken out of the file that a path names. -/
def signatures (config : ShieldConfig) (path : Bytes) : List Bytes :=
  if config.hide_mounts && MOUNT_FILES.contains path then MOUNT_SIGNATURES
  else if config.hide_net_unix && UNIX_FILES.contains path then UNIX_SOCKET_SIGNATURES
  else if config.hide_frida && TCP_FILES.contains path then FRIDA_PORTS
  else if config.hide_maps && MAPS_FILES.contains path then MAPS_SIGNATURES
  else []

section Stages

variable {config : ShieldConfig} {os : Os} {call : Call} {path : Bytes}

theorem filtered_cases (on : Bool) (files : List Bytes) (filter : Bytes → Bytes) (os : Os)
    (call : Call) (path : Bytes) (below : Ret) :
    (on = true ∧ path ∈ files ∧ read_real os call ≠ [] ∧
      filtered on files filter os call path below = memfd_with os (filter (read_real os call))) ∨
    ((on = true → path ∈ files → read_real os call = []) ∧
      filtered on files filter os call path below = below) := by
  unfold filtered
  by_cases hon : (on && files.contains path) = true
  · have hmem : on = true ∧ path ∈ files := by simpa using hon
    rw [if_pos hon]
    by_cases hraw : (read_real os call).isEmpty = true
    · rw [if_pos hraw]
      exact Or.inr ⟨fun _ _ => List.isEmpty_iff.1 hraw, rfl⟩
    · rw [if_neg hraw]
      exact Or.inl ⟨hmem.1, hmem.2, fun h => hraw (List.isEmpty_iff.2 h), rfl⟩
  · rw [if_neg hon]
    refine Or.inr ⟨fun h1 h2 => absurd ?_ hon, rfl⟩
    simp [h1, h2]

/-- The files of the blocks, in their order. -/
def FILES : List (List Bytes) :=
  [MOUNT_FILES, STATUS_FILES, UNIX_FILES, TCP_FILES, SELINUX_FILES, MAPS_FILES]

/-- The blocks read different files. -/
theorem not_mem_other {files other : List Bytes} (h : path ∈ files) (hf : files ∈ FILES)
    (ho : other ∈ FILES) (hne : other ≠ files) : path ∉ other := by
  have hall : ∀ files ∈ FILES, ∀ other ∈ FILES, other ≠ files → ∀ p ∈ files, p ∉ other := by
    decide
  exact hall files hf other ho hne path h

theorem signatures_mount (on : config.hide_mounts = true) (h : path ∈ MOUNT_FILES) :
    signatures config path = MOUNT_SIGNATURES := by
  simp [signatures, on, h]

theorem signatures_unix (on : config.hide_net_unix = true) (h : path ∈ UNIX_FILES) :
    signatures config path = UNIX_SOCKET_SIGNATURES := by
  have h1 : path ∉ MOUNT_FILES := not_mem_other h (by decide) (by decide) (by decide)
  simp [signatures, on, h, h1]

theorem signatures_tcp (on : config.hide_frida = true) (h : path ∈ TCP_FILES) :
    signatures config path = FRIDA_PORTS := by
  have h1 : path ∉ MOUNT_FILES := not_mem_other h (by decide) (by decide) (by decide)
  have h2 : path ∉ UNIX_FILES := not_mem_other h (by decide) (by decide) (by decide)
  simp [signatures, on, h, h1, h2]

theorem signatures_maps (on : config.hide_maps = true) (h : path ∈ MAPS_FILES) :
    signatures config path = MAPS_SIGNATURES := by
  have h1 : path ∉ MOUNT_FILES := not_mem_other h (by decide) (by decide) (by decide)
  have h2 : path ∉ UNIX_FILES := not_mem_other h (by decide) (by decide) (by decide)
  have h3 : path ∉ TCP_FILES := not_mem_other h (by decide) (by decide) (by decide)
  simp [signatures, on, h, h1, h2, h3]

theorem signatures_unfiltered (config : ShieldConfig) {files : List Bytes} (h : path ∈ files)
    (hf : files = STATUS_FILES ∨ files = SELINUX_FILES) : signatures config path = [] := by
  have hother : ∀ other ∈ [MOUNT_FILES, UNIX_FILES, TCP_FILES, MAPS_FILES], path ∉ other := by
    intro other ho
    rcases hf with rfl | rfl <;> fin_cases ho <;>
      exact not_mem_other h (by decide) (by decide) (by decide)
  simp only [List.forall_mem_cons] at hother
  simp [signatures, hother]

/-- What the hook can do with a path. -/
theorem hooked_openat_cases (config : ShieldConfig) (os : Os) (hpath : call.pathname = some path) :
    (should_hide_path config path = true ∧ hooked_openat config os call = .enoent) ∨
    (∃ hide, (∀ line, hide line = hasSignature (signatures config path) line) ∧
      signatures config path ≠ [] ∧ read_real os call ≠ [] ∧ hooked_openat config os call =
        memfd_with os (filterLines newline hide (read_real os call))) ∨
    (config.hide_debugger = true ∧ path ∈ STATUS_FILES ∧ read_real os call ≠ [] ∧
      hooked_openat config os call = memfd_with os (filter_status (read_real os call))) ∨
    (config.hide_selinux = true ∧ path ∈ SELINUX_FILES ∧
      hooked_openat config os call = memfd_with os (ascii "1")) ∨
    (should_hide_path config path = false ∧
      ((signatures config path ≠ [] ∨ config.hide_debugger = true ∧ path ∈ STATUS_FILES) →
        read_real os call = []) ∧
      (config.hide_selinux = true → path ∉ SELINUX_FILES) ∧
      hooked_openat config os call = forward call) := by
  rw [hooked_openat, hpath]
  simp only
  by_cases hhide : should_hide_path config path = true
  · rw [if_pos hhide]
    exact Or.inl ⟨hhide, rfl⟩
  rw [if_neg hhide]
  refine Or.inr ?_
  -- the blocks in their order; each is passed with its file unread or empty
  rcases filtered_cases config.hide_mounts MOUNT_FILES filter_mounts os call path _ with
    ⟨on, hmem, hraw, h⟩ | ⟨h1, h⟩ <;> rw [h] <;> clear h
  · have hsig := signatures_mount on hmem
    exact Or.inl ⟨_, fun line => by rw [hsig], by rw [hsig]; decide, hraw, rfl⟩
  rcases filtered_cases config.hide_debugger STATUS_FILES filter_status os call path _ with
    ⟨on, hmem, hraw, h⟩ | ⟨h2, h⟩ <;> rw [h] <;> clear h
  · exact Or.inr (Or.inl ⟨on, hmem, hraw, rfl⟩)
  rcases filtered_cases config.hide_net_unix UNIX_FILES filter_unix os call path _ with
    ⟨on, hmem, hraw, h⟩ | ⟨h3, h⟩ <;> rw [h] <;> clear h
  · have hsig := signatures_unix on hmem
    exact Or.inl ⟨_, fun line => by rw [hsig], by rw [hsig]; decide, hraw, rfl⟩
  rcases filtered_cases config.hide_frida TCP_FILES (filter_tcp config) os call path _ with
    ⟨on, hmem, hraw, h⟩ | ⟨h4, h⟩ <;> rw [h] <;> clear h
  · have hsig := signatures_tcp on hmem
    refine Or.inl ⟨_, fun line => ?_, by rw [hsig]; decide, hraw, rfl⟩
    rw [hsig, on, Bool.true_and]
  by_cases hsel : (config.hide_selinux && SELINUX_FILES.contains path) = true
  · rw [if_pos hsel]
    have hsel' : config.hide_selinux = true ∧ path ∈ SELINUX_FILES := by simpa using hsel
    exact Or.inr (Or.inr (Or.inl ⟨hsel'.1, hsel'.2, rfl⟩))
  rw [if_neg hsel]
  rcases filtered_cases config.hide_maps MAPS_FILES filter_maps os call path _ with
    ⟨on, hmem, hraw, h⟩ | ⟨h5, h⟩ <;> rw [h] <;> clear h
  · have hsig := signatures_maps on hmem
    exact Or.inl ⟨_, fun line => by rw [hsig], by rw [hsig]; decide, hraw, rfl⟩
  refine Or.inr (Or.inr (Or.inr ⟨by simpa using hhide, ?_, ?_, rfl⟩))
  · rintro (hsig | ⟨on, hmem⟩)
    · simp only [signatures, Bool.and_eq_true, List.contains_iff_mem] at hsig
      split_ifs at hsig with g1 g2 g3 g4
      · exact h1 g1.1 g1.2
      · exact h3 g2.1 g2.2
      · exact h4 g3.1 g3.2
      · exact h5 g4.1 g4.2
      · exact absurd rfl hsig
    · exact h2 on hmem
  · intro on hmem
    exact hsel (by simp [on, hmem])

end Stages

section Contents

variable {config : ShieldConfig} {os : Os} {call : Call} {path : Bytes}

/-- No signature crosses the end of a line. -/
theorem signature_in_line {sig : Bytes} (h : sig ∈ signatures config path) :
    newline ∉ sig ∧ sig ≠ [] := by
  have hall : ∀ sig ∈ MOUNT_SIGNATURES ++ UNIX_SOCKET_SIGNATURES ++ FRIDA_PORTS ++
      MAPS_SIGNATURES, newline ∉ sig ∧ sig ≠ [] := by decide
  refine hall sig ?_
  simp only [signatures] at h
  split_ifs at h <;> simp_all

theorem hasSignature_of_infix {signatures : List Bytes} {sig line : Bytes} (h : sig ∈ signatures)
    (hocc : sig <:+: line) : hasSignature signatures line = true :=
  List.any_eq_true.2 ⟨sig, h, decide_eq_true hocc⟩

theorem lines_filter_status (raw : Bytes) :
    lines newline (filter_status raw) = (lines newline raw).map fun line =>
      if ascii "TracerPid:" <:+: line then untraced else line := by
  have hterm : Terminated newline untraced := ⟨ascii "TracerPid:\t0", by decide, by decide⟩
  rw [filter_status, lines_rewriteLines, List.filter_eq_self]
  · intro line hline
    obtain ⟨old, hold, rfl⟩ := List.mem_map.1 hline
    have hne := ne_nil_of_mem_lines hold
    split_ifs
    · decide
    · simpa using hne
  · intro line _
    by_cases htr : ascii "TracerPid:" <:+: line
    · exact Or.inr (Or.inr (by rwa [if_pos htr]))
    · exact Or.inl (if_neg htr)

/-- What the hook hands over from memory is free of the signatures of the file and is otherwise
its lines, cut short where the content could not be written whole; the status file keeps every
line but those that name a tracer, which name none. -/
theorem hooked_openat_memfd_clean {held : Bytes} (hpath : call.pathname = some path)
    (h : hooked_openat config os call = .memfd (some held)) :
    (∀ sig ∈ signatures config path, ¬ sig <:+: held) ∧
      ∃ shown, held <+: shown ∧
        (signatures config path ≠ [] → lines newline shown =
          (lines newline (read_real os call)).filter fun line =>
            !hasSignature (signatures config path) line) ∧
        (path ∈ STATUS_FILES → lines newline shown =
          (lines newline (read_real os call)).map fun line =>
            if ascii "TracerPid:" <:+: line then untraced else line) := by
  rcases hooked_openat_cases config os hpath with ⟨-, hc⟩ |
      ⟨hide, hhide, hsig, -, hc⟩ | ⟨-, hmem, -, hc⟩ | ⟨-, hmem, hc⟩ | ⟨-, -, -, hc⟩ <;>
    rw [hc] at h
  · cases h
  · -- a file whose lines are filtered
    obtain rfl : hide = hasSignature (signatures config path) := funext hhide
    have hheld := os.memfd_prefix _ _ (Ret.memfd.inj h)
    refine ⟨fun sig hs hocc => ?_, _, hheld, fun _ => lines_filterLines _ _, fun hmem => ?_⟩
    · exact not_infix_filterLines (signature_in_line hs).1 (signature_in_line hs).2
        (fun line hline => hasSignature_of_infix hs hline) _ (hocc.trans hheld.isInfix)
    · exact absurd (signatures_unfiltered config hmem (Or.inl rfl)) hsig
  · -- the status of the process
    have hnil := signatures_unfiltered config hmem (Or.inl rfl)
    refine ⟨by simp [hnil], _, os.memfd_prefix _ _ (Ret.memfd.inj h), fun hne => ?_, fun _ => ?_⟩
    · exact absurd hnil hne
    · exact lines_filter_status _
  · -- the mode of the mandatory access control, which no signature is about
    have hnil := signatures_unfiltered config hmem (Or.inr rfl)
    refine ⟨by simp [hnil], _, os.memfd_prefix _ _ (Ret.memfd.inj h), fun hne => ?_, fun hm => ?_⟩
    · exact absurd hnil hne
    · exact absurd hm (not_mem_other hmem (by decide) (by decide) (by decide))
  · unfold forward at h
    split at h <;> cases h

/-- A process whose mounts are read, with a file in memory that takes all it is given. -/
def sampleOs : Os where
  openat _ := some [some (ascii "proc /proc\nmagisk /sbin\n/dev/b"), some (ascii "lock /\n"), some []]
  memfd content := some content
  memfd_prefix _ _ h := (Option.some.inj h) ▸ List.prefix_refl _

def sampleCall : Call := ⟨-100, some (ascii "/proc/mounts"), 0, none⟩

theorem hooked_openat_memfd_clean_mounts :
    (∀ sig ∈ signatures .default (ascii "/proc/mounts"), ¬ sig <:+: ascii "proc /proc\n/dev/block /\n") ∧
      hooked_openat .default sampleOs sampleCall =
        .memfd (some (ascii "proc /proc\n/dev/block /\n")) := by
  have h : hooked_openat .default sampleOs sampleCall =
      .memfd (some (ascii "proc /proc\n/dev/block /\n")) := by decide +kernel
  exact ⟨(hooked_openat_memfd_clean rfl h).1, h⟩

end Contents

/-! ### Files under another spelling -/

section Spelling

/-- The components of a path: an empty one and a dot stay in the directory. -/
def components (path : Bytes) : List (Paths.Component Bytes) :=
  (path.splitOn 47).map fun name =>
    if name = [] ∨ name = ascii "." then .here else if name = ascii ".." then .up else .name name

/-- A path with a dot for a first name. -/
def dotted (path : Bytes) : Bytes := ascii "/." ++ path

theorem walk_components_dotted {path : Bytes} (habs : path.head? = some 47) :
    Paths.walk [] (components (dotted path)) = Paths.walk [] (components path) := by
  obtain ⟨names, rfl⟩ : ∃ names, path = 47 :: names := by
    cases path with
    | nil => cases habs
    | cons b names => exact ⟨names, by rw [Option.some.inj habs]⟩
  have hplain : (47 :: names).splitOn 47 = [[]] ++ names.splitOn 47 :=
    List.splitOn_append_cons_self [] names
  have hdotted : (dotted (47 :: names)).splitOn 47 = [[], [46]] ++ names.splitOn 47 :=
    List.splitOn_append_cons_self [47, 46] names
  rw [components, components, hplain, hdotted, List.map_append, List.map_append, Paths.walk,
    Paths.walk, List.foldl_append, List.foldl_append]
  rfl

/-- No path that the hooks know begins as a dotted one does. -/
theorem not_prefix_dotted {known : Bytes}
    (h : known ∈ ascii "/data/adb" :: HIDDEN_PREFIXES ++ FILES.flatten) (path : Bytes) :
    ¬ known <+: dotted path := by
  have hsecond : ∀ known ∈ ascii "/data/adb" :: HIDDEN_PREFIXES ++ FILES.flatten,
      known[1]? ≠ none ∧ known[1]? ≠ some 46 := by decide +kernel
  obtain ⟨hsome, hdot⟩ := hsecond known h
  intro hpre
  have hlt : 1 < known.length := by
    by_contra hle
    exact hsome (List.getElem?_eq_none (Nat.le_of_not_lt hle))
  refine hdot ?_
  rw [List.getElem?_eq_getElem hlt, ← List.prefix_iff_getElem?.1 hpre 1 hlt]
  rfl

theorem should_hide_path_dotted (config : ShieldConfig) (path : Bytes) :
    should_hide_path config (dotted path) = false := by
  have hpre : ∀ known ∈ ascii "/data/adb" :: HIDDEN_PREFIXES,
      known.isPrefixOf (dotted path) = false := by
    intro known hk
    rw [← Bool.not_eq_true, List.isPrefixOf_iff_prefix]
    exact not_prefix_dotted (List.mem_append_left _ hk) path
  obtain ⟨hadb, hhidden⟩ := List.forall_mem_cons.1 hpre
  rw [should_hide_path, hadb, Bool.and_false, Bool.or_false, List.any_eq_false]
  exact fun known hk => by simp [hhidden known hk]

/-- A file under a dotted spelling is the same file, and both hooks hand the call to the kernel
as it is, whatever is hidden or filtered under the other spelling. -/
theorem hooks_dotted (config : ShieldConfig) (os : Os) {call : Call} (path : Bytes)
    (habs : path.head? = some 47) (hcall : call.pathname = some (dotted path)) :
    Paths.walk [] (components (dotted path)) = Paths.walk [] (components path) ∧
      hooked_openat config os call = forward call ∧
      hooked_syscall_openat config call = .real { call with mode := none } := by
  have hhide := should_hide_path_dotted config path
  refine ⟨walk_components_dotted habs, ?_, ?_⟩
  · have hfiles : ∀ files ∈ FILES, dotted path ∉ files := by
      intro files hf hmem
      have hflat : dotted path ∈ FILES.flatten := List.mem_flatten.2 ⟨files, hf, hmem⟩
      exact not_prefix_dotted (List.mem_append_right _ hflat) path (List.prefix_refl _)
    simp only [FILES, List.forall_mem_cons] at hfiles
    simp [hooked_openat, hcall, hhide, filtered, hfiles]
  · simp [hooked_syscall_openat, hcall, hhide]

theorem hooks_dotted_su :
    hooked_openat .default sampleOs ⟨-100, some (ascii "/./sbin/su"), 0, none⟩ =
        .real ⟨-100, some (ascii "/./sbin/su"), 0, none⟩ ∧
      should_hide_path .default (ascii "/sbin/su") = true :=
  ⟨(hooks_dotted .default sampleOs (ascii "/sbin/su") rfl rfl).2.1, by decide⟩

end Spelling

end EnvShield
