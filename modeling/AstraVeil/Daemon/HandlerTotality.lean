import AstraVeil.Daemon.ExecuteGate

/-!
# The handler answers

The response of the handler echoes the first byte of the request, and the rest of it should be a
JSON text.  Most services achieve that; the others throw or print malformed text where a string they
did not write themselves is not UTF-8, or where `std::filesystem::exists` cannot `stat` a path.

* `answered_iff`: when the handler answers.
-/

namespace AstraVeil.Daemon

open Json
open Utf16 (ascii)
open Utf8 (Valid Ascii)

variable {F : Type}

/-! ### Texts made by concatenation -/

theorem escaping_jsonEscapeByte : Utf8.Escaping jsonEscapeByte where
  ascii := Utf8.forall_byte (by decide +kernel)
  ne_nil := Utf8.forall_byte (by decide +kernel)
  copied := Utf8.forall_byte (by decide +kernel)

theorem chars_jsonEscapeByte {c : UInt8} (hc : c < 0x80) : Chars (jsonEscapeByte c) := by
  unfold jsonEscapeByte
  refine chars_ite (by decide) fun h22 => chars_ite (by decide) fun h5C =>
    chars_ite (by decide) fun _ => chars_ite (by decide) fun _ => chars_ite (by decide) fun _ => ?_
  split_ifs with h20
  · exact chars_unicodeEscape _
  · exact chars_singleton hc ⟨UInt8.not_lt.1 h20, h22, h5C⟩

theorem valid_jsonEscape (s : List UInt8) : Valid (jsonEscape s) ↔ Valid s :=
  Utf8.valid_flatMap escaping_jsonEscapeByte s

theorem text_jsonEscape {s : List UInt8} (hs : Valid s) : Text (quoted (jsonEscape s)) :=
  Text.string (chars_flatMap escaping_jsonEscapeByte (fun _ hc => chars_jsonEscapeByte hc) hs)

/-- An object written out: names and the texts of their values. -/
def objectText (l : List (String × List UInt8)) : List UInt8 :=
  bracketed 0x7B 0x7D (l.map fun m => member (quoted (ascii m.1), m.2))

/-- A name that needs no escapes. -/
def Plain (name : String) : Prop :=
  ∀ c ∈ ascii name, c < 0x80 ∧ 0x20 ≤ c ∧ c ≠ 0x22 ∧ c ≠ 0x5C

instance (name : String) : Decidable (Plain name) :=
  List.decidableBAll (fun c => c < 0x80 ∧ 0x20 ≤ c ∧ c ≠ 0x22 ∧ c ≠ 0x5C) (ascii name)

theorem text_objectText {l : List (String × List UInt8)} (hn : ∀ m ∈ l, Plain m.1)
    (ht : ∀ m ∈ l, Text m.2) : Text (objectText l) := by
  have hmap : objectText l = bracketed 0x7B 0x7D
      ((l.map fun m => (quoted (ascii m.1), m.2)).map member) := by
    rw [List.map_map]
    rfl
  rw [hmap]
  refine text_members ?_ ?_
  · exact List.forall_mem_map.2 fun m hm => name_quoted (chars_plain (hn m hm))
  · exact List.forall_mem_map.2 ht

theorem valid_objectText {l : List (String × List UInt8)} (h : Valid (objectText l)) :
    ∀ m ∈ l, Valid m.2 := by
  intro m hm
  exact (valid_member.1 ((valid_bracketed (by decide) (by decide)).1 h _
    (List.mem_map_of_mem hm))).2

theorem matrix_json_eq (m : CapabilityMatrix) : m.json = objectText (allCapabilities.map fun c =>
    (capabilityName c, if m c then ascii "true" else ascii "false")) := by
  have hmember : ∀ c, m.jsonMember c = member (quoted (ascii (capabilityName c)),
      if m c then ascii "true" else ascii "false") := by
    intro c
    rw [CapabilityMatrix.jsonMember, member, quoted]
    have hq : ascii "\"" = [0x22] := by decide
    have hc : ascii "\":" = [0x22, 0x3A] := by decide
    rw [hq, hc]
    simp
  have hl : ascii "\x7b" = [0x7B] := by decide
  have hr : ascii "\x7d" = [0x7D] := by decide
  rw [CapabilityMatrix.json, objectText, List.map_map, bracketed, hl, hr,
    List.map_congr_left fun c _ => hmember c]
  rfl

/-- The matrix is always printed as a JSON text. -/
theorem text_matrix_json (m : CapabilityMatrix) : Text m.json := by
  have hplain : ∀ c : Capability, Plain (capabilityName c) := by
    intro c
    cases c <;> decide
  rw [matrix_json_eq]
  refine text_objectText (List.forall_mem_map.2 fun c _ => hplain c)
    (List.forall_mem_map.2 fun c _ => ?_)
  dsimp only
  split
  · exact Text.true
  · exact Text.false

theorem moduleJson_eq (m : Module) : moduleJson m = objectText
    [("id", quoted (jsonEscape m.manifest.id)), ("name", quoted (jsonEscape m.manifest.name)),
      ("version", quoted (jsonEscape m.manifest.version)),
      ("path", quoted (jsonEscape m.path))] := by
  have hid : ascii "\x7b\"id\":\"" = 0x7B :: (quoted (ascii "id") ++ [0x3A, 0x22]) := by
    decide
  have hname : ascii ",\"name\":\"" = 0x2C :: (quoted (ascii "name") ++ [0x3A, 0x22]) := by
    decide
  have hversion : ascii ",\"version\":\"" = 0x2C :: (quoted (ascii "version") ++ [0x3A, 0x22]) := by
    decide
  have hpath : ascii ",\"path\":\"" = 0x2C :: (quoted (ascii "path") ++ [0x3A, 0x22]) := by
    decide
  have hq : ascii "\"" = [0x22] := by decide
  have hr : ascii "\"\x7d" = [0x22, 0x7D] := by decide
  rw [moduleJson, hid, hname, hversion, hpath, hq, hr]
  simp [objectText, bracketed, member, quoted, List.intercalate]

/-- The fields of a module are well-formed UTF-8. -/
def Module.Valid (m : Module) : Prop :=
  Utf8.Valid m.manifest.id ∧ Utf8.Valid m.manifest.name ∧ Utf8.Valid m.manifest.version ∧
    Utf8.Valid m.path

theorem text_moduleJson {m : Module} (h : m.Valid) : Text (moduleJson m) := by
  obtain ⟨hid, hname, hversion, hpath⟩ := h
  rw [moduleJson_eq]
  refine text_objectText (by simp only [List.forall_mem_cons]; decide) ?_
  simp only [List.forall_mem_cons, List.not_mem_nil, IsEmpty.forall_iff, implies_true, and_true]
  exact ⟨text_jsonEscape hid, text_jsonEscape hname, text_jsonEscape hversion,
    text_jsonEscape hpath⟩

theorem valid_moduleJson {m : Module} (h : Utf8.Valid (moduleJson m)) : m.Valid := by
  rw [moduleJson_eq] at h
  have hfields := valid_objectText h
  simp only [List.forall_mem_cons, valid_quoted, valid_jsonEscape, List.not_mem_nil,
    IsEmpty.forall_iff, implies_true, and_true] at hfields
  exact hfields

theorem moduleList_eq (modules : List Module) :
    ascii "[" ++ [0x2C].intercalate (modules.map moduleJson) ++ ascii "]" =
      bracketed 0x5B 0x5D (modules.map moduleJson) := by
  have hl : ascii "[" = [0x5B] := by decide
  have hr : ascii "]" = [0x5D] := by decide
  rw [hl, hr, bracketed, List.append_assoc]
  rfl

/-- The list of modules is a JSON text exactly when every field in it is well-formed UTF-8. -/
theorem text_listModules_iff (modules : List Module) :
    Text (ascii "[" ++ [0x2C].intercalate (modules.map moduleJson) ++ ascii "]") ↔
      ∀ m ∈ modules, m.Valid := by
  rw [moduleList_eq]
  constructor
  · intro h m hm
    exact valid_moduleJson ((valid_bracketed (by decide) (by decide)).1 h.valid _
      (List.mem_map_of_mem hm))
  · intro h
    exact text_bracketed (List.forall_mem_map.2 fun m hm => text_moduleJson (h m hm))

theorem riskReport_eq (body : List UInt8) (score : ℤ) :
    ascii "\x7b\"module\":\"" ++ jsonEscape body ++ ascii "\",\"risk\":" ++
      Json.decimal score ++ ascii ",\"level\":\"" ++ ascii (levelForScore score) ++
      ascii "\"\x7d" = objectText [("module", quoted (jsonEscape body)),
        ("risk", Json.decimal score), ("level", quoted (ascii (levelForScore score)))] := by
  have hmodule : ascii "\x7b\"module\":\"" = 0x7B :: (quoted (ascii "module") ++ [0x3A, 0x22]) := by
    decide
  have hrisk : ascii "\",\"risk\":" = 0x22 :: 0x2C :: (quoted (ascii "risk") ++ [0x3A]) := by
    decide
  have hlevel : ascii ",\"level\":\"" = 0x2C :: (quoted (ascii "level") ++ [0x3A, 0x22]) := by
    decide
  have hr : ascii "\"\x7d" = [0x22, 0x7D] := by decide
  rw [hmodule, hrisk, hlevel, hr]
  simp [objectText, bracketed, member, quoted, List.intercalate]

/-- The level of a score needs no escapes. -/
theorem plain_levelForScore (score : ℤ) : Plain (levelForScore score) := by
  unfold levelForScore
  split
  · decide
  split
  · decide
  split <;> decide

/-- The risk report is a JSON text exactly when the id in it is well-formed UTF-8. -/
theorem text_riskScore_iff (body : List UInt8) (score : ℤ) :
    Text (ascii "\x7b\"module\":\"" ++ jsonEscape body ++ ascii "\",\"risk\":" ++
      Json.decimal score ++ ascii ",\"level\":\"" ++ ascii (levelForScore score) ++
      ascii "\"\x7d") ↔ Valid body := by
  rw [riskReport_eq]
  constructor
  · intro h
    have hfields := valid_objectText h.valid
    rw [List.forall_mem_cons, valid_quoted, valid_jsonEscape] at hfields
    exact hfields.1
  · intro h
    refine text_objectText (by simp only [List.forall_mem_cons]; decide) ?_
    simp only [List.forall_mem_cons, List.not_mem_nil, IsEmpty.forall_iff, implies_true, and_true]
    exact ⟨text_jsonEscape h, Text.number (number_decimal score),
      Text.string (chars_plain (plain_levelForScore score))⟩

/-! ### What the probes report -/

theorem valid_ascii {t : String} (h : Ascii (ascii t)) : Valid (ascii t) := h.valid

/-- The probes report ASCII texts only. -/
theorem printed_detectCapabilities (fl : FloatText F) (dev : Device) :
    Printed (makeCapabilityResponse fl (detectCapabilities dev)) := by
  have hnames : Names ["root", "overlayfs", "mount_namespace", "pid_namespace", "net_namespace",
      "selinux", "system_write", "zygisk", "boot_patch"] := by decide
  have hroot : Valid (probeRoot dev).source :=
    (valid_ascii (by decide)).append (number_natDecimal dev.uid).ascii.valid
  have hmode : Valid (ascii (selinuxMode dev)) := by
    unfold selinuxMode
    split
    · split <;> decide
    · decide
  have hselinux : Valid (probeSelinux dev).source :=
    ((valid_ascii (by decide)).append hmode).append (valid_ascii (by decide))
  refine (makeCapabilityResponse_iff fl (by exact hnames)).2 ?_
  simp only [detectCapabilities, List.forall_mem_cons, List.not_mem_nil, IsEmpty.forall_iff,
    implies_true, and_true]
  refine ⟨hroot, ?_, ?_, ?_, ?_, hselinux, ?_, ?_, ?_⟩
  all_goals exact valid_ascii (by decide)

/-- The texts of a backend are ASCII. -/
def Backend.Ascii (b : Backend) : Prop :=
  Utf8.Ascii (ascii b.id) ∧ Utf8.Ascii (ascii b.name) ∧ (∀ p ∈ b.paths, Utf8.Ascii (ascii p)) ∧
    Utf8.Ascii (ascii b.shown)

instance (b : Backend) : Decidable b.Ascii := inferInstanceAs (Decidable (_ ∧ _))

/-- Whatever version a backend that is present prints, it is well-formed UTF-8. -/
def Backend.Readable (dev : Device) (b : Backend) : Prop :=
  (∃ p ∈ b.paths, dev.fileExists p = true) → (dev.runCmd (ascii b.command)).1 = true →
    Utf8.Valid (firstLine (dev.runCmd (ascii b.command)).2)

theorem valid_checkPaths (dev : Device) {paths : List String}
    (h : ∀ p ∈ paths, Ascii (ascii p)) : Valid (checkPaths dev paths).2 := by
  have hsep : Ascii (ascii ", ") ∧ ascii ", " ≠ [] := by decide
  have hlist : ∀ l : List String, (∀ p ∈ l, Ascii (ascii p)) →
      Valid ((ascii ", ").intercalate (l.map ascii)) := fun l hl =>
    (Utf8.valid_intercalate hsep.1 hsep.2 _).2 (List.forall_mem_map.2 fun p hp => (hl p hp).valid)
  unfold checkPaths
  split
  · exact ((valid_ascii (by decide)).append (hlist _ h)).append
      (valid_ascii (by decide))
  · exact (valid_ascii (by decide)).append
      (hlist _ fun p hp => h p (List.mem_of_mem_filter hp))

theorem checkPaths_fst (dev : Device) (paths : List String) :
    (checkPaths dev paths).1 = true ↔ ∃ p ∈ paths, dev.fileExists p = true := by
  unfold checkPaths
  split
  · next h =>
    simp only [Bool.false_eq_true, false_iff, not_exists, not_and]
    intro p hp hex
    exact absurd (List.mem_filter.2 ⟨hp, hex⟩) (by rw [h]; exact List.not_mem_nil)
  · next h =>
    refine iff_of_true rfl ?_
    obtain ⟨p, hp⟩ := List.exists_mem_of_ne_nil _ h
    obtain ⟨hp, hex⟩ := List.mem_filter.1 hp
    exact ⟨p, hp, by simpa using hex⟩

/-- The texts of a provider are well-formed UTF-8. -/
def ProviderInfo.Valid (p : ProviderInfo) : Prop :=
  Utf8.Valid p.id ∧ Utf8.Valid p.name ∧ Utf8.Valid p.version ∧ Utf8.Valid p.source

/-- A detector reports well-formed text exactly when the version it reads is well formed. -/
theorem valid_detectBackend_iff (dev : Device) {b : Backend} (hb : b.Ascii) :
    (detectBackend dev b).Valid ↔ b.Readable dev := by
  obtain ⟨hid, hname, hpaths, hshown⟩ := hb
  have hsrc := valid_checkPaths dev hpaths
  rw [Backend.Readable, ← checkPaths_fst]
  unfold detectBackend
  generalize checkPaths dev b.paths = found at hsrc ⊢
  obtain ⟨detected, src⟩ := found
  generalize dev.runCmd (ascii b.command) = run
  obtain ⟨ok, out⟩ := run
  dsimp only at hsrc ⊢
  cases detected with
  | false =>
    rw [if_neg Bool.false_ne_true]
    exact iff_of_true ⟨hid.valid, hname.valid, Utf8.Valid.nil, hsrc⟩ fun h => by cases h
  | true =>
    rw [if_pos rfl]
    by_cases hver : ok = true ∧ firstLine out ≠ []
    · rw [if_pos hver, imp_iff_right rfl, imp_iff_right hver.1]
      refine ⟨fun h => h.2.2.1, fun h => ⟨hid.valid, hname.valid, h, ?_⟩⟩
      exact hsrc.append ((((valid_ascii (by decide)).append hshown.valid).append
        (valid_ascii (by decide))).append h)
    · rw [if_neg hver]
      refine iff_of_true ⟨hid.valid, hname.valid, Utf8.Valid.nil, ?_⟩ fun _ hok => ?_
      · exact hsrc.append (((valid_ascii (by decide)).append hshown.valid).append
          (valid_ascii (by decide)))
      · have hnil : firstLine out = [] := by
          by_contra hne
          exact hver ⟨hok, hne⟩
        rw [hnil]
        exact Utf8.Valid.nil

/-- The provider report is printed exactly when the versions it contains are well formed. -/
theorem printed_detectProviders_iff (fl : FloatText F) (dev : Device) :
    Printed (makeProvidersResponse fl (detectProviders dev)) ↔
      ∀ b ∈ [magisk, kernelsu, apatch], b.Readable dev := by
  have hascii : magisk.Ascii ∧ kernelsu.Ascii ∧ apatch.Ascii := by decide
  have hastra : detectAstraroot.Valid := by
    unfold ProviderInfo.Valid
    decide
  have hlist : (∀ p ∈ detectProviders dev, ProviderInfo.Valid p) ↔
      ∀ b ∈ [magisk, kernelsu, apatch], b.Readable dev := by
    simp only [detectProviders, detectMagisk, detectKernelsu, detectApatch, List.forall_mem_cons,
      List.not_mem_nil, IsEmpty.forall_iff, implies_true, and_true,
      valid_detectBackend_iff dev hascii.1, valid_detectBackend_iff dev hascii.2.1,
      valid_detectBackend_iff dev hascii.2.2, hastra]
  rw [makeProvidersResponse_iff]
  exact hlist

/-! ### The audit log -/

theorem not_mem_getlines (s : List UInt8) : ∀ line ∈ getlines s, (0x0A : UInt8) ∉ line := by
  induction s with
  | nil => exact fun _ h => absurd h List.not_mem_nil
  | cons c s ih =>
    rw [getlines]
    split
    · exact List.forall_mem_cons.2 ⟨List.not_mem_nil, ih⟩
    · next hc =>
      split
      · next h => simpa using fun h => hc h.symm
      · next l ls h =>
        rw [h] at ih
        obtain ⟨hl, hls⟩ := List.forall_mem_cons.1 ih
        refine List.forall_mem_cons.2 ⟨?_, hls⟩
        simp only [List.mem_cons, not_or]
        exact ⟨fun h => hc h.symm, hl⟩

theorem getlines_line {line rest : List UInt8} (h : (0x0A : UInt8) ∉ line) :
    getlines (line ++ 0x0A :: rest) = line :: getlines rest := by
  induction line with
  | nil => simp [getlines]
  | cons c line ih =>
    simp only [List.mem_cons, not_or] at h
    rw [List.cons_append, getlines, if_neg fun hc => h.1 hc.symm, ih h.2]

/-- Copying a log line by line keeps its lines. -/
theorem getlines_flatMap {lines : List (List UInt8)} (h : ∀ line ∈ lines, (0x0A : UInt8) ∉ line) :
    getlines (lines.flatMap fun line => line ++ ascii "\n") = lines := by
  have hn : ascii "\n" = [0x0A] := by decide
  rw [hn]
  induction lines with
  | nil => rfl
  | cons line lines ih =>
    obtain ⟨hl, hls⟩ := List.forall_mem_cons.1 h
    rw [List.flatMap_cons, List.append_assoc, List.singleton_append, getlines_line hl, ih hls]

/-! ### When the handler answers -/

/-- A response: the echoed byte and a JSON text. -/
def Answered (type : UInt8) (response : Option (List UInt8)) : Prop :=
  ∃ text, response = some (type :: text) ∧ Text text

/-- What a request needs in order to be answered: well-formed UTF-8 in the texts that come from
elsewhere, and paths that can be examined. -/
def Answerable (fl : FloatText F) (dev : Device) (s : State) (type : Option RequestType)
    (body : List UInt8) : Prop :=
  match type with
  | some .getProvider => ∀ b ∈ [magisk, kernelsu, apatch], b.Readable dev
  | some .execute => ∀ req, parseExecuteRequest fl body = some req →
      s.provider.available dev ≠ none ∧
        (s.provider.available dev = some true →
          checkWith dev req.moduleId req.capability req.riskLevel req.approved = .allow →
          ∀ out st, dev.popen (req.command ++ ascii " 2>&1") = some (out, st) → Valid out)
  | some .getCapabilityMatrix => s.provider.available dev ≠ none ∧
      dev.stat (ascii "/sys/fs/selinux/enforce") ≠ .failed ∧
      dev.stat (ascii "/proc/self/ns/mnt") ≠ .failed
  | some .listModules => ∀ m ∈ s.modules, m.Valid
  | some .getRiskScore => (∃ m ∈ s.modules, m.manifest.id = body) → Valid body
  | some .getAuditLog => ∀ line ∈ getlines s.auditFile, line ≠ [] → parse fl line = none →
      Valid line
  | _ => True

theorem printed_some {text : List UInt8} : Printed (some text) ↔ Text text :=
  ⟨fun ⟨_, h, ht⟩ => Option.some.inj h ▸ ht, fun h => ⟨text, rfl, h⟩⟩

theorem not_printed_none : ¬ Printed none := fun ⟨_, h, _⟩ => by cases h

theorem printed_literal {text : List UInt8} (v : Value Empty) (h : dump noFloats v = some text) :
    Printed (some text) :=
  printed_some.2 (text_of_dump noFloats v h)

theorem answered_handler_iff (fl : FloatText F) (dev : Device) (s : State) (type : UInt8)
    (body : List UInt8) : Answered type (handler fl dev s (type :: body)).1 ↔
      Printed (serve fl dev s (RequestType.ofByte type) body).1 := by
  have hh : (handler fl dev s (type :: body)).1 =
      (serve fl dev s (RequestType.ofByte type) body).1.map (type :: ·) := rfl
  rw [hh]
  constructor
  · rintro ⟨text, h, ht⟩
    obtain ⟨text', h', heq⟩ := Option.map_eq_some_iff.1 h
    exact ⟨text, by rw [h', (List.cons.inj heq).2], ht⟩
  · rintro ⟨text, h, ht⟩
    exact ⟨text, by rw [h]; rfl, ht⟩

section Services

variable (fl : FloatText F) (dev : Device) (s : State) (body : List UInt8)

theorem printed_getProvider_iff : Printed (handleGetProvider fl dev s).1 ↔
    ∀ b ∈ [magisk, kernelsu, apatch], b.Readable dev := by
  have hfst : (handleGetProvider fl dev s).1 = makeProvidersResponse fl (detectProviders dev) := by
    unfold handleGetProvider
    split
    · next h => exact h.symm
    · next h => exact h.symm
  rw [hfst, printed_detectProviders_iff]

/-- What the executor captured is well formed. -/
theorem valid_execute_iff (cmd : List UInt8) : Valid (execute dev cmd).stdout ↔
    ∀ out st, dev.popen (cmd ++ ascii " 2>&1") = some (out, st) → Valid out := by
  unfold execute
  split
  · next h => simp [h, Utf8.Valid.nil]
  all_goals
    next h => simp [h]

theorem stderr_execute (cmd : List UInt8) : (execute dev cmd).stderr = [] := by
  unfold execute
  split <;> rfl

theorem printed_error {error reason : List UInt8} (he : Valid error) (hr : Valid reason) :
    Printed (makeErrorResponse fl error reason) :=
  (makeErrorResponse_iff fl error reason).2 ⟨he, hr⟩

/-- The texts of a request that the codec accepts are well-formed UTF-8. -/
theorem valid_of_parseExecuteRequest {req : ExecReq} (h : parseExecuteRequest fl body = some req) :
    Valid req.moduleId ∧ Valid req.capability := by
  unfold parseExecuteRequest at h
  split at h
  · next ms hbody =>
    split at h
    · next out hout =>
      split at h
      · cases h
      · cases h
        simp only [readExecReq, Option.bind_eq_bind, Option.bind_eq_some_iff] at hout
        obtain ⟨m, hm, c, hc, a, ha, x, hx, risk, hrisk, b, hb, hout⟩ := hout
        cases hout
        exact ⟨valid_valueString (clean_parse hbody) hm, valid_valueString (clean_parse hbody) hc⟩
    · cases h
  · cases h

theorem printed_execute_iff : Printed (handleExecute fl dev s body).1 ↔
    Answerable fl dev s (some .execute) body := by
  unfold handleExecute
  rw [Answerable]
  cases hreq : parseExecuteRequest fl body with
  | none =>
    refine iff_of_true (printed_error fl (by decide) (by decide)) fun req h => ?_
    cases h
  | some req =>
    have hreq' : ∀ {P : ExecReq → Prop}, (∀ req', some req = some req' → P req') ↔ P req :=
      fun {P} => ⟨fun h => h req rfl, fun h req' heq => Option.some.inj heq ▸ h⟩
    rw [hreq']
    obtain ⟨hm, hc⟩ := valid_of_parseExecuteRequest fl body hreq
    cases hp : s.provider.available dev with
    | none => exact iff_of_false not_printed_none fun h => h.1 rfl
    | some available =>
      cases available with
      | false =>
        exact iff_of_true (printed_error fl (by decide) (by decide))
          ⟨by simp, fun h => by cases h⟩
      | true =>
        cases hcheck : checkWith dev req.moduleId req.capability req.riskLevel req.approved with
        | deny =>
          simp only [hcheck]
          -- the reason repeats two fields of the request, which were read from JSON
          refine iff_of_true (printed_error fl (by decide) ?_)
            ⟨by simp, fun _ h => by cases h⟩
          exact ((((valid_ascii (by decide)).append hm).append
            (valid_ascii (by decide))).append hc).append (valid_ascii (by decide))
        | approval =>
          simp only [hcheck]
          exact iff_of_true (printed_error fl (by decide) (by decide))
            ⟨by simp, fun _ h => by cases h⟩
        | allow =>
          simp only [hcheck, makeExecResponse_iff, stderr_execute, Utf8.Valid.nil, and_true]
          rw [valid_execute_iff]
          simp

theorem fsExists_eq_none_iff (path : String) :
    dev.fsExists path = none ↔ dev.stat (ascii path) = .failed := by
  unfold Device.fsExists
  split <;> simp [*]

theorem printed_getCapabilityMatrix_iff : Printed (handleGetCapabilityMatrix dev s).1 ↔
    Answerable fl dev s (some .getCapabilityMatrix) body := by
  have hdetect : detect dev s.provider ≠ none ↔
      Answerable fl dev s (some .getCapabilityMatrix) body := by
    simp only [Answerable, detect, ne_eq, ← fsExists_eq_none_iff]
    cases s.provider.available dev <;> cases dev.fsExists "/sys/fs/selinux/enforce" <;>
      cases dev.fsExists "/proc/self/ns/mnt" <;> simp
  rw [← hdetect, handleGetCapabilityMatrix]
  cases detect dev s.provider with
  | none => exact iff_of_false not_printed_none fun h => h rfl
  | some m => exact iff_of_true (printed_some.2 (text_matrix_json m)) (by simp)

theorem printed_getRiskScore_iff : Printed (handleGetRiskScore s body).1 ↔
    Answerable fl dev s (some .getRiskScore) body := by
  have hfind : findModule body s.modules = none ↔ ¬ ∃ m ∈ s.modules, m.manifest.id = body := by
    simp [findModule]
  rw [Answerable, handleGetRiskScore]
  cases h : findModule body s.modules with
  | none =>
    refine iff_of_true (printed_literal (.object [(ascii "error", .string (ascii "not_found"))])
      (by decide)) fun hex => absurd hex (hfind.1 h)
  | some m =>
    have hex : ∃ m ∈ s.modules, m.manifest.id = body := by
      by_contra hno
      rw [hfind.2 hno] at h
      cases h
    rw [imp_iff_right hex, printed_some, text_riskScore_iff]

theorem printed_withPermission {bad unknown : List UInt8}
    {act : List UInt8 → List UInt8 → Permission → Reply} (hbad : Printed (some bad))
    (hunknown : Printed (some unknown)) (hact : ∀ mod name perm, Printed (act mod name perm).1) :
    Printed (withPermission s body bad unknown act).1 := by
  unfold withPermission
  split
  · exact hbad
  split
  · exact hunknown
  · exact hact _ _ _

/-- One of two literals. -/
theorem printed_ite {c : Bool} {a b : List UInt8} (ha : Printed (some a)) (hb : Printed (some b)) :
    Printed (some (if c then a else b)) := by
  split
  · exact ha
  · exact hb

/-- An object with one boolean. -/
theorem printed_flag {text : List UInt8} (key : String) (b : Bool)
    (h : dump noFloats (.object [(ascii key, .boolean b)]) = some text) : Printed (some text) :=
  printed_literal _ h

theorem printed_queryPermission : Printed (handleQueryPermission dev s body).1 := by
  have hmessage : ∀ (b : Bool) (m : String) {text : List UInt8},
      dump noFloats (.object [(ascii "granted", .boolean b),
        (ascii "message", .string (ascii m))]) = some text → Printed (some text) :=
    fun _ _ _ h => printed_literal _ h
  refine printed_withPermission s body (hmessage false "bad request" (by decide))
    (hmessage false "unknown permission" (by decide)) fun mod name perm => ?_
  exact printed_ite (hmessage true "allow" (by decide))
    (hmessage false "denied" (by decide))

theorem printed_grantPermission : Printed (handleGrantPermission dev s body).1 := by
  have hno : Printed (some (ascii "\x7b\"granted\":false\x7d")) :=
    printed_flag "granted" false (by decide)
  exact printed_withPermission s body hno hno fun mod name perm =>
    printed_ite (printed_flag "granted" true (by decide)) hno

theorem printed_revokePermission : Printed (handleRevokePermission dev s body).1 := by
  have hno : Printed (some (ascii "\x7b\"revoked\":false\x7d")) :=
    printed_flag "revoked" false (by decide)
  exact printed_withPermission s body hno hno fun mod name perm =>
    printed_ite (printed_flag "revoked" true (by decide)) hno

/-- An object with a boolean and an error. -/
theorem printed_flagError {text : List UInt8} (key error : String)
    (h : dump noFloats (.object [(ascii key, .boolean false),
      (ascii "error", .string (ascii error))]) = some text) : Printed (some text) :=
  printed_literal _ h

theorem printed_getAuditLog_iff : Printed (handleGetAuditLog fl s).1 ↔
    Answerable fl dev s (some .getAuditLog) body := by
  rw [handleGetAuditLog, makeAuditArray_iff, getlines_flatMap (not_mem_getlines s.auditFile),
    Answerable]

/-- Each service answers when its request is answerable. -/
theorem printed_serve_iff (type : Option RequestType) :
    Printed (serve fl dev s type body).1 ↔ Answerable fl dev s type body := by
  cases type with
  | none =>
    exact iff_of_true (printed_error fl (by decide) (by decide)) trivial
  | some type =>
    cases type with
    | getCapability => exact iff_of_true (printed_detectCapabilities fl dev) trivial
    | getProvider => exact printed_getProvider_iff fl dev s
    | execute => exact printed_execute_iff fl dev s body
    | ping => exact iff_of_true ((makePingResponse_iff fl _ _).2 (by decide)) trivial
    | getCapabilityMatrix => exact printed_getCapabilityMatrix_iff fl dev s body
    | installModule =>
      exact iff_of_true (printed_ite (printed_flag "installed" true (by decide))
        (printed_flagError "installed" "install_failed" (by decide))) trivial
    | removeModule =>
      exact iff_of_true (printed_ite (printed_flag "removed" true (by decide))
        (printed_flagError "removed" "not_found" (by decide))) trivial
    | startModule =>
      exact iff_of_true (printed_ite (printed_flag "started" true (by decide))
        (printed_flagError "started" "denied_or_not_found" (by decide))) trivial
    | stopModule =>
      exact iff_of_true (printed_ite (printed_flag "stopped" true (by decide))
        (printed_flag "stopped" false (by decide))) trivial
    | listModules => exact printed_some.trans (text_listModules_iff s.modules)
    | queryPermission => exact iff_of_true (printed_queryPermission dev s body) trivial
    | grantPermission => exact iff_of_true (printed_grantPermission dev s body) trivial
    | revokePermission => exact iff_of_true (printed_revokePermission dev s body) trivial
    | getRiskScore => exact printed_getRiskScore_iff fl dev s body
    | getAuditLog => exact printed_getAuditLog_iff fl dev s body

end Services

/-- **The handler answers every non-empty request that is answerable, and no other.**  The answer
is the first byte of the request, followed by a JSON text. -/
theorem answered_iff (fl : FloatText F) (dev : Device) (s : State) (type : UInt8)
    (body : List UInt8) :
    Answered type (handler fl dev s (type :: body)).1 ↔
      Answerable fl dev s (RequestType.ofByte type) body := by
  rw [answered_handler_iff, printed_serve_iff]

/-- A command that prints the byte `FF` takes the daemon down. -/
theorem unanswered_binaryOutput :
    let dev := { sampleDevice with popen := fun _ => some ([0xFF], .exited 0) }
    (handler noFloats dev sampleState (0x03 :: sampleRequest "10")).1 = none ∧
      ¬ Answered 0x03 (handler noFloats dev sampleState (0x03 :: sampleRequest "10")).1 := by
  intro dev
  have h : (handler noFloats dev sampleState (0x03 :: sampleRequest "10")).1 = none := by
    decide +kernel
  rw [h]
  exact ⟨rfl, fun ⟨_, h, _⟩ => by cases h⟩

end AstraVeil.Daemon
