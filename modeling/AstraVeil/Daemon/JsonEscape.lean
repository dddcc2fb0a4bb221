import AstraVeil.Daemon.HandlerTotality
import AstraVeil.Lib.JsonLiteral

/-!
# What `json_escape` protects

`json_escape` stands in `daemon/src/main.cpp` and once more in
`daemon/src/service/capability_service.cpp`.  It copies every byte that JSON does not want escaped,
so its output need not be UTF-8, and the strings are read here without decoding them.

* `unescape_jsonEscape`: unescaping gives back the bytes;
* `reads_moduleJson`, `reads_capabilityJson`: the strings of the texts it is used in;
* `json_escape_round_trip`: no field of a reply leaves its literal or is altered.
-/

namespace AstraVeil.Daemon

open Json
open Utf16 (ascii)

/-! ### The escaping -/

theorem unescape_jsonEscapeByte (c : UInt8) :
    unescapeText (.text []) (jsonEscapeByte c) = some [c] :=
  Utf8.forall_byte (P := fun c => unescapeText (.text []) (jsonEscapeByte c) = some [c])
    (by decide +kernel) c

/-- The unescaping rules undo `json_escape`. -/
theorem unescape_jsonEscape (s : List UInt8) : unescapeText (.text []) (jsonEscape s) = some s :=
  unescape_flatMap unescape_jsonEscapeByte s

theorem reads_jsonEscape (s : List UInt8) : Reads (quoted (jsonEscape s)) [.string s] :=
  Reads.quoted (unescape_jsonEscape s)

theorem reads_plain {name : String} (h : Plain name) :
    Reads (quoted (ascii name)) [.string (ascii name)] :=
  Reads.quoted (unescape_plain fun c hc => (h c hc).2)

/-! ### Objects -/

/-- The pieces of an object: names and the pieces of their values. -/
def objectPieces (l : List (String × List Piece)) : List Piece :=
  .mark 0x7B :: ([Piece.mark 0x2C].intercalate
    (l.map fun m => .string (ascii m.1) :: .mark 0x3A :: m.2) ++ [.mark 0x7D])

theorem reads_objectText {l : List (String × List UInt8)} {l' : List (String × List Piece)}
    (h : List.Forall₂ (fun m m' => m.1 = m'.1 ∧ Plain m.1 ∧ Reads m.2 m'.2) l l') :
    Reads (objectText l) (objectPieces l') := by
  refine Reads.bracketed (by decide) (by decide) ?_
  rw [List.forall₂_map_left_iff, List.forall₂_map_right_iff]
  refine h.imp fun m m' hm => ?_
  obtain ⟨hname, hplain, hvalue⟩ := hm
  rw [← hname]
  exact Reads.member (reads_plain hplain) hvalue

/-! ### `ListModules` and `GetRiskScore` -/

/-- A module as a client reads it. -/
def modulePieces (m : Module) : List Piece :=
  objectPieces [("id", [.string m.manifest.id]), ("name", [.string m.manifest.name]),
    ("version", [.string m.manifest.version]), ("path", [.string m.path])]

theorem reads_moduleJson (m : Module) : Reads (moduleJson m) (modulePieces m) := by
  rw [moduleJson_eq]
  refine reads_objectText ?_
  simp only [List.forall₂_cons, List.forall₂_nil_left_iff, true_and, and_true]
  exact ⟨⟨by decide, reads_jsonEscape _⟩, ⟨by decide, reads_jsonEscape _⟩,
    ⟨by decide, reads_jsonEscape _⟩, ⟨by decide, reads_jsonEscape _⟩⟩

/-- The answer to `ListModules` as a client reads it. -/
def listPieces (modules : List Module) : List Piece :=
  .mark 0x5B :: ([Piece.mark 0x2C].intercalate (modules.map modulePieces) ++ [.mark 0x5D])

theorem reads_moduleList (modules : List Module) :
    Reads (ascii "[" ++ [0x2C].intercalate (modules.map moduleJson) ++ ascii "]")
      (listPieces modules) := by
  rw [moduleList_eq]
  refine Reads.bracketed (by decide) (by decide) ?_
  rw [List.forall₂_map_left_iff, List.forall₂_map_right_iff]
  exact List.forall₂_same.2 fun m _ => reads_moduleJson m

/-- The answer to `GetRiskScore` as a client reads it. -/
def riskPieces (modules : List Module) (body : List UInt8) : List Piece :=
  match findModule body modules with
  | none => objectPieces [("error", [.string (ascii "not_found")])]
  | some m =>
      objectPieces [("module", [.string body]),
        ("risk", (Json.decimal (calculate m.manifest)).map .mark),
        ("level", [.string (ascii (levelForScore (calculate m.manifest)))])]

theorem reads_riskReport (body : List UInt8) (score : ℤ) :
    Reads (objectText [("module", quoted (jsonEscape body)), ("risk", Json.decimal score),
      ("level", quoted (ascii (levelForScore score)))])
      (objectPieces [("module", [.string body]), ("risk", (Json.decimal score).map .mark),
        ("level", [.string (ascii (levelForScore score))])]) := by
  refine reads_objectText ?_
  simp only [List.forall₂_cons, List.forall₂_nil_left_iff, true_and, and_true]
  exact ⟨⟨by decide, reads_jsonEscape _⟩,
    ⟨by decide, Reads.marks (quote_not_mem_decimal score)⟩,
    ⟨by decide, reads_plain (plain_levelForScore score)⟩⟩

theorem pieces_notFound : pieces none (ascii "\x7b\"error\":\"not_found\"\x7d") =
    some (objectPieces [("error", [.string (ascii "not_found")])]) := by
  decide +kernel

theorem pieces_handleListModules (s : State) :
    ∃ reply, (handleListModules s).1 = some reply ∧
      pieces none reply = some (listPieces s.modules) :=
  ⟨_, rfl, (reads_moduleList s.modules).pieces_eq⟩

theorem pieces_handleGetRiskScore (s : State) (body : List UInt8) :
    ∃ reply, (handleGetRiskScore s body).1 = some reply ∧
      pieces none reply = some (riskPieces s.modules body) := by
  unfold handleGetRiskScore riskPieces
  cases findModule body s.modules with
  | none => exact ⟨_, rfl, pieces_notFound⟩
  | some m =>
    refine ⟨_, rfl, ?_⟩
    rw [riskReport_eq]
    exact (reads_riskReport body _).pieces_eq

/-! ### `capability_service.cpp` -/

namespace CapabilityService

/-- `json_escape` of `capability_service.cpp`, the same text. -/
def jsonEscape (s : List UInt8) : List UInt8 := Daemon.jsonEscape s

/-- A C++ `bool` in the answer. -/
def boolText (b : Bool) : List UInt8 := if b then ascii "true" else ascii "false"

/-- `get_capability_json`, of what the probes have found. -/
def getCapabilityJson (android kernel selinux : List UInt8) (root ns : Bool) : List UInt8 :=
  ascii "\x7b" ++ (ascii "\"android\":\"" ++ jsonEscape android ++ ascii "\",") ++
    (ascii "\"kernel\":\"" ++ jsonEscape kernel ++ ascii "\",") ++
    (ascii "\"selinux\":\"" ++ jsonEscape selinux ++ ascii "\",") ++
    (ascii "\"root\":" ++ boolText root ++ ascii ",") ++
    (ascii "\"namespace\":" ++ boolText ns) ++ ascii "\x7d"

theorem reads_boolText (b : Bool) : Reads (boolText b) ((boolText b).map .mark) := by
  refine Reads.marks ?_
  cases b <;> decide

/-- The answer as a client reads it. -/
def capabilityPieces (android kernel selinux : List UInt8) (root ns : Bool) : List Piece :=
  objectPieces [("android", [.string android]), ("kernel", [.string kernel]),
    ("selinux", [.string selinux]), ("root", (boolText root).map .mark),
    ("namespace", (boolText ns).map .mark)]

/-- The probed texts are read back as they were. -/
theorem reads_capabilityJson (android kernel selinux : List UInt8) (root ns : Bool) :
    Reads (getCapabilityJson android kernel selinux root ns)
      (capabilityPieces android kernel selinux root ns) := by
  have heq : getCapabilityJson android kernel selinux root ns = objectText
      [("android", quoted (Daemon.jsonEscape android)),
        ("kernel", quoted (Daemon.jsonEscape kernel)),
        ("selinux", quoted (Daemon.jsonEscape selinux)), ("root", boolText root),
        ("namespace", boolText ns)] := by
    have hl : ascii "\x7b" = [0x7B] := by decide
    have hr : ascii "\x7d" = [0x7D] := by decide
    have hcomma : ascii "," = [0x2C] := by decide
    have hq : ascii "\"," = [0x22, 0x2C] := by decide
    have handroid : ascii "\"android\":\"" = quoted (ascii "android") ++ [0x3A, 0x22] := by decide
    have hkernel : ascii "\"kernel\":\"" = quoted (ascii "kernel") ++ [0x3A, 0x22] := by decide
    have hselinux : ascii "\"selinux\":\"" = quoted (ascii "selinux") ++ [0x3A, 0x22] := by decide
    have hroot : ascii "\"root\":" = quoted (ascii "root") ++ [0x3A] := by decide
    have hns : ascii "\"namespace\":" = quoted (ascii "namespace") ++ [0x3A] := by decide
    rw [getCapabilityJson, hl, hr, hcomma, hq, handroid, hkernel, hselinux, hroot, hns]
    simp [jsonEscape, objectText, bracketed, member, quoted, List.intercalate]
  rw [heq]
  refine reads_objectText ?_
  simp only [List.forall₂_cons, List.forall₂_nil_left_iff, true_and, and_true]
  exact ⟨⟨by decide, reads_jsonEscape _⟩, ⟨by decide, reads_jsonEscape _⟩,
    ⟨by decide, reads_jsonEscape _⟩, ⟨by decide, reads_boolText _⟩,
    ⟨by decide, reads_boolText _⟩⟩

end CapabilityService

/-! ### Both copies -/

/-- **`json_escape` is undone by the unescaping rules of JSON**, and no id, name, version or path
leaves its literal in the replies to `ListModules` and `GetRiskScore`; the same goes for the copy
in `capability_service.cpp` and the texts it prints. -/
theorem json_escape_round_trip :
    (∀ s : List UInt8,
      (∀ c ∈ jsonEscape s, 0x20 ≤ c) ∧
      (∀ x y, jsonEscape s = x ++ 0x22 :: y → afterBackslash x = true) ∧
      afterBackslash (jsonEscape s) = false ∧
      unescapeText (.text []) (jsonEscape s) = some s) ∧
    (∀ s : State, ∃ reply, (handleListModules s).1 = some reply ∧
      pieces none reply = some (listPieces s.modules)) ∧
    (∀ (s : State) (body : List UInt8), ∃ reply, (handleGetRiskScore s body).1 = some reply ∧
      pieces none reply = some (riskPieces s.modules body)) ∧
    (∀ s : List UInt8, CapabilityService.jsonEscape s = jsonEscape s) ∧
    (∀ (android kernel selinux : List UInt8) (root ns : Bool),
      pieces none (CapabilityService.getCapabilityJson android kernel selinux root ns) =
        some (CapabilityService.capabilityPieces android kernel selinux root ns)) := by
  refine ⟨fun s => ?_, pieces_handleListModules, pieces_handleGetRiskScore, fun _ => rfl,
    fun android kernel selinux root ns =>
      (CapabilityService.reads_capabilityJson android kernel selinux root ns).pieces_eq⟩
  obtain ⟨hlow, hquote, hend⟩ := unescape_closed (unescape_jsonEscape s)
  exact ⟨hlow, hquote, hend, unescape_jsonEscape s⟩

end AstraVeil.Daemon
