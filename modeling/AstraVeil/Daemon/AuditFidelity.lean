import AstraVeil.Daemon.HandlerTotality
import AstraVeil.Lib.JsonTrace
import AstraVeil.Lib.Runs

/-!
# What the audit log says

`AuditLogger::log` writes a decision as a line of JSON by concatenation, and `make_audit_array`
reads the lines back.  The action is one of finitely many names, but the id of the module comes from
the request as it is, and nothing escapes it.

* `forall₂_records_iff`: a log records its decisions when every id is plain;
* `auditFidelity_iff`: for which requests the answer to `GetAuditLog` is right.
-/

namespace AstraVeil.Daemon

open Json
open Utf16 (ascii)
open Utf8 (Valid Ascii)

variable {F : Type}

/-! ### Requests and decisions -/

/-- The requests that end in an audited decision. -/
inductive PermissionRequest
  | query
  | grant
  | revoke

/-- The discriminator of a request. -/
def PermissionRequest.type : PermissionRequest → UInt8
  | .query => 0x0B
  | .grant => 0x0C
  | .revoke => 0x0D

/-- A request, and the device on which it is served. -/
structure AuditedRequest where
  dev : Device
  kind : PermissionRequest
  body : List UInt8

/-- An audited decision. -/
structure Decision where
  time : Tm
  module : List UInt8
  action : List UInt8
  result : Bool

/-- What is decided about a module and a permission. -/
def AuditedRequest.judge (r : AuditedRequest) (s : State) (mod permName : List UInt8)
    (perm : Permission) : Decision :=
  match r.kind with
  | .query => ⟨r.dev.now, mod, permName, authorize s.database s.matrix mod perm⟩
  | .grant => ⟨r.dev.now, mod, ascii "GRANT:" ++ permName, (s.database.grant mod perm).1⟩
  | .revoke => ⟨r.dev.now, mod, ascii "REVOKE:" ++ permName, (s.database.revoke mod perm).1⟩

/-- The decision of a request; there is none where the body names no permission. -/
def AuditedRequest.decision (r : AuditedRequest) (s : State) : Option Decision := do
  let (mod, permName) ← splitColon r.body
  let perm ← permissionFromName permName
  some (r.judge s mod permName perm)

/-- The daemon serves a request. -/
def serveRequest (fl : FloatText F) (s : State) (r : AuditedRequest) : State :=
  (handler fl r.dev s (r.kind.type :: r.body)).2

/-- The decisions of a run. -/
def decisions (fl : FloatText F) : State → List AuditedRequest → List Decision
  | _, [] => []
  | s, r :: rs => (r.decision s).toList ++ decisions fl (serveRequest fl s r) rs

/-- The line of a decision, with its end. -/
def Decision.record (d : Decision) : List UInt8 :=
  auditLine d.time d.module d.action d.result ++ ascii "\n"

theorem auditFile_withPermission (s : State) (r : AuditedRequest) {bad unknown : List UInt8}
    {act : List UInt8 → List UInt8 → Permission → Reply}
    (hact : ∀ mod permName perm, (act mod permName perm).2.auditFile =
      s.auditFile ++ (r.judge s mod permName perm).record) :
    (withPermission s r.body bad unknown act).2.auditFile =
      s.auditFile ++ (r.decision s).toList.flatMap Decision.record := by
  rw [withPermission, AuditedRequest.decision]
  cases splitColon r.body with
  | none => simp
  | some p =>
    cases hperm : permissionFromName p.2 with
    | none => simp [hperm]
    | some perm => simp [hperm, hact]

/-- A request appends the line of its decision. -/
theorem auditFile_serveRequest (fl : FloatText F) (s : State) {r : AuditedRequest}
    (hr : r.dev.logWritable = true) : (serveRequest fl s r).auditFile =
      s.auditFile ++ (r.decision s).toList.flatMap Decision.record := by
  obtain ⟨dev, kind, body⟩ := r
  have hlog : ∀ mod action ok, auditLog dev mod action ok s.auditFile =
      s.auditFile ++ Decision.record ⟨dev.now, mod, action, ok⟩ := by
    intro mod action ok
    rw [auditLog, if_pos hr, List.append_assoc]
    rfl
  cases kind with
  | query => exact auditFile_withPermission s ⟨dev, .query, body⟩ fun _ _ _ => hlog ..
  | grant => exact auditFile_withPermission s ⟨dev, .grant, body⟩ fun _ _ _ => hlog ..
  | revoke => exact auditFile_withPermission s ⟨dev, .revoke, body⟩ fun _ _ _ => hlog ..

/-- The log of a run is made of the lines of its decisions. -/
theorem auditFile_run (fl : FloatText F) (s : State) {rs : List AuditedRequest}
    (hrs : ∀ r ∈ rs, r.dev.logWritable = true) : (Runs.run (serveRequest fl) s rs).auditFile =
      s.auditFile ++ (decisions fl s rs).flatMap Decision.record := by
  induction rs generalizing s with
  | nil => simp [decisions]
  | cons r rs ih =>
    obtain ⟨hr, hrs⟩ := List.forall_mem_cons.1 hrs
    rw [Runs.run_cons, ih _ hrs, auditFile_serveRequest fl s hr, decisions, List.flatMap_append,
      List.append_assoc]

/-! ### The text of a line -/

/-- The outcome as it is written. -/
def outcome (result : Bool) : List UInt8 := if result then ascii "ALLOW" else ascii "DENY"

/-- A line up to the id of the module. -/
def lineHead (t : Tm) : List UInt8 :=
  0x7B :: 0x22 :: (ascii "time" ++ 0x22 :: 0x3A :: 0x22 :: (nowIso t ++ 0x22 :: 0x2C :: 0x22 ::
    (ascii "module" ++ [0x22, 0x3A, 0x22])))

/-- A line behind the quote that should close the id of the module. -/
def lineTail (action : List UInt8) (result : Bool) : List UInt8 :=
  0x2C :: 0x22 :: (ascii "action" ++ 0x22 :: 0x3A :: 0x22 :: (action ++ 0x22 :: 0x2C :: 0x22 ::
    (ascii "result" ++ 0x22 :: 0x3A :: 0x22 :: (outcome result ++ [0x22, 0x7D]))))

theorem auditLine_eq (t : Tm) (module action : List UInt8) (result : Bool) :
    auditLine t module action result =
      lineHead t ++ (module ++ 0x22 :: lineTail action result) := by
  have htime : ascii "\x7b\"time\":\"" = 0x7B :: 0x22 :: (ascii "time" ++ [0x22, 0x3A, 0x22]) := by
    decide
  have hmodule : ascii "\",\"module\":\"" =
      0x22 :: 0x2C :: 0x22 :: (ascii "module" ++ [0x22, 0x3A, 0x22]) := by decide
  have haction : ascii "\",\"action\":\"" =
      0x22 :: 0x2C :: 0x22 :: (ascii "action" ++ [0x22, 0x3A, 0x22]) := by decide
  have hresult : ascii "\",\"result\":\"" =
      0x22 :: 0x2C :: 0x22 :: (ascii "result" ++ [0x22, 0x3A, 0x22]) := by decide
  have hend : ascii "\"\x7d" = [0x22, 0x7D] := by decide
  rw [auditLine, htime, hmodule, haction, hresult, hend]
  simp only [lineHead, lineTail, outcome, List.append_assoc, List.cons_append, List.nil_append]

theorem plainText_twoDigits (n : ℕ) : PlainText (twoDigits n) := by
  unfold twoDigits
  split
  · exact PlainText.append (by decide) (plainText_natDecimal n)
  · exact plainText_natDecimal n

theorem plainText_nowIso (t : Tm) : PlainText (nowIso t) := by
  have hnum := plainText_natDecimal t.year
  have htwo := plainText_twoDigits
  unfold nowIso
  exact ((((((((((hnum.append (by decide)).append (htwo _)).append (by decide)).append
    (htwo _)).append (by decide)).append (htwo _)).append (by decide)).append (htwo _)).append
    (by decide)).append (htwo _)).append (by decide)

theorem plainText_outcome (result : Bool) : PlainText (outcome result) := by
  cases result <;> decide

/-- The tokens in front of the id. -/
def headTokens (t : Tm) : List (Token F) :=
  [.beginObject, .string (ascii "time"), .nameSeparator, .string (nowIso t), .valueSeparator,
    .string (ascii "module"), .nameSeparator]

/-- The tokens behind the id. -/
def tailTokens (action : List UInt8) (result : Bool) : List (Token F) :=
  [.valueSeparator, .string (ascii "action"), .nameSeparator, .string action, .valueSeparator,
    .string (ascii "result"), .nameSeparator, .string (outcome result), .endObject]

section Line

variable (fl : FloatText F)

/-- In front of the id a string is open. -/
theorem scan_lineHead (t : Tm) (rest : List UInt8) : scan fl .idle (lineHead t ++ rest) =
    (scan fl (.string (.text []) []) rest).map (headTokens t ++ ·) := by
  have htime : PlainText (ascii "time") := by decide
  have hmodule : PlainText (ascii "module") := by decide
  simp only [lineHead, List.append_assoc, List.cons_append, List.nil_append]
  rw [scan_beginObject, scan_quoted fl htime, scan_nameSeparator,
    scan_quoted fl (plainText_nowIso t), scan_valueSeparator, scan_quoted fl hmodule,
    scan_nameSeparator, scan_open]
  simp only [Option.map_map]
  rfl

theorem scan_lineTail {action : List UInt8} (ha : PlainText action) (result : Bool) :
    scan fl .idle (lineTail action result) = some (tailTokens action result) := by
  have haction : PlainText (ascii "action") := by decide
  have hresult : PlainText (ascii "result") := by decide
  have hend : scan fl .idle [0x7D] = some [.endObject] := rfl
  rw [lineTail, scan_valueSeparator, scan_quoted fl haction, scan_nameSeparator,
    scan_quoted fl ha, scan_valueSeparator, scan_quoted fl hresult, scan_nameSeparator,
    scan_quoted fl (plainText_outcome result), hend]
  rfl

/-- Behind the id, a line can only close a string. -/
theorem ends_lineTail {action : List UInt8} (ha : PlainText action) (result : Bool) :
    Ends fl (0x22 :: lineTail action result) (tailTokens action result) := by
  have hcons : ∃ rest, lineTail action result = 0x2C :: 0x22 :: 0x61 :: rest := ⟨_, rfl⟩
  have htail := scan_lineTail fl ha result
  obtain ⟨rest, hrest⟩ := hcons
  rw [hrest] at htail ⊢
  exact ends_quotes rfl htail

end Line

/-! ### Actions -/

/-- The actions that the handler logs. -/
def IsAction (action : List UInt8) : Prop :=
  ∃ what ∈ ["", "GRANT:", "REVOKE:"], ∃ p ∈ allPermissions,
    action = ascii what ++ ascii (permissionName p)

theorem permissionFromName_eq {name : List UInt8} {p : Permission}
    (h : permissionFromName name = some p) : p ∈ allPermissions ∧ ascii (permissionName p) = name :=
  ⟨List.mem_of_find?_eq_some h, by simpa using List.find?_some h⟩

@[simp] theorem judge_module (r : AuditedRequest) (s : State) (mod permName : List UInt8)
    (perm : Permission) : (r.judge s mod permName perm).module = mod := by
  unfold AuditedRequest.judge
  split <;> rfl

/-- A decision is about the module of the body, and its action is one of the known ones. -/
theorem decision_eq_some {r : AuditedRequest} {s : State} {d : Decision}
    (h : r.decision s = some d) : IsAction d.action ∧ ∃ permName,
      splitColon r.body = some (d.module, permName) ∧ permissionFromName permName ≠ none := by
  simp only [AuditedRequest.decision, Option.bind_eq_bind, Option.bind_eq_some_iff] at h
  obtain ⟨⟨mod, permName⟩, hsplit, perm, hperm, h⟩ := h
  cases h
  obtain ⟨hmem, rfl⟩ := permissionFromName_eq hperm
  refine ⟨?_, ascii (permissionName perm), by rw [judge_module, hsplit], by rw [hperm]; simp⟩
  unfold AuditedRequest.judge
  split
  · exact ⟨"", by simp, perm, hmem, rfl⟩
  · exact ⟨"GRANT:", by simp, perm, hmem, rfl⟩
  · exact ⟨"REVOKE:", by simp, perm, hmem, rfl⟩

theorem IsAction.plain {action : List UInt8} (h : IsAction action) :
    PlainText action ∧ action ≠ ascii "module" := by
  have hall : (["", "GRANT:", "REVOKE:"].all fun what => allPermissions.all fun p =>
      decide (PlainText (ascii what ++ ascii (permissionName p)) ∧
        ascii what ++ ascii (permissionName p) ≠ ascii "module")) = true := by decide +kernel
  obtain ⟨what, hwhat, p, hp, rfl⟩ := h
  exact of_decide_eq_true (List.all_eq_true.1 (List.all_eq_true.1 hall what hwhat) p hp)

theorem IsAction.foreign {action : List UInt8} (h : IsAction action) (result : Bool) :
    Foreign (ascii "module") (tailTokens action result : List (Token F)) := by
  have hne : ascii "module" ≠ ascii "action" ∧ ascii "module" ≠ ascii "result" := by decide
  have hout : ascii "module" ≠ outcome result := by cases result <;> decide
  refine ⟨?_, fun t ht => (Option.some.inj ht).symm⟩
  simp [tailTokens, hne.1, hne.2, hout, h.plain.2.symm]

/-! ### Records -/

/-- An element of the array says what was decided. -/
def Records (v : Value F) (d : Decision) : Prop :=
  ∃ ms, v = .object ms ∧ find (ascii "module") ms = some (.string d.module) ∧
    find (ascii "action") ms = some (.string d.action) ∧
    find (ascii "result") ms = some (.string (outcome d.result))

/-- The array that `make_audit_array` prints for a log. -/
def auditArray (fl : FloatText F) (file : List UInt8) : List (Value F) :=
  ((getlines file).filter (· ≠ [])).map (auditElement fl)

section Records

variable (fl : FloatText F)

theorem auditArray_line {line : List UInt8} (hline : line ≠ []) (h : (0x0A : UInt8) ∉ line)
    (rest : List UInt8) :
    auditArray fl (line ++ 0x0A :: rest) = auditElement fl line :: auditArray fl rest := by
  simp [auditArray, getlines_line h, hline]

/-- A line that is no JSON text is no object either. -/
theorem parse_of_auditElement {fl : FloatText F} {line : List UInt8} {ms : Members F}
    (h : auditElement fl line = .object ms) : parse fl line = some (.object ms) := by
  unfold auditElement at h
  cases hv : parse fl line with
  | none =>
    rw [hv] at h
    cases h
  | some v =>
    rw [hv] at h
    exact congrArg some h

/-- The members of the object that a line with a plain id is read as. -/
def lineMembers (d : Decision) : Members F :=
  insert (ascii "result") (.string (outcome d.result))
    (insert (ascii "action") (.string d.action)
      (insert (ascii "module") (.string d.module)
        (insert (ascii "time") (.string (nowIso d.time)) [])))

theorem parse_line {d : Decision} (hmod : PlainText d.module) (ha : PlainText d.action) :
    parse fl (auditLine d.time d.module d.action d.result) = some (.object (lineMembers d)) := by
  have hbom : ∀ rest, skipBom (lineHead d.time ++ rest) = some (lineHead d.time ++ rest) :=
    fun rest => rfl
  rw [auditLine_eq, parse, hbom]
  simp only [Option.bind_eq_bind, Option.bind_some, scan_lineHead]
  rw [scan_plain fl hmod.2 hmod.1, scan_close, scan_lineTail fl ha]
  rfl

theorem records_lineMembers (d : Decision) : Records (.object (lineMembers d) : Value F) d := by
  refine ⟨lineMembers d, rfl, ?_, ?_, ?_⟩
  · rw [lineMembers, find_insert_of_ne (by decide), find_insert_of_ne (by decide),
      find_insert_self]
  · rw [lineMembers, find_insert_of_ne (by decide), find_insert_self]
  · rw [lineMembers, find_insert_self]

/-- The module stands behind the tokens that the head of a line has. -/
theorem leads_headTokens {t : Tm} {s : List UInt8} {toks : List (Token F)}
    (h : [.string (ascii "module"), .nameSeparator, .string s] <:+: headTokens t ++ toks) :
    Leads (ascii "module") s toks := by
  have hne : ascii "module" ≠ ascii "time" := by decide
  simp only [headTokens, List.cons_append, List.nil_append, List.infix_cons_iff,
    List.cons_prefix_cons, Token.string.injEq, reduceCtorEq, hne, false_and, and_false, true_and,
    false_or] at h
  rcases h with ⟨rest, rfl⟩ | hnear
  · exact .inl rfl
  · exact .inr hnear

/-- A line that is read as an object with the right module, or its beginning, is written with a
plain id. -/
theorem plainText_of_records {t : Tm} {b rest : List UInt8} {P : List (Token F)}
    (hends : Ends fl rest P) (hP : Foreign (ascii "module") P) {d : Decision}
    (hlen : b.length ≤ d.module.length)
    (h : Records (auditElement fl (lineHead t ++ (b ++ rest))) d) :
    b = d.module ∧ PlainText d.module := by
  obtain ⟨ms, hms, hmod, -⟩ := h
  obtain ⟨toks, htoks, hnear⟩ := infix_of_parse rfl (parse_of_auditElement hms) hmod
  rw [scan_lineHead] at htoks
  obtain ⟨toks, hopen, rfl⟩ := Option.map_eq_some_iff.1 htoks
  -- the module is found in the tokens, and nothing in front of the id can be it
  exact plainText_of_scan hends hP hlen hopen (leads_headTokens hnear)

theorem not_mem_plainText {s : List UInt8} (hs : PlainText s) : (0x0A : UInt8) ∉ s :=
  fun h => absurd (hs.2 _ h).1 (by decide)

theorem not_mem_lineHead (t : Tm) : (0x0A : UInt8) ∉ lineHead t := by
  have htime : (0x0A : UInt8) ∉ ascii "time" := by decide
  have hmodule : (0x0A : UInt8) ∉ ascii "module" := by decide
  simp [lineHead, htime, hmodule, not_mem_plainText (plainText_nowIso t)]

theorem not_mem_lineTail {action : List UInt8} (ha : PlainText action) (result : Bool) :
    (0x0A : UInt8) ∉ lineTail action result := by
  have haction : (0x0A : UInt8) ∉ ascii "action" := by decide
  have hresult : (0x0A : UInt8) ∉ ascii "result" := by decide
  simp [lineTail, haction, hresult, not_mem_plainText ha,
    not_mem_plainText (plainText_outcome result)]

/-- An id without a newline leaves the line whole. -/
theorem auditArray_record {d : Decision} (hd : IsAction d.action)
    (hmod : (0x0A : UInt8) ∉ d.module) (rest : List UInt8) :
    auditArray fl (d.record ++ rest) =
      auditElement fl (auditLine d.time d.module d.action d.result) :: auditArray fl rest := by
  have hn : ascii "\n" = [0x0A] := by decide
  have hline : (0x0A : UInt8) ∉ auditLine d.time d.module d.action d.result := by
    simp [auditLine_eq, not_mem_lineHead, hmod, not_mem_lineTail hd.plain.1]
  rw [Decision.record, hn, List.append_assoc, List.singleton_append]
  refine auditArray_line fl ?_ hline rest
  rw [auditLine_eq]
  exact List.cons_ne_nil _ _

/-- If the log begins with the record of a decision, the id is plain. -/
theorem plainText_of_forall₂ {d : Decision} (hd : IsAction d.action) {rest : List UInt8}
    {ds : List Decision} (h : List.Forall₂ Records (auditArray fl (d.record ++ rest)) (d :: ds)) :
    PlainText d.module := by
  by_cases hmod : (0x0A : UInt8) ∈ d.module
  · -- the first line ends inside the id
    obtain ⟨b, l, hl, hb⟩ := List.eq_append_cons_of_mem hmod
    have hrecord : d.record ++ rest = (lineHead d.time ++ (b ++ [])) ++ 0x0A :: (l ++ 0x22 ::
        (lineTail d.action d.result ++ (ascii "\n" ++ rest))) := by
      rw [Decision.record, auditLine_eq, hl]
      simp
    have hline : (0x0A : UInt8) ∉ lineHead d.time ++ (b ++ []) := by
      simp [not_mem_lineHead, hb]
    have hne : lineHead d.time ++ (b ++ []) ≠ [] := List.cons_ne_nil _ _
    rw [hrecord, auditArray_line fl hne hline] at h
    refine (plainText_of_records fl (ends_nil fl) ?_ ?_ (List.forall₂_cons.1 h).1).2
    · exact ⟨List.not_mem_nil, fun t ht => by cases ht⟩
    · rw [hl, List.length_append]
      omega
  · rw [auditArray_record fl hd hmod, auditLine_eq] at h
    exact (plainText_of_records fl (ends_lineTail fl hd.plain.1 d.result) (hd.foreign d.result)
      (Nat.le_refl _) (List.forall₂_cons.1 h).1).2

/-- **A log records its decisions exactly when every id is plain.** -/
theorem forall₂_records_iff {ds : List Decision} (hds : ∀ d ∈ ds, IsAction d.action) :
    List.Forall₂ Records (auditArray fl (ds.flatMap Decision.record)) ds ↔
      ∀ d ∈ ds, PlainText d.module := by
  induction ds with
  | nil => exact iff_of_true .nil fun _ h => absurd h List.not_mem_nil
  | cons d ds ih =>
    obtain ⟨hd, hds⟩ := List.forall_mem_cons.1 hds
    have hrecord : PlainText d.module →
        auditArray fl (d.record ++ ds.flatMap Decision.record) =
          .object (lineMembers d) :: auditArray fl (ds.flatMap Decision.record) := by
      intro hmod
      rw [auditArray_record fl hd (not_mem_plainText hmod), auditElement,
        parse_line fl hmod hd.plain.1]
      rfl
    rw [List.flatMap_cons, List.forall_mem_cons, ← ih hds]
    constructor
    · intro h
      have hmod := plainText_of_forall₂ fl hd h
      -- now the first line is known, and the rest is the log of the other decisions
      rw [hrecord hmod] at h
      exact ⟨hmod, (List.forall₂_cons.1 h).2⟩
    · rintro ⟨hmod, h⟩
      rw [hrecord hmod]
      exact .cons (records_lineMembers d) h

end Records

/-! ### Runs -/

/-- A request whose body names a known permission names it behind a plain id. -/
def AuditedRequest.Plain (r : AuditedRequest) : Prop :=
  ∀ mod permName, splitColon r.body = some (mod, permName) → permissionFromName permName ≠ none →
    PlainText mod

theorem decision_plain_iff (r : AuditedRequest) (s : State) :
    (∀ d ∈ (r.decision s).toList, PlainText d.module) ↔ r.Plain := by
  constructor
  · intro h mod permName hsplit hknown
    obtain ⟨perm, hperm⟩ := Option.ne_none_iff_exists'.1 hknown
    have hd : r.decision s = some (r.judge s mod permName perm) := by
      simp [AuditedRequest.decision, hsplit, hperm]
    have hmod := h (r.judge s mod permName perm) (by simp [hd])
    rwa [judge_module] at hmod
  · intro h d hd
    obtain ⟨-, permName, hsplit, hknown⟩ := decision_eq_some (Option.mem_toList.1 hd)
    exact h d.module permName hsplit hknown

theorem decisions_plain_iff (fl : FloatText F) (s : State) (rs : List AuditedRequest) :
    (∀ d ∈ decisions fl s rs, PlainText d.module) ↔ ∀ r ∈ rs, r.Plain := by
  induction rs generalizing s with
  | nil => simp [decisions]
  | cons r rs ih =>
    rw [decisions, List.forall_mem_append, ih, decision_plain_iff, List.forall_mem_cons]

theorem isAction_decisions (fl : FloatText F) (s : State) (rs : List AuditedRequest) :
    ∀ d ∈ decisions fl s rs, IsAction d.action := by
  induction rs generalizing s with
  | nil => exact fun _ h => absurd h List.not_mem_nil
  | cons r rs ih =>
    rw [decisions]
    refine List.forall_mem_append.2 ⟨fun d hd => ?_, ih _⟩
    exact (decision_eq_some (Option.mem_toList.1 hd)).1

/-- The answer to `GetAuditLog` is an array whose elements are the records of the decisions. -/
def Faithful (fl : FloatText F) (dev : Device) (s : State) (body : List UInt8)
    (ds : List Decision) : Prop :=
  ∃ text, (handler fl dev s (0x0F :: body)).1 = some (0x0F :: text) ∧
    dump fl (.array (auditArray fl s.auditFile)) = some text ∧
    List.Forall₂ Records (auditArray fl s.auditFile) ds

theorem getAuditLog_eq (fl : FloatText F) (dev : Device) (s : State) (body : List UInt8) :
    (handler fl dev s (0x0F :: body)).1 =
      (dump fl (.array (auditArray fl s.auditFile))).map (0x0F :: ·) := by
  show (handleGetAuditLog fl s).1.map (0x0F :: ·) = _
  rw [handleGetAuditLog, makeAuditArray, getlines_flatMap (not_mem_getlines s.auditFile)]
  rfl

/-- An array of records can be printed. -/
theorem faithful_iff (fl : FloatText F) (dev : Device) (s : State) (body : List UInt8)
    (ds : List Decision) :
    Faithful fl dev s body ds ↔ List.Forall₂ Records (auditArray fl s.auditFile) ds := by
  refine ⟨fun ⟨_, _, _, h⟩ => h, fun h => ?_⟩
  have hobject : ∀ v ∈ auditArray fl s.auditFile, ∃ ms, v = .object ms := by
    refine ((List.forall₂_and_left (R := Records) _ _).1 (h.imp fun v d hvd => ?_)).1
    obtain ⟨ms, hms, hfields⟩ := hvd
    exact ⟨⟨ms, hms⟩, ms, hms, hfields⟩
  have hclean : Clean (.array (auditArray fl s.auditFile)) := by
    refine clean_array_iff.2 fun v hv => ?_
    obtain ⟨ms, rfl⟩ := hobject v hv
    obtain ⟨line, -, hline⟩ := List.mem_map.1 hv
    exact clean_parse (parse_of_auditElement hline)
  obtain ⟨text, htext, -⟩ := (printed_dump_iff fl _).2 hclean
  exact ⟨text, by rw [getAuditLog_eq, htext]; rfl, htext, h⟩

/-- **After requests about permissions, `GetAuditLog` reports every decision exactly when the ids
are plain.** -/
theorem auditFidelity_iff (fl : FloatText F) (s : State) (hs : s.auditFile = [])
    (rs : List AuditedRequest) (hrs : ∀ r ∈ rs, r.dev.logWritable = true) (dev : Device)
    (body : List UInt8) :
    Faithful fl dev (Runs.run (serveRequest fl) s rs) body (decisions fl s rs) ↔
      ∀ r ∈ rs, r.Plain := by
  rw [faithful_iff, auditFile_run fl s hrs, hs, List.nil_append,
    forall₂_records_iff fl (isAction_decisions fl s rs), decisions_plain_iff]

/-- Two requests about a module. -/
def plainRequests : List AuditedRequest :=
  [⟨sampleDevice, .query, ascii "com.test.mod:MOUNT"⟩,
    ⟨sampleDevice, .grant, ascii "com.test.mod:MOUNT"⟩]

/-- A denied query and a grant are both reported. -/
theorem faithful_plainRequests :
    (decisions noFloats sampleState plainRequests).map Decision.result = [false, true] ∧
      (∀ r ∈ plainRequests, r.Plain) ∧
      Faithful noFloats sampleDevice (Runs.run (serveRequest noFloats) sampleState plainRequests) []
        (decisions noFloats sampleState plainRequests) := by
  have hsplit : splitColon (ascii "com.test.mod:MOUNT") =
      some (ascii "com.test.mod", ascii "MOUNT") := by decide
  have hmod : PlainText (ascii "com.test.mod") := by decide
  have hplain : ∀ r ∈ plainRequests, r.Plain := by
    intro r hr mod permName hbody _
    have hr' : r.body = ascii "com.test.mod:MOUNT" := by
      rcases List.mem_pair.1 hr with rfl | rfl
      · rfl
      · rfl
    rw [hr', hsplit] at hbody
    cases hbody
    exact hmod
  have hwritable : ∀ r ∈ plainRequests, r.dev.logWritable = true := by
    intro r hr
    rcases List.mem_pair.1 hr with rfl | rfl
    · rfl
    · rfl
  exact ⟨by decide +kernel, hplain, (auditFidelity_iff noFloats sampleState rfl plainRequests
    hwritable sampleDevice []).2 hplain⟩

/-- A query about a module whose id has a quote in it. -/
def quoteRequest : AuditedRequest := ⟨sampleDevice, .query, ascii "a\"b:MOUNT"⟩

/-- The quote ends the id, and the line is no object any more. -/
theorem not_faithful_quoteRequest :
    (decisions noFloats sampleState [quoteRequest]).map Decision.module = [ascii "a\"b"] ∧
      ¬ Faithful noFloats sampleDevice
        (Runs.run (serveRequest noFloats) sampleState [quoteRequest]) []
        (decisions noFloats sampleState [quoteRequest]) := by
  have hmodule : (decisions noFloats sampleState [quoteRequest]).map Decision.module =
      [ascii "a\"b"] := by decide +kernel
  have hwritable : ∀ r ∈ [quoteRequest], r.dev.logWritable = true :=
    List.forall_mem_singleton.2 rfl
  refine ⟨hmodule, fun h => ?_⟩
  rw [faithful_iff, auditFile_run noFloats sampleState hwritable] at h
  have hplain := (forall₂_records_iff noFloats (isAction_decisions noFloats sampleState _)).1 h
  have hmap : ∀ m ∈ (decisions noFloats sampleState [quoteRequest]).map Decision.module,
      PlainText m := List.forall_mem_map.2 hplain
  rw [hmodule, List.forall_mem_singleton] at hmap
  exact absurd hmap (by decide)

end AstraVeil.Daemon
