import AstraVeil.Lib.KotlinString

/-!
# Listing the modules of a root backend

`listModules` of `KernelSUProvider.kt` and `APatchProvider.kt`, which are the same text.  A script
prints a line `id|name|version|author|description|enabled` for every module directory, with what
`module.prop` says; Kotlin cuts the line at its first five bars.  Nothing escapes a bar in a field.

* `listModules_scriptOutput`: every module gives one `ModuleInfo`, in order;
* `shows_infoOf_iff`: when it is the right one;
* `listModules_round_trip_iff`: for which lists of modules the listing is right.
-/

namespace AstraVeil.Providers

open Utf16 KotlinString

/-! ### The script -/

/-- A module directory: the values in its `module.prop`, single lines without blanks around them,
and whether it has a file `disable`. -/
structure ModuleProp where
  id : JString
  name : JString
  version : JString
  author : JString
  description : JString
  disabled : Bool
  plain : ∀ s ∈ [id, name, version, author, description], SingleLine s ∧ trim s = s

/-- The bar between two fields. -/
def bar : UInt16 := 0x7C

/-- `enabled`. -/
def enabledText (disabled : Bool) : JString := ofString (if disabled then "false" else "true")

/-- What the script prints for a module. -/
def printedLine (m : ModuleProp) : JString :=
  m.id ++ bar :: (m.name ++ bar :: (m.version ++ bar :: (m.author ++ bar ::
    (m.description ++ bar :: enabledText m.disabled))))

/-- What the script prints. -/
def scriptOutput (modules : List ModuleProp) : JString :=
  modules.flatMap fun m => printedLine m ++ [0x0A]

/-! ### `listModules` -/

/-- `ModuleUiState`. -/
inductive ModuleUiState
  | installed
  | running
  | stopped
  | failed
  deriving DecidableEq

/-- `ModulePermissionInfo`. -/
structure ModulePermissionInfo where
  capability : JString
  risk : ℤ
  reason : JString

/-- `ModuleInfo`. -/
structure ModuleInfo where
  id : JString
  name : JString
  version : JString
  description : JString
  state : ModuleUiState
  permissions : List ModulePermissionInfo

/-- The fields of `ProviderExecResult` that are read. -/
structure ProviderExecResult where
  stdout : JString
  success : Bool

/-- The module of a line. -/
def moduleOfLine (line : JString) : Option ModuleInfo :=
  match splitLimit bar 5 line with
  | [p0, p1, p2, _, p4, p5] =>
      some { id := trim p0, name := trim p1, version := trim p2, description := trim p4
             state := if trim p5 = ofString "true" then .running else .stopped
             permissions := [] }
  | _ => none

/-- `listModules`, with what `available()` answers and what `execute(script)` returns. -/
def listModules (available : Bool) (result : ProviderExecResult) : List ModuleInfo :=
  if !available then []
  else if !result.success then []
  else
    (((lines result.stdout).map trim).filter fun line =>
      !line.isEmpty && line.contains bar).filterMap moduleOfLine

/-- `KernelSUProvider.listModules`. -/
def KernelSUProvider.listModules (available : Bool) (result : ProviderExecResult) :
    List ModuleInfo :=
  Providers.listModules available result

/-- `APatchProvider.listModules`. -/
def APatchProvider.listModules (available : Bool) (result : ProviderExecResult) :
    List ModuleInfo :=
  Providers.listModules available result

/-! ### What is expected -/

/-- The listed module is this one. -/
def Shows (m : ModuleProp) (info : ModuleInfo) : Prop :=
  info.id = m.id ∧ info.name = m.name ∧ info.version = m.version ∧
    info.description = m.description ∧ (info.state = .running ↔ m.disabled = false)

/-- The bars in a module's fields do no harm: there are none in front of the author, and none in
author and description either, unless the author has one, the module is disabled, and what stands
in the author behind its first bar, up to the next, is the description. -/
def FieldsKept (m : ModuleProp) : Prop :=
  bar ∉ m.id ∧ bar ∉ m.name ∧ bar ∉ m.version ∧
    (bar ∉ m.author ∧ bar ∉ m.description ∨
      ∃ a r, m.author = a ++ bar :: r ∧ bar ∉ a ∧ m.disabled = true ∧
        trim (r.takeWhile (· ≠ bar)) = m.description)

/-- A listing shows the modules, one for one and in order. -/
def RoundTrip (list : Bool → ProviderExecResult → List ModuleInfo) (modules : List ModuleProp) :
    Prop :=
  List.Forall₂ Shows modules (list true ⟨scriptOutput modules, true⟩)

/-! ### Lines -/

theorem isWhitespace_bar : isWhitespace bar = false := by decide

theorem enabledText_eq (disabled : Bool) : ∃ t, enabledText disabled = t ++ [0x65] ∧
    SingleLine (enabledText disabled) ∧ bar ∉ enabledText disabled ∧
    (trim (enabledText disabled) = ofString "true" ↔ disabled = false) := by
  cases disabled with
  | true => exact ⟨ofString "fals", by decide, by decide, by decide, by decide⟩
  | false => exact ⟨ofString "tru", by decide, by decide, by decide, by decide⟩

theorem ModuleProp.fields (m : ModuleProp) :
    (SingleLine m.id ∧ trim m.id = m.id) ∧ (SingleLine m.name ∧ trim m.name = m.name) ∧
      (SingleLine m.version ∧ trim m.version = m.version) ∧
      (SingleLine m.author ∧ trim m.author = m.author) ∧
      (SingleLine m.description ∧ trim m.description = m.description) := by
  simpa using m.plain

theorem singleLine_printedLine (m : ModuleProp) : SingleLine (printedLine m) := by
  obtain ⟨hid, hname, hversion, hauthor, hdescription⟩ := m.fields
  obtain ⟨-, -, henabled, -⟩ := enabledText_eq m.disabled
  have hbar : bar ≠ 0x0A ∧ bar ≠ 0x0D := by decide
  simp only [printedLine, singleLine_append, singleLine_cons]
  exact ⟨hid.1, hbar, hname.1, hbar, hversion.1, hbar, hauthor.1, hbar, hdescription.1, hbar,
    henabled⟩

theorem trim_printedLine (m : ModuleProp) : trim (printedLine m) = printedLine m := by
  obtain ⟨t, ht, -⟩ := enabledText_eq m.disabled
  have hline : printedLine m = m.id ++ bar :: ((m.name ++ bar :: (m.version ++ bar ::
      (m.author ++ bar :: (m.description ++ bar :: t)))) ++ [0x65]) := by
    rw [printedLine, ht]
    simp
  rw [hline]
  exact trim_ends m.fields.1.2 isWhitespace_bar (by decide) _

theorem lines_scriptOutput (modules : List ModuleProp) :
    lines (scriptOutput modules) = modules.map printedLine ++ [[]] := by
  induction modules with
  | nil => rfl
  | cons m modules ih =>
    have hcons : scriptOutput (m :: modules) = printedLine m ++ 0x0A :: scriptOutput modules := by
      simp [scriptOutput]
    rw [hcons, lines_append (singleLine_printedLine m), ih]
    rfl

/-- The module that six parts stand for. -/
def infoOfParts (p0 p1 p2 p4 p5 : JString) : ModuleInfo :=
  { id := trim p0, name := trim p1, version := trim p2, description := trim p4
    state := if trim p5 = ofString "true" then .running else .stopped
    permissions := [] }

theorem moduleOfLine_of_split {line p0 p1 p2 p3 p4 p5 : JString}
    (h : splitLimit bar 5 line = [p0, p1, p2, p3, p4, p5]) :
    moduleOfLine line = some (infoOfParts p0 p1 p2 p4 p5) := by
  rw [moduleOfLine, h]
  rfl

/-- A printed line has six parts, whatever the fields are. -/
theorem exists_split (m : ModuleProp) :
    ∃ p0 p1 p2 p3 p4 p5, splitLimit bar 5 (printedLine m) = [p0, p1, p2, p3, p4, p5] := by
  have hlen : (splitLimit bar 5 (printedLine m)).length = 6 := by
    refine length_splitLimit ?_
    simp only [printedLine, List.count_append, List.count_cons_self]
    omega
  match hsplit : splitLimit bar 5 (printedLine m), hlen with
  | [p0, p1, p2, p3, p4, p5], _ => exact ⟨p0, p1, p2, p3, p4, p5, rfl⟩

theorem bar_mem_printedLine (m : ModuleProp) : bar ∈ printedLine m := by
  simp [printedLine]

theorem exists_moduleOfLine (m : ModuleProp) :
    ∃ info, moduleOfLine (printedLine m) = some info := by
  obtain ⟨p0, p1, p2, p3, p4, p5, h⟩ := exists_split m
  exact ⟨_, moduleOfLine_of_split h⟩

/-- The lines that are kept are those of the modules. -/
theorem listModules_scriptOutput (modules : List ModuleProp) :
    listModules true ⟨scriptOutput modules, true⟩ =
      modules.filterMap fun m => moduleOfLine (printedLine m) := by
  have hmap : (modules.map printedLine).map trim = modules.map printedLine := by
    rw [List.map_map]
    exact List.map_congr_left fun m _ => trim_printedLine m
  have hkeep : (modules.map printedLine).filter (fun line => !line.isEmpty && line.contains bar) =
      modules.map printedLine := by
    refine List.filter_eq_self.2 (List.forall_mem_map.2 fun m _ => ?_)
    have hbar := bar_mem_printedLine m
    have hne : printedLine m ≠ [] := List.ne_nil_of_mem hbar
    simp [hbar, hne]
  rw [listModules, lines_scriptOutput, List.map_append, hmap, List.filter_append, hkeep,
    List.filterMap_append, List.filterMap_map]
  exact List.append_nil _

/-! ### Fields -/

/-- Cutting a field off: it is the first part exactly when it has no bar. -/
theorem first_part_iff {x y p : JString} {ps : List JString} {n : ℕ} (hx : trim x = x)
    (h : splitLimit bar (n + 1) (x ++ bar :: y) = p :: ps) :
    trim p = x ↔ bar ∉ x ∧ p = x ∧ splitLimit bar n y = ps := by
  constructor
  · intro hp
    obtain ⟨ps', hps⟩ := splitLimit_head bar n x y
    rw [hps, List.cons.injEq] at h
    rw [← h.1] at hp
    have hbar := not_mem_of_trim_takeWhile hp
    rw [splitLimit_append hbar, List.cons.injEq] at hps
    exact ⟨hbar, h.1.symm.trans hps.1.symm, hps.2.trans h.2⟩
  · rintro ⟨-, rfl, -⟩
    exact hx

/-- Of two bars one is left in the last part. -/
theorem bar_mem_last_part {x y z p q : JString}
    (h : splitLimit bar 1 (x ++ bar :: (y ++ bar :: z)) = [p, q]) : bar ∈ q := by
  by_cases hx : bar ∈ x
  · obtain ⟨a, r, rfl, ha⟩ := List.eq_append_cons_of_mem hx
    rw [List.append_assoc, List.cons_append, splitLimit_append ha, splitLimit] at h
    cases h
    simp
  · rw [splitLimit_append hx, splitLimit] at h
    cases h
    simp

/-- A text is cut at its first bar in one way only. -/
theorem cut_unique {a a' r r' : JString} (ha : bar ∉ a) (ha' : bar ∉ a')
    (h : a ++ bar :: r = a' ++ bar :: r') : a = a' ∧ r = r' := by
  have hfirst := takeWhile_append_sep ha r
  rw [h, takeWhile_append_sep ha'] at hfirst
  subst hfirst
  exact ⟨rfl, (List.cons.inj (List.append_cancel_left h)).2⟩

/-- The author, the description and the flag, cut at two bars. -/
theorem last_parts_iff {m : ModuleProp} {p3 p4 p5 : JString}
    (h : splitLimit bar 2 (m.author ++ bar :: (m.description ++ bar :: enabledText m.disabled)) =
      [p3, p4, p5]) :
    (trim p4 = m.description ∧ (trim p5 = ofString "true" ↔ m.disabled = false)) ↔
      (bar ∉ m.author ∧ bar ∉ m.description ∨
        ∃ a r, m.author = a ++ bar :: r ∧ bar ∉ a ∧ m.disabled = true ∧
          trim (r.takeWhile (· ≠ bar)) = m.description) := by
  obtain ⟨-, -, -, hauthor, hdescription⟩ := m.fields
  obtain ⟨-, -, -, -, henabled⟩ := enabledText_eq m.disabled
  have htrue : bar ∉ ofString "true" := by decide
  by_cases hbar : bar ∈ m.author
  · obtain ⟨a, r, har, ha⟩ := List.eq_append_cons_of_mem hbar
    rw [har, List.append_assoc, List.cons_append, splitLimit_append ha, List.cons.injEq] at h
    obtain ⟨ps, hps⟩ := splitLimit_head bar 0 r (m.description ++ bar :: enabledText m.disabled)
    have hmem := bar_mem_last_part h.2
    rw [hps, List.cons.injEq] at h
    obtain ⟨-, rfl, -⟩ := h
    -- the flag is no longer a part of its own
    have hflag : trim p5 ≠ ofString "true" := fun hp =>
      htrue (hp ▸ (mem_trim isWhitespace_bar).2 hmem)
    constructor
    · rintro ⟨hp4, hstate⟩
      refine Or.inr ⟨a, r, har, ha, ?_, hp4⟩
      exact Bool.eq_true_of_not_eq_false fun hd => hflag (hstate.2 hd)
    · rintro (⟨hno, -⟩ | ⟨a', r', har', ha', hdisabled, hp4⟩)
      · exact absurd hbar hno
      · obtain ⟨-, rfl⟩ := cut_unique ha ha' (har.symm.trans har')
        exact ⟨hp4, iff_of_false hflag (by simp [hdisabled])⟩
  · rw [splitLimit_append hbar, List.cons.injEq] at h
    have hfirst := first_part_iff hdescription.2 h.2
    constructor
    · rintro ⟨hp4, -⟩
      exact Or.inl ⟨hbar, (hfirst.1 hp4).1⟩
    · rintro (⟨-, hno⟩ | ⟨a, r, har, -⟩)
      · have hparts := h.2
        rw [splitLimit_append hno, splitLimit] at hparts
        cases hparts
        exact ⟨hdescription.2, henabled⟩
      · exact absurd (by simp [har]) hbar

theorem state_infoOfParts {p0 p1 p2 p4 p5 : JString} :
    (infoOfParts p0 p1 p2 p4 p5).state = .running ↔ trim p5 = ofString "true" := by
  simp [infoOfParts]

/-- When the module that is listed for a line is the one that was printed. -/
theorem shows_infoOf_iff {m : ModuleProp} {info : ModuleInfo}
    (h : moduleOfLine (printedLine m) = some info) : Shows m info ↔ FieldsKept m := by
  obtain ⟨p0, p1, p2, p3, p4, p5, hsplit⟩ := exists_split m
  rw [moduleOfLine_of_split hsplit] at h
  obtain rfl := Option.some.inj h
  obtain ⟨hid, hname, hversion, -, -⟩ := m.fields
  rw [Shows, FieldsKept, state_infoOfParts]
  change trim p0 = m.id ∧ trim p1 = m.name ∧ trim p2 = m.version ∧ _ ↔ _
  constructor
  · rintro ⟨h0, h1, h2, hlast⟩
    obtain ⟨hbar0, -, hrest⟩ := (first_part_iff hid.2 hsplit).1 h0
    obtain ⟨hbar1, -, hrest⟩ := (first_part_iff hname.2 hrest).1 h1
    obtain ⟨hbar2, -, hrest⟩ := (first_part_iff hversion.2 hrest).1 h2
    exact ⟨hbar0, hbar1, hbar2, (last_parts_iff hrest).1 hlast⟩
  · rintro ⟨hbar0, hbar1, hbar2, hlast⟩
    rw [printedLine, splitLimit_append hbar0, splitLimit_append hbar1,
      splitLimit_append hbar2] at hsplit
    simp only [List.cons.injEq] at hsplit
    obtain ⟨rfl, rfl, rfl, hrest⟩ := hsplit
    exact ⟨hid.2, hname.2, hversion.2, (last_parts_iff (by simpa using hrest)).2 hlast⟩

theorem roundTrip_iff (modules : List ModuleProp) :
    RoundTrip listModules modules ↔ ∀ m ∈ modules, FieldsKept m := by
  rw [RoundTrip, listModules_scriptOutput]
  induction modules with
  | nil => simp
  | cons m modules ih =>
    obtain ⟨info, hinfo⟩ := exists_moduleOfLine m
    rw [List.filterMap_cons, hinfo, List.forall₂_cons, ih, shows_infoOf_iff hinfo,
      List.forall_mem_cons]

/-- **When the listing is right**: for the lists of modules whose bars do no harm, with either
backend. -/
theorem listModules_round_trip_iff (modules : List ModuleProp) :
    (RoundTrip KernelSUProvider.listModules modules ↔ ∀ m ∈ modules, FieldsKept m) ∧
      (RoundTrip APatchProvider.listModules modules ↔ ∀ m ∈ modules, FieldsKept m) :=
  ⟨roundTrip_iff modules, roundTrip_iff modules⟩

/-- An enabled module with a bar in its description. -/
def sampleModule : ModuleProp where
  id := ofString "m"
  name := ofString "M"
  version := ofString "1"
  author := ofString "A"
  description := ofString "a|b"
  disabled := false
  plain := by decide

/-- It is listed as stopped, with half of its description. -/
theorem not_roundTrip_sample :
    (listModules true ⟨scriptOutput [sampleModule], true⟩).map (fun info =>
      (info.description, info.state)) = [(ofString "a", ModuleUiState.stopped)] ∧
    ¬ ∀ modules, RoundTrip KernelSUProvider.listModules modules := by
  refine ⟨by decide, fun h => ?_⟩
  obtain ⟨-, -, -, hkept⟩ := (roundTrip_iff [sampleModule]).1 (h [sampleModule]) sampleModule
    (List.mem_singleton.2 rfl)
  rcases hkept with ⟨-, hdescription⟩ | ⟨a, r, -, -, hdisabled, -⟩
  · exact hdescription (by decide)
  · cases hdisabled

end AstraVeil.Providers
