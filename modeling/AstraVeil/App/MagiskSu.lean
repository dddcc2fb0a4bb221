import AstraVeil.Lib.KotlinNumbers

/-!
# Lockdown of Magisk's policies

`app/su/MagiskSuRepository.kt`: the table `policies` of Magisk is read through the rows that
`magisk --sqlite` prints and written by `INSERT OR REPLACE`.  `lockdown` denies all apps and returns
a snapshot, `restorePolicies` writes the snapshot back.  Every write succeeds.

* `Table`, `printRow`: the table, and its rows as text;
* `listPolicies_eq`: the entries read, row by row;
* `snapshot_plain`, `snapshot_deny`: what is kept of a row;
* `reversible_iff`: for which tables lockdown and restore leave everything as it was.
-/

namespace AstraVeil.App.MagiskSu

open Utf16 KotlinString

/-- `SuPolicy`. -/
inductive SuPolicy
  | deny
  | ask
  | allow
  deriving DecidableEq

/-- `SuPolicy.value`. -/
def SuPolicy.value : SuPolicy → Int32
  | .deny => 0
  | .ask => 1
  | .allow => 2

/-- The columns of the table besides the key. -/
structure Columns where
  packageName : JString
  policy : Int64
  untilTime : Int64
  logging : Int64
  notification : Int64
  deriving DecidableEq

/-- The table as a map from the key `uid`. -/
abbrev Policies := Int64 → Option Columns

/-- The table with its rows `ORDER BY uid`. -/
structure Table where
  rows : List (Int64 × Columns)
  sorted : rows.Pairwise fun a b => a.1 < b.1

/-- The map of the table. -/
def Table.policies (t : Table) : Policies := fun uid => t.rows.lookup uid

/-! ### What `magisk --sqlite` prints -/

/-- `key=value`. -/
def field (key : String) (value : JString) : JString := ofString key ++ 0x3D :: value

/-- The fields of a row, in the order of the `SELECT`. -/
def fieldsOf (row : Int64 × Columns) : List JString :=
  [field "uid" (decimal row.1.toInt), field "package_name" row.2.packageName,
    field "policy" (decimal row.2.policy.toInt), field "until" (decimal row.2.untilTime.toInt),
    field "logging" (decimal row.2.logging.toInt),
    field "notification" (decimal row.2.notification.toInt)]

/-- One row. -/
def printRow (row : Int64 × Columns) : JString := (ofString " | ").intercalate (fieldsOf row)

/-- The whole table. -/
def Table.stdout (t : Table) : JString := t.rows.flatMap fun row => printRow row ++ [0x0A]

/-! ### Reading it -/

/-- `SuPolicyEntry`. -/
structure SuPolicyEntry where
  uid : Int32
  packageName : JString
  policy : SuPolicy
  untilTime : Int64
  logging : Bool
  notification : Bool
  deriving DecidableEq

/-- `part.trim().split("=", limit = 2)`, if it has two elements. -/
def parsePart (part : JString) : Option (JString × JString) :=
  let t := trim part
  match t.idxOf? 0x3D with
  | some i => some (trim (t.take i), trim (t.drop (i + 1)))
  | none => none

/-- `parseMagiskRow`: the pairs from which the map is made. -/
def parseMagiskRow (line : JString) : List (JString × JString) :=
  (line.splitOn 0x7C).filterMap parsePart

/-- `row[key]`: of several pairs with the key the last one. -/
def get (row : List (JString × JString)) (key : String) : Option JString :=
  row.reverse.lookup (ofString key)

/-- The policy of a value, `ASK` where there is none. -/
def policyOf (value : Option JString) : SuPolicy :=
  match value.bind toIntOrNull with
  | some n => ([SuPolicy.deny, .ask, .allow].find? fun p => p.value == n).getD .ask
  | none => .ask

/-- The entry of a line. -/
def parseEntry (line : JString) : Option SuPolicyEntry :=
  if line.all isWhitespace then none
  else
    let row := parseMagiskRow line
    (get row "uid").bind toIntOrNull |>.bind fun uid =>
      (get row "package_name").map fun packageName =>
        { uid := uid
          packageName := packageName
          policy := policyOf (get row "policy")
          untilTime := ((get row "until").bind toLongOrNull).getD 0
          logging := get row "logging" == some (ofString "1")
          notification := get row "notification" == some (ofString "1") }

/-- `listPolicies`. -/
def listPolicies (t : Table) : List SuPolicyEntry := (lines (trim t.stdout)).filterMap parseEntry

/-! ### Writing -/

/-- `setPolicy`, with `logging` and `notification` at their defaults. -/
def setPolicy (policies : Policies) (uid : Int32) (packageName : JString) (policy : SuPolicy)
    (untilTime : Int64) : Policies :=
  Function.update policies uid.toInt64
    (some ⟨packageName, policy.value.toInt64, untilTime, 1, 1⟩)

/-- `PolicySnapshot`. -/
structure PolicySnapshot where
  uid : Int32
  packageName : JString
  policy : SuPolicy
  untilTime : Int64
  deriving DecidableEq

/-- The snapshot of the entries that are not denied. -/
def snapshot (entries : List SuPolicyEntry) : List PolicySnapshot :=
  (entries.filter fun entry => entry.policy != .deny).map fun entry =>
    ⟨entry.uid, entry.packageName, entry.policy, entry.untilTime⟩

/-- `lockdown`: the snapshot and the table behind it. -/
def lockdown (t : Table) : List PolicySnapshot × Policies :=
  let taken := snapshot (listPolicies t)
  (taken, taken.foldl (fun policies s => setPolicy policies s.uid s.packageName .deny 0) t.policies)

/-- `restorePolicies`. -/
def restorePolicies (policies : Policies) (taken : List PolicySnapshot) : Policies :=
  taken.foldl (fun policies s => setPolicy policies s.uid s.packageName s.policy s.untilTime)
    policies

/-- Lockdown denies everything, and restoring its snapshot gives the table back. -/
def Reversible (t : Table) : Prop :=
  (∀ uid columns, (lockdown t).2 uid = some columns → columns.policy = 0) ∧
    restorePolicies (lockdown t).2 (lockdown t).1 = t.policies

/-! ### The writes -/

/-- The row that restoring writes. -/
def restored (s : PolicySnapshot) : Columns :=
  ⟨s.packageName, s.policy.value.toInt64, s.untilTime, 1, 1⟩

/-- The last element for a uid: its write is the one that stays. -/
def lastFor (taken : List PolicySnapshot) (uid : Int64) : Option PolicySnapshot :=
  taken.reverse.find? fun s => s.uid.toInt64 == uid

theorem foldl_update (f : PolicySnapshot → Columns) (taken : List PolicySnapshot)
    (policies : Policies) (uid : Int64) :
    taken.foldl (fun (policies : Policies) s =>
        (Function.update policies s.uid.toInt64 (some (f s)) : Policies)) policies uid =
      ((lastFor taken uid).map f).or (policies uid) := by
  induction taken using List.reverseRecOn with
  | nil => rfl
  | append_singleton taken s ih =>
    rw [List.foldl_append, List.foldl_cons, List.foldl_nil, lastFor, List.reverse_append,
      List.reverse_singleton, List.singleton_append, List.find?_cons]
    by_cases h : s.uid.toInt64 = uid
    · subst h
      simp
    · rw [Function.update_of_ne (Ne.symm h), ih, beq_false_of_ne h]
      rfl

theorem lastFor_eq_some {taken : List PolicySnapshot} {uid : Int64} {s : PolicySnapshot} :
    lastFor taken uid = some s ↔ s.uid.toInt64 = uid ∧
      ∃ pre post, taken = pre ++ s :: post ∧ ∀ s' ∈ post, s'.uid.toInt64 ≠ uid := by
  rw [lastFor, List.find?_eq_some_iff_append, beq_iff_eq]
  refine and_congr_right fun _ => ?_
  constructor
  · rintro ⟨as, bs, heq, hne⟩
    refine ⟨bs.reverse, as.reverse, ?_, ?_⟩
    · rw [← List.reverse_reverse taken, heq]
      simp
    · intro s' hs'
      simpa using hne s' (List.mem_reverse.1 hs')
  · rintro ⟨pre, post, rfl, hne⟩
    refine ⟨post.reverse, pre.reverse, by simp, ?_⟩
    intro s' hs'
    simpa using hne s' (List.mem_reverse.1 hs')

theorem policies_eq_some {t : Table} {uid : Int64} {columns : Columns} :
    t.policies uid = some columns ↔ (uid, columns) ∈ t.rows := by
  rw [Table.policies, List.lookup_eq_some_iff]
  constructor
  · rintro ⟨pre, post, heq, -⟩
    rw [heq]
    exact List.mem_append_right _ List.mem_cons_self
  · intro hrow
    obtain ⟨pre, post, heq⟩ := List.append_of_mem hrow
    refine ⟨pre, post, heq, fun row hpre => ?_⟩
    have hsorted := t.sorted
    rw [heq, List.pairwise_append] at hsorted
    have hlt := hsorted.2.2 row hpre (uid, columns) List.mem_cons_self
    exact bne_iff_ne.2 (Int64.ne_of_lt hlt).symm

/-- Lockdown and restore in terms of the last element for each uid. -/
theorem reversible_iff_last (t : Table) : Reversible t ↔
    (∀ uid columns, (uid, columns) ∈ t.rows → columns.policy ≠ 0 →
      ∃ s, lastFor (lockdown t).1 uid = some s) ∧
    ∀ uid s, lastFor (lockdown t).1 uid = some s → t.policies uid = some (restored s) := by
  have hlock : ∀ uid, (lockdown t).2 uid = ((lastFor (lockdown t).1 uid).map fun s =>
      (⟨s.packageName, 0, 0, 1, 1⟩ : Columns)).or (t.policies uid) :=
    fun uid => foldl_update (fun s => ⟨s.packageName, 0, 0, 1, 1⟩) _ _ uid
  have hrestore : ∀ uid, restorePolicies (lockdown t).2 (lockdown t).1 uid =
      ((lastFor (lockdown t).1 uid).map restored).or ((lockdown t).2 uid) :=
    fun uid => foldl_update restored _ _ uid
  constructor
  · rintro ⟨hdeny, hback⟩
    constructor
    · intro uid columns hrow hne
      cases hlast : lastFor (lockdown t).1 uid with
      | some s => exact ⟨s, rfl⟩
      | none =>
        have hkeep := hlock uid
        rw [hlast, Option.map_none, Option.none_or, policies_eq_some.2 hrow] at hkeep
        exact absurd (hdeny uid columns hkeep) hne
    · intro uid s hlast
      rw [← hback, hrestore, hlast]
      rfl
  · rintro ⟨hall, hsame⟩
    constructor
    · intro uid columns hcolumns
      rw [hlock] at hcolumns
      cases hlast : lastFor (lockdown t).1 uid with
      | some s =>
        rw [hlast] at hcolumns
        obtain rfl := Option.some.inj hcolumns
        rfl
      | none =>
        rw [hlast, Option.map_none, Option.none_or, policies_eq_some] at hcolumns
        by_contra hne
        obtain ⟨s, hs⟩ := hall uid columns hcolumns hne
        rw [hlast] at hs
        cases hs
    · funext uid
      rw [hrestore]
      cases hlast : lastFor (lockdown t).1 uid with
      | some s => exact (hsame uid s hlast).symm
      | none => rw [hlock, hlast, Option.map_none, Option.none_or, Option.map_none, Option.none_or]

/-! ### Reading a printed row -/

/-- A field between blanks is read back, where its value has no white space around it. -/
theorem parsePart_field {key : String} {v a b : JString} (hkey : ofString key ≠ [])
    (hplain : ∀ u ∈ ofString key, isWhitespace u = false ∧ u ≠ 0x3D) (hv : trim v = v)
    (ha : a = [] ∨ a = [0x20]) (hb : b = [] ∨ b = [0x20]) :
    parsePart (a ++ field key v ++ b) = some (ofString key, v) := by
  obtain ⟨k, ks, hks⟩ := List.exists_cons_of_ne_nil hkey
  have hk : isWhitespace k = false := (hplain k (hks ▸ List.mem_cons_self)).1
  have hend : trimEnd (v ++ b) = v := by
    rcases hb with rfl | rfl
    · rw [List.append_nil, trimEnd_of_trim hv]
    · rw [trimEnd_concat_of_whitespace (by decide), trimEnd_of_trim hv]
  have hequals : trimEnd (k :: (ks ++ [0x3D])) = k :: (ks ++ [0x3D]) :=
    trimEnd_concat (s := k :: ks) (by decide)
  have hline : trim (field key v ++ b) = ofString key ++ 0x3D :: v := by
    have hshape : field key v ++ b = k :: (ks ++ [0x3D]) ++ (v ++ b) := by
      simp [field, hks]
    rw [hshape, trim_keyword hk hequals, hend, hks]
    simp
  have htrim : trim (a ++ field key v ++ b) = ofString key ++ 0x3D :: v := by
    rcases ha with rfl | rfl
    · exact hline
    · rw [List.append_assoc, List.singleton_append, trim_cons_of_whitespace (by decide), hline]
  have hidx : (ofString key ++ 0x3D :: v).idxOf? 0x3D = some (ofString key).length :=
    idxOf?_append_cons fun h => (hplain _ h).2 rfl
  have hdrop : (ofString key ++ 0x3D :: v).drop ((ofString key).length + 1) = v := by simp
  rw [parsePart]
  simp only [htrim, hidx, List.take_left, hdrop, trim_of_forall fun u hu => (hplain u hu).1, hv]

theorem parseMagiskRow_append (x y : JString) :
    parseMagiskRow (x ++ 0x7C :: y) = parseMagiskRow x ++ parseMagiskRow y := by
  rw [parseMagiskRow, List.splitOn_append_cons_self, List.filterMap_append]
  rfl

theorem parseMagiskRow_single {x : JString} (h : 0x7C ∉ x) :
    parseMagiskRow x = (parsePart x).toList := by
  rw [parseMagiskRow, List.splitOn_eq_singleton h, List.filterMap_cons]
  cases parsePart x <;> rfl

/-- The keys of the columns with numbers. -/
def numberKeys : List String := ["uid", "policy", "until", "logging", "notification"]

theorem key_plain {key : String} (h : key ∈ "package_name" :: numberKeys) :
    ofString key ≠ [] ∧ ∀ u ∈ ofString key, isWhitespace u = false ∧ u ≠ 0x3D ∧ u ≠ 0x7C := by
  have hall : ∀ key ∈ "package_name" :: numberKeys, ofString key ≠ [] ∧
      ((ofString key).all fun u => !isWhitespace u && u != 0x3D && u != 0x7C) = true := by
    decide
  obtain ⟨hne, hunits⟩ := hall key h
  refine ⟨hne, fun u hu => ?_⟩
  simpa [and_assoc] using List.all_eq_true.1 hunits u hu

/-- A column with a number is read back. -/
theorem parseMagiskRow_number {key : String} (h : key ∈ numberKeys) (z : ℤ) {a b : JString}
    (ha : a = [] ∨ a = [0x20]) (hb : b = [] ∨ b = [0x20]) :
    parseMagiskRow (a ++ field key (decimal z) ++ b) = [(ofString key, decimal z)] := by
  obtain ⟨hne, hplain⟩ := key_plain (List.mem_cons_of_mem _ h)
  have hbar : 0x7C ∉ a ++ field key (decimal z) ++ b := by
    simp only [field, List.mem_append, List.mem_cons, not_or]
    refine ⟨⟨?_, fun hmem => (hplain _ hmem).2.2 rfl, by decide, ?_⟩, ?_⟩
    · rcases ha with rfl | rfl <;> decide
    · intro hmem
      rcases mem_decimal hmem with hmem | hmem
      · cases hmem
      · exact absurd hmem.2 (by decide)
    · rcases hb with rfl | rfl <;> decide
  rw [parseMagiskRow_single hbar,
    parsePart_field hne (fun u hu => ⟨(hplain u hu).1, (hplain u hu).2.1⟩) (trim_decimal z) ha hb]
  rfl

/-- The field of the package name, with the blanks around it. -/
def nameField (packageName : JString) : JString :=
  [0x20] ++ field "package_name" packageName ++ [0x20]

/-- The pairs behind the package name. -/
def settings (c : Columns) : List (JString × JString) :=
  [(ofString "policy", decimal c.policy.toInt), (ofString "until", decimal c.untilTime.toInt),
    (ofString "logging", decimal c.logging.toInt),
    (ofString "notification", decimal c.notification.toInt)]

theorem parseMagiskRow_printRow (row : Int64 × Columns) :
    parseMagiskRow (printRow row) = (ofString "uid", decimal row.1.toInt) ::
      (parseMagiskRow (nameField row.2.packageName) ++ settings row.2) := by
  have hshape : printRow row = ([] ++ field "uid" (decimal row.1.toInt) ++ [0x20]) ++ 0x7C ::
      (nameField row.2.packageName ++ 0x7C ::
      (([0x20] ++ field "policy" (decimal row.2.policy.toInt) ++ [0x20]) ++ 0x7C ::
      (([0x20] ++ field "until" (decimal row.2.untilTime.toInt) ++ [0x20]) ++ 0x7C ::
      (([0x20] ++ field "logging" (decimal row.2.logging.toInt) ++ [0x20]) ++ 0x7C ::
      ([0x20] ++ field "notification" (decimal row.2.notification.toInt) ++ []))))) := by
    have hsep : ofString " | " = [0x20, 0x7C, 0x20] := rfl
    simp [printRow, fieldsOf, nameField, List.intercalate_cons_cons, hsep]
  rw [hshape]
  simp only [parseMagiskRow_append]
  rw [parseMagiskRow_number (by decide) _ (Or.inl rfl) (Or.inr rfl),
    parseMagiskRow_number (by decide) _ (Or.inr rfl) (Or.inr rfl),
    parseMagiskRow_number (by decide) _ (Or.inr rfl) (Or.inr rfl),
    parseMagiskRow_number (by decide) _ (Or.inr rfl) (Or.inr rfl),
    parseMagiskRow_number (by decide) _ (Or.inr rfl) (Or.inl rfl)]
  rfl

theorem parseMagiskRow_name {packageName : JString} (htrim : trim packageName = packageName)
    (hbar : 0x7C ∉ packageName) :
    parseMagiskRow (nameField packageName) = [(ofString "package_name", packageName)] := by
  obtain ⟨hne, hplain⟩ := key_plain (List.mem_cons_self : "package_name" ∈ _)
  have hfree : 0x7C ∉ nameField packageName := by
    simp only [nameField, field, List.mem_append, List.mem_cons, List.not_mem_nil, or_false, not_or]
    exact ⟨⟨by decide, fun hmem => (hplain _ hmem).2.2 rfl, by decide, hbar⟩, by decide⟩
  rw [parseMagiskRow_single hfree, nameField,
    parsePart_field hne (fun u hu => ⟨(hplain u hu).1, (hplain u hu).2.1⟩) htrim (Or.inr rfl)
      (Or.inr rfl)]
  rfl

/-! ### The entries of a row -/

/-- The entries that are read from the text of a row: one for each of its lines, at most. -/
def entriesOf (row : Int64 × Columns) : List SuPolicyEntry :=
  (lines (printRow row)).filterMap parseEntry

/-- The row comes back: its uid is an `Int`, its policy asks or allows, both flags are set, and its
package name is one line without a bar and without white space around it. -/
structure PlainRow (uid : Int64) (c : Columns) : Prop where
  uid : -2 ^ 31 ≤ uid.toInt ∧ uid.toInt < 2 ^ 31
  policy : c.policy = 1 ∨ c.policy = 2
  logging : c.logging = 1
  notification : c.notification = 1
  trimmed : trim c.packageName = c.packageName
  noBar : 0x7C ∉ c.packageName
  singleLine : SingleLine c.packageName

theorem exists_printRow (row : Int64 × Columns) : ∃ s, printRow row = 0x75 :: s := ⟨_, rfl⟩

theorem singleLine_printRow {row : Int64 × Columns} (h : SingleLine row.2.packageName) :
    SingleLine (printRow row) := by
  have hkeys : ∀ key ∈ "package_name" :: numberKeys, SingleLine (ofString key) := by decide
  have hsep : SingleLine (ofString " | ") := by decide
  simp only [numberKeys, List.forall_mem_cons] at hkeys
  simp [printRow, fieldsOf, List.intercalate_cons_cons, field, hkeys, hsep, h, singleLine_decimal]

theorem entriesOf_singleLine {row : Int64 × Columns} (h : SingleLine row.2.packageName) :
    entriesOf row = (parseEntry (printRow row)).toList := by
  rw [entriesOf, lines_of_singleLine (singleLine_printRow h), List.filterMap_cons]
  cases parseEntry (printRow row) <;> rfl

/-- A line with something in it, read through its pairs. -/
theorem parseEntry_printRow (row : Int64 × Columns) :
    parseEntry (printRow row) =
      ((get (parseMagiskRow (printRow row)) "uid").bind toIntOrNull).bind fun uid =>
        (get (parseMagiskRow (printRow row)) "package_name").map fun packageName =>
          { uid := uid
            packageName := packageName
            policy := policyOf (get (parseMagiskRow (printRow row)) "policy")
            untilTime := ((get (parseMagiskRow (printRow row)) "until").bind toLongOrNull).getD 0
            logging := get (parseMagiskRow (printRow row)) "logging" == some (ofString "1")
            notification :=
              get (parseMagiskRow (printRow row)) "notification" == some (ofString "1") } := by
  obtain ⟨s, hs⟩ := exists_printRow row
  have hblank : ¬ (printRow row).all isWhitespace = true := by
    rw [hs, List.all_cons, show isWhitespace 0x75 = false by decide]
    exact Bool.false_ne_true
  rw [parseEntry, if_neg hblank]

/-- The policy read from a line is that of the row, whatever the package name says. -/
theorem get_policy (row : Int64 × Columns) :
    get (parseMagiskRow (printRow row)) "policy" = some (decimal row.2.policy.toInt) := by
  rw [parseMagiskRow_printRow, get, List.reverse_cons, List.reverse_append, List.append_assoc]
  rfl

theorem policyOf_decimal {z : ℤ} (h : -2 ^ 31 ≤ z ∧ z < 2 ^ 31) :
    policyOf (some (decimal z)) =
      ([SuPolicy.deny, .ask, .allow].find? fun p => p.value == Int32.ofInt z).getD .ask := by
  rw [policyOf, Option.bind_some, toIntOrNull_decimal h]

/-- The row of a denied app in one line gives nothing. -/
theorem snapshot_deny {row : Int64 × Columns} (h : SingleLine row.2.packageName)
    (hdeny : row.2.policy = 0) : snapshot (entriesOf row) = [] := by
  rw [entriesOf_singleLine h]
  cases hentry : parseEntry (printRow row) with
  | none => rfl
  | some entry =>
    have hpolicy : entry.policy = .deny := by
      rw [parseEntry_printRow, Option.bind_eq_some_iff] at hentry
      obtain ⟨uid, -, hentry⟩ := hentry
      obtain ⟨name, -, rfl⟩ := Option.map_eq_some_iff.1 hentry
      dsimp only
      rw [get_policy, hdeny, policyOf_decimal (by decide)]
      rfl
    rw [Option.toList_some, snapshot, List.filter_cons_of_neg (by simp [hpolicy])]
    rfl

/-- The row of an app that comes back. -/
theorem snapshot_plain {uid : Int64} {c : Columns} (h : PlainRow uid c) :
    ∃ s, snapshot (entriesOf (uid, c)) = [s] ∧ s.uid.toInt64 = uid ∧ restored s = c := by
  have hpairs : parseMagiskRow (printRow (uid, c)) = (ofString "uid", decimal uid.toInt) ::
      (ofString "package_name", c.packageName) :: settings c := by
    rw [parseMagiskRow_printRow, parseMagiskRow_name h.trimmed h.noBar]
    rfl
  have huid : get (parseMagiskRow (printRow (uid, c))) "uid" = some (decimal uid.toInt) := by
    rw [hpairs]
    rfl
  have hname : get (parseMagiskRow (printRow (uid, c))) "package_name" = some c.packageName := by
    rw [hpairs]
    rfl
  have huntil : get (parseMagiskRow (printRow (uid, c))) "until" =
      some (decimal c.untilTime.toInt) := by
    rw [hpairs]
    rfl
  obtain ⟨policy, hpolicy, hne, hvalue⟩ : ∃ policy : SuPolicy,
      policyOf (some (decimal c.policy.toInt)) = policy ∧ policy ≠ .deny ∧
        policy.value.toInt64 = c.policy := by
    rcases h.policy with hp | hp <;> rw [hp]
    · exact ⟨.ask, by rw [policyOf_decimal (by decide)]; rfl, by decide, rfl⟩
    · exact ⟨.allow, by rw [policyOf_decimal (by decide)]; rfl, by decide, rfl⟩
  refine ⟨⟨Int32.ofInt uid.toInt, c.packageName, policy, c.untilTime⟩, ?_, ?_, ?_⟩
  · rw [entriesOf_singleLine h.singleLine, parseEntry_printRow, huid, hname, get_policy, huntil,
      hpolicy, Option.bind_some, Option.bind_some, toIntOrNull_decimal h.uid,
      toLongOrNull_decimal]
    simp [snapshot, hne]
  · apply Int64.toInt_inj.1
    rw [Int32.toInt_toInt64, Int32.toInt_ofInt_of_le h.uid.1 h.uid.2]
  · show (⟨c.packageName, policy.value.toInt64, c.untilTime, 1, 1⟩ : Columns) = c
    rw [hvalue]
    obtain ⟨name, p, t, logging, notification⟩ := c
    obtain rfl : logging = 1 := h.logging
    obtain rfl : notification = 1 := h.notification
    rfl

/-- Whatever is read, its package name is one trimmed line without a bar. -/
theorem name_of_mem_entriesOf {row : Int64 × Columns} {entry : SuPolicyEntry}
    (h : entry ∈ entriesOf row) : trim entry.packageName = entry.packageName ∧
      0x7C ∉ entry.packageName ∧ SingleLine entry.packageName := by
  obtain ⟨line, hline, hentry⟩ := List.mem_filterMap.1 h
  unfold parseEntry at hentry
  split_ifs at hentry
  simp only [Option.bind_eq_some_iff, Option.map_eq_some_iff] at hentry
  obtain ⟨uid, -, name, hname, rfl⟩ := hentry
  -- the name is a trimmed piece of the line
  obtain ⟨pre, post, hpairs, -⟩ := List.lookup_eq_some_iff.1 hname
  have hmem : (ofString "package_name", name) ∈ parseMagiskRow line := by
    rw [← List.mem_reverse, hpairs]
    exact List.mem_append_right _ List.mem_cons_self
  obtain ⟨part, hpart, hparse⟩ := List.mem_filterMap.1 hmem
  obtain ⟨hbar, hsub⟩ := mem_splitOn hpart
  unfold parsePart at hparse
  dsimp only at hparse
  split at hparse
  · injection hparse with hparse
    injection hparse with _ hvalue
    have hin : ∀ u ∈ name, u ∈ part := by
      intro u hu
      rw [← hvalue] at hu
      exact mem_of_mem_trim (List.mem_of_mem_drop (mem_of_mem_trim hu))
    refine ⟨?_, fun hu => hbar (hin _ hu), fun u hu => ?_⟩
    · show trim name = name
      rw [← hvalue, trim_trim]
    · exact singleLine_of_mem_lines hline u (hsub u (hin u hu))
  · cases hparse

/-! ### The whole table -/

theorem exists_concat_printRow (row : Int64 × Columns) :
    ∃ s u, printRow row = s ++ [u] ∧ isWhitespace u = false ∧ u ≠ 0x0D := by
  obtain ⟨s, hs⟩ : ∃ s, printRow row = s ++ decimal row.2.notification.toInt := by
    refine ⟨(ofString " | ").intercalate ((fieldsOf row).take 5) ++ ofString " | " ++
      ofString "notification" ++ [0x3D], ?_⟩
    simp [printRow, fieldsOf, List.intercalate_cons_cons, field]
  obtain ⟨digits, u, hdigits⟩ :=
    (List.eq_nil_or_concat (decimal row.2.notification.toInt)).resolve_left (decimal_ne_nil _)
  have hu : u ∈ decimal row.2.notification.toInt := by
    rw [hdigits, List.concat_eq_append]
    simp
  refine ⟨s ++ digits, u, ?_, isWhitespace_of_mem_decimal hu, (singleLine_decimal _ u hu).2⟩
  rw [hs, hdigits, List.concat_eq_append, List.append_assoc]

theorem lines_stdout (rows : List (Int64 × Columns)) :
    lines (rows.flatMap fun row => printRow row ++ [0x0A]) =
      (rows.flatMap fun row => lines (printRow row)) ++ [[]] := by
  induction rows with
  | nil => rfl
  | cons row rows ih =>
    obtain ⟨s, u, hs, -, hu⟩ := exists_concat_printRow row
    have hlast : (printRow row).getLast? ≠ some 0x0D := by
      rw [hs, List.getLast?_concat]
      exact fun h => hu (Option.some.inj h)
    rw [List.flatMap_cons, List.append_assoc, List.singleton_append, lines_append_lf hlast, ih,
      List.flatMap_cons, List.append_assoc]

/-- The table is read row by row. -/
theorem listPolicies_eq (t : Table) : listPolicies t = t.rows.flatMap entriesOf := by
  have hrows : (t.rows.flatMap fun row => lines (printRow row)).filterMap parseEntry =
      t.rows.flatMap entriesOf := by
    rw [List.filterMap_flatMap]
    rfl
  rw [← hrows, listPolicies]
  rcases List.eq_nil_or_concat t.rows with hnil | ⟨rows, row, hconcat⟩
  · rw [Table.stdout, hnil]
    rfl
  · -- the last line feed is trimmed
    obtain ⟨s, u, hs, hu, hcr⟩ := exists_concat_printRow row
    obtain ⟨body, hbody⟩ : ∃ body, body = (rows.flatMap fun row => printRow row ++ [0x0A]) ++ s :=
      ⟨_, rfl⟩
    have hstdout : t.stdout = body ++ [u] ++ [0x0A] := by
      rw [Table.stdout, hconcat, List.concat_eq_append, List.flatMap_append, hbody]
      simp [hs]
    obtain ⟨rest, hrest⟩ : ∃ rest, body ++ [u] = 0x75 :: rest := by
      rw [hbody]
      cases rows with
      | nil =>
        obtain ⟨rest, hrest⟩ := exists_printRow row
        exact ⟨rest, by rw [← hrest, hs]; rfl⟩
      | cons first rows =>
        obtain ⟨rest, hrest⟩ := exists_printRow first
        rw [List.flatMap_cons, hrest]
        exact ⟨_, rfl⟩
    have htrim : trim t.stdout = body ++ [u] := by
      have hend : trimEnd (0x75 :: rest) = 0x75 :: rest := hrest ▸ trimEnd_concat hu
      rw [hstdout, hrest, trim_keyword (by decide) hend]
      simp [trimEnd, isWhitespace]
    have hlines : lines (body ++ [u]) ++ [[]] =
        (t.rows.flatMap fun row => lines (printRow row)) ++ [[]] := by
      rw [← lines_stdout, ← Table.stdout, hstdout, lines_append_lf]
      · rfl
      · rw [List.getLast?_concat]
        exact fun h => hcr (Option.some.inj h)
    rw [htrim, List.append_cancel_right hlines]

theorem lockdown_fst (t : Table) :
    (lockdown t).1 = t.rows.flatMap fun row => snapshot (entriesOf row) := by
  show snapshot (listPolicies t) = _
  rw [listPolicies_eq, snapshot, List.filter_flatMap, List.map_flatMap]
  rfl

/-! ### Reversible tables -/

/-- A denied app whose package name has a line break may be read as other entries.  Each of them
that no later one with its uid follows is a row of the table. -/
def StraysStored (t : Table) : Prop :=
  ∀ before row after, t.rows = before ++ row :: after → row.2.policy = 0 →
    ¬ SingleLine row.2.packageName →
    ∀ pre s post, snapshot (entriesOf row) = pre ++ s :: post →
      (∀ s' ∈ post ++ after.flatMap fun row => snapshot (entriesOf row), s'.uid ≠ s.uid) →
        t.policies s.uid.toInt64 = some (restored s)

theorem flatMap_cut {α β : Type*} {f : α → List β} {l : List α} {pre post : List β} {b : β}
    (h : l.flatMap f = pre ++ b :: post) : ∃ before a after pre' post',
      l = before ++ a :: after ∧ f a = pre' ++ b :: post' ∧ post = post' ++ after.flatMap f := by
  induction l generalizing pre with
  | nil => simp at h
  | cons a l ih =>
    rw [List.flatMap_cons] at h
    rcases List.append_eq_append_iff.1 h with ⟨c, hpre, hrest⟩ | ⟨c, ha, hpost⟩
    · obtain ⟨before, a', after, pre', post', rfl, ha', hpost⟩ := ih hrest
      exact ⟨a :: before, a', after, pre', post', rfl, ha', hpost⟩
    · cases c with
      | nil =>
        have hrest : l.flatMap f = [] ++ b :: post := hpost.symm
        obtain ⟨before, a', after, pre', post', rfl, ha', hpost'⟩ := ih hrest
        exact ⟨a :: before, a', after, pre', post', rfl, ha', hpost'⟩
      | cons b' c =>
        rw [List.cons_append] at hpost
        obtain ⟨rfl, rfl⟩ := List.cons.inj hpost
        exact ⟨[], a, l, pre, c, rfl, ha, rfl⟩

theorem mem_snapshot {entries : List SuPolicyEntry} {s : PolicySnapshot}
    (h : s ∈ snapshot entries) :
    ∃ entry ∈ entries, entry.policy ≠ .deny ∧ s.uid = entry.uid ∧
      s.packageName = entry.packageName ∧ s.policy = entry.policy := by
  obtain ⟨entry, hentry, rfl⟩ := List.mem_map.1 h
  obtain ⟨hmem, hne⟩ := List.mem_filter.1 hentry
  exact ⟨entry, hmem, by simpa using hne, rfl, rfl, rfl⟩

/-- What restoring writes is a row that comes back. -/
theorem plainRow_restored {row : Int64 × Columns} {s : PolicySnapshot}
    (h : s ∈ snapshot (entriesOf row)) : PlainRow s.uid.toInt64 (restored s) := by
  obtain ⟨entry, hentry, hne, huid, hname, hpolicy⟩ := mem_snapshot h
  obtain ⟨htrim, hbar, hline⟩ := name_of_mem_entriesOf hentry
  rw [← hname] at htrim hbar hline
  rw [← hpolicy] at hne
  refine ⟨?_, ?_, rfl, rfl, htrim, hbar, hline⟩
  · rw [Int32.toInt_toInt64]
    exact ⟨s.uid.le_toInt, s.uid.toInt_lt⟩
  · show s.policy.value.toInt64 = 1 ∨ s.policy.value.toInt64 = 2
    cases hp : s.policy with
    | deny => exact absurd hp hne
    | ask => exact Or.inl rfl
    | allow => exact Or.inr rfl

/-- An app that is not denied and whose row does not come back is changed. -/
theorem plainRow_of_reversible {t : Table} (h : Reversible t) {uid : Int64} {c : Columns}
    (hrow : (uid, c) ∈ t.rows) (hne : c.policy ≠ 0) : PlainRow uid c := by
  obtain ⟨hall, hsame⟩ := (reversible_iff_last t).1 h
  obtain ⟨s, hs⟩ := hall uid c hrow hne
  have heq := hsame uid s hs
  rw [policies_eq_some.2 hrow] at heq
  obtain ⟨rfl, pre, post, hcut, -⟩ := lastFor_eq_some.1 hs
  rw [Option.some.inj heq]
  have hmem : s ∈ t.rows.flatMap fun row => snapshot (entriesOf row) := by
    rw [← lockdown_fst, hcut]
    exact List.mem_append_right _ List.mem_cons_self
  obtain ⟨row, -, hsnap⟩ := List.mem_flatMap.1 hmem
  exact plainRow_restored hsnap

/-- **Lockdown and restore leave a table as it was exactly when every app that is not denied has a
row that comes back, and nothing else is read from a denied app's package name.** -/
theorem reversible_iff (t : Table) : Reversible t ↔
    (∀ uid c, (uid, c) ∈ t.rows → c.policy ≠ 0 → PlainRow uid c) ∧ StraysStored t := by
  constructor
  · intro h
    refine ⟨fun uid c hrow hne => plainRow_of_reversible h hrow hne, ?_⟩
    have hsame := ((reversible_iff_last t).1 h).2
    rw [lockdown_fst] at hsame
    intro before row after hrows _ _ pre s post hcut hlast
    refine hsame _ s (lastFor_eq_some.2 ⟨rfl, (before.flatMap fun row => snapshot (entriesOf row))
      ++ pre, post ++ after.flatMap fun row => snapshot (entriesOf row), ?_, ?_⟩)
    · rw [hrows, List.flatMap_append, List.flatMap_cons, hcut]
      simp
    · intro s' hs' heq
      refine hlast s' hs' (Int32.toInt_inj.1 ?_)
      rw [← Int32.toInt_toInt64, heq, Int32.toInt_toInt64]
  · rintro ⟨hplain, hstrays⟩
    rw [reversible_iff_last, lockdown_fst]
    refine ⟨?_, ?_⟩
    · intro uid c hrow hne
      obtain ⟨s, hsnap, huid, -⟩ := snapshot_plain (hplain uid c hrow hne)
      have hmem : s ∈ t.rows.flatMap fun row => snapshot (entriesOf row) :=
        List.mem_flatMap.2 ⟨(uid, c), hrow, hsnap ▸ List.mem_cons_self⟩
      rw [← Option.isSome_iff_exists, lastFor, List.find?_isSome]
      exact ⟨s, List.mem_reverse.2 hmem, by simpa using huid⟩
    · intro uid s hs
      obtain ⟨rfl, pre, post, hcut, hlast⟩ := lastFor_eq_some.1 hs
      obtain ⟨before, row, after, pre', post', hrows, hsnap, rfl⟩ := flatMap_cut hcut
      have hrow : row ∈ t.rows := by
        rw [hrows]
        exact List.mem_append_right _ List.mem_cons_self
      by_cases hdeny : row.2.policy = 0
      · by_cases hline : SingleLine row.2.packageName
        · rw [snapshot_deny hline hdeny] at hsnap
          simp at hsnap
        · refine hstrays before row after hrows hdeny hline pre' s post' hsnap ?_
          intro s' hs' heq
          exact hlast s' hs' (by rw [heq])
      · obtain ⟨s', hs', huid, hrestored⟩ := snapshot_plain (hplain row.1 row.2 hrow hdeny)
        obtain rfl : s = s' := by
          have hmem : s ∈ [s'] := hs' ▸ hsnap ▸ List.mem_append_right _ List.mem_cons_self
          exact List.mem_singleton.1 hmem
        rw [huid, hrestored, policies_eq_some]
        exact hrow

/-- Termux, allowed, without notifications. -/
def termuxTable : Table where
  rows := [(10123, ⟨ofString "com.termux", 2, 0, 1, 0⟩)]
  sorted := List.pairwise_singleton _ _

/-- After lockdown and restore its notifications are switched on. -/
theorem not_reversible_termux : ¬ Reversible termuxTable := by
  intro h
  have hrow := plainRow_of_reversible h List.mem_cons_self (by decide)
  exact absurd hrow.notification (by decide)

end AstraVeil.App.MagiskSu
