import Mathlib.Data.List.Sort
import AstraVeil.Lib.Runs
import AstraVeil.Modules.SignatureVerifier

/-!
# The signed list of files

`buildManifest` of `tools/avm-sign/AvMSigner.kt` writes the signer, the names and the hashes of a
package one to a line, as they are; `parseManifest` of `ModuleSignatureVerifier.kt` reads the lines
without the white space around what they say.

* `Trimmed`: a text that such a line gives back;
* `parseManifest_buildManifest`: what is read from a list of trimmed names;
* `parseManifest_trimmed`: whatever text is read, all names in the result are trimmed;
* `roundTrips_iff`: so the list is read back exactly when the signer and all names are.
-/

namespace AstraVeil.Modules

open Utf16 KotlinString ModuleSignatureVerifier

variable {Key : Type}

namespace AvMSigner

/-- `entries[name] = content` for a `LinkedHashMap`. -/
def putEntry {α : Type} (name : JString) (content : α) : List (JString × α) → List (JString × α)
  | [] => [(name, content)]
  | e :: rest => if e.1 = name then (name, content) :: rest else e :: putEntry name content rest

/-- The lines of one file. -/
def fileLines (P : Platform Key) (file : JString × List UInt8) : JString :=
  ofString "Name: " ++ file.1 ++ ofString "\nSHA-256: " ++ hexString (P.sha256 file.2) ++
    ofString "\n\n"

/-- `buildManifest`, at the time `now`. -/
def buildManifest (P : Platform Key) (signer : JString) (now : ℤ)
    (entries : List (JString × List UInt8)) : JString :=
  ofString "Manifest-Version: 1.0\nSigner: " ++ signer ++ ofString "\nCreated: " ++
    ofString (String.ofList (Digits.intDigits now)) ++ ofString "\n\n" ++
    (entries.insertionSort fun a b => a.1 ≤ b.1).flatMap (fileLines P)

end AvMSigner

open AvMSigner

/-- A text on one line, without white space around it. -/
def Trimmed (s : JString) : Prop := SingleLine s ∧ trim s = s

/-- The verifier reads from the list the signer and, for each file, the hash of its content. -/
def RoundTrips (P : Platform Key) (signer : JString) (now : ℤ)
    (entries : List (JString × List UInt8)) : Prop :=
  (parseManifest (buildManifest P signer now entries)).signer = some signer ∧
    ∀ name hash, (name, hash) ∈ (parseManifest (buildManifest P signer now entries)).files ↔
      ∃ content, (name, content) ∈ entries ∧ hash = hexString (P.sha256 content)

theorem unit_of_mem_hexString {bytes : List UInt8} {u : UInt16} (h : u ∈ hexString bytes) :
    isWhitespace u = false ∧ u ≠ 0x0A ∧ u ≠ 0x0D := by
  have hdigit : ∀ i : Fin 16, (unitsOf (Nat.digitChar i)).all (fun u => decide
      (isWhitespace u = false ∧ u ≠ 0x0A ∧ u ≠ 0x0D)) = true := by
    decide
  have hunit : ∀ i : Fin 16, u ∈ unitsOf (Nat.digitChar i) →
      isWhitespace u = false ∧ u ≠ 0x0A ∧ u ≠ 0x0D := fun i hu =>
    of_decide_eq_true (List.all_eq_true.1 (hdigit i) u hu)
  obtain ⟨c, hc, hu⟩ := List.mem_flatMap.1 h
  rw [String.toList_ofList] at hc
  obtain ⟨b, -, hc⟩ := List.mem_flatMap.1 hc
  have hb := b.toNat_lt
  rcases List.mem_cons.1 hc with rfl | hc
  · exact hunit ⟨b.toNat / 16, by omega⟩ hu
  · obtain rfl := List.mem_singleton.1 hc
    exact hunit ⟨b.toNat % 16, by omega⟩ hu

theorem trim_hexString (bytes : List UInt8) : trim (hexString bytes) = hexString bytes :=
  trim_of_forall fun _ hu => (unit_of_mem_hexString hu).1

theorem singleLine_hexString (bytes : List UInt8) : SingleLine (hexString bytes) :=
  fun _ hu => (unit_of_mem_hexString hu).2

theorem singleLine_intDigits (z : ℤ) :
    SingleLine (ofString (String.ofList (Digits.intDigits z))) := by
  intro u hu
  have hscalar : ∀ c : UInt16, (isHigh c || isLow c) = false →
      c ∈ ofString (String.ofList (Digits.intDigits z)) → unit c ∈ Digits.intDigits z := by
    intro c hc hmem
    have hunit := unit_mem_scalars hc hmem
    rwa [scalars_ofString, String.toList_ofList] at hunit
  constructor
  · rintro rfl
    exact Digits.not_mem_intDigits (by decide) (by decide) z (hscalar _ (by decide) hu)
  · rintro rfl
    exact Digits.not_mem_intDigits (by decide) (by decide) z (hscalar _ (by decide) hu)

/-! ### One line -/

theorem parseLine_name (st : Manifest × Option JString) {name : JString} (h : trim name = name) :
    parseLine st (ofString "Name: " ++ name) = (st.1, some name) := by
  have hline : ofString "Name: " ++ name = 0x4E :: ofString "ame:" ++ 0x20 :: name := rfl
  unfold parseLine
  rw [hline, trim_keyword (by decide) (by decide)]
  show (st.1, some (trim (trimEnd (0x20 :: name)))) = _
  rw [trim_value h]

theorem parseLine_hash (m : Manifest) (name : JString) {hash : JString} (h : trim hash = hash) :
    parseLine (m, some name) (ofString "SHA-256: " ++ hash) =
      ({ m with files := put name hash m.files }, none) := by
  have hline : ofString "SHA-256: " ++ hash = 0x53 :: ofString "HA-256:" ++ 0x20 :: hash := rfl
  unfold parseLine
  rw [hline, trim_keyword (by decide) (by decide)]
  show ({ m with files := put name (trim (trimEnd (0x20 :: hash))) m.files }, none) = _
  rw [trim_value h]

theorem parseLine_signer (m : Manifest) (signer : JString) :
    parseLine (m, none) (ofString "Signer: " ++ signer) =
      ({ m with signer := some (trim (trimEnd (0x20 :: signer))) }, none) := by
  have hline : ofString "Signer: " ++ signer = 0x53 :: ofString "igner:" ++ 0x20 :: signer := rfl
  unfold parseLine
  rw [hline, trim_keyword (by decide) (by decide)]
  rfl

theorem parseLine_created (st : Manifest × Option JString) (s : JString) :
    parseLine st (ofString "Created: " ++ s) = st := by
  have hline : ofString "Created: " ++ s = 0x43 :: ofString "reated:" ++ 0x20 :: s := rfl
  unfold parseLine
  rw [hline, trim_keyword (by decide) (by decide)]
  rfl

/-! ### The whole list -/

theorem mem_putEntry {α : Type} {name : JString} {content : α} {l : List (JString × α)}
    {f : JString × α} (h : f ∈ putEntry name content l) : f = (name, content) ∨ f ∈ l := by
  induction l with
  | nil => exact .inl (List.mem_singleton.1 h)
  | cons e rest ih =>
    unfold putEntry at h
    split_ifs at h with he
    · rcases List.mem_cons.1 h with h | h
      · exact .inl h
      · exact .inr (List.mem_cons_of_mem _ h)
    · rcases List.mem_cons.1 h with h | h
      · exact .inr (h ▸ List.mem_cons_self)
      · exact (ih h).imp_right (List.mem_cons_of_mem _)

theorem put_eq_putEntry (name hash : JString) (files : List (JString × JString)) :
    put name hash files = putEntry name hash files := by
  induction files with
  | nil => rfl
  | cons e rest ih => rw [put, putEntry, ih]

theorem put_of_notMem {k : JString} (v : JString) {files : List (JString × JString)}
    (h : k ∉ files.map Prod.fst) : put k v files = files ++ [(k, v)] := by
  induction files with
  | nil => rfl
  | cons e rest ih =>
    rw [List.map_cons, List.mem_cons, not_or] at h
    rw [put, if_neg fun he => h.1 he.symm, ih h.2, List.cons_append]

theorem lines_fileLines {P : Platform Key} {f : JString × List UInt8} (h : SingleLine f.1)
    (rest : JString) :
    lines (fileLines P f ++ rest) = (ofString "Name: " ++ f.1) ::
      (ofString "SHA-256: " ++ hexString (P.sha256 f.2)) :: [] :: lines rest := by
  have htext : fileLines P f ++ rest = (ofString "Name: " ++ f.1) ++ 0x0A ::
      ((ofString "SHA-256: " ++ hexString (P.sha256 f.2)) ++ 0x0A :: ([] ++ 0x0A :: rest)) := by
    have hhash : ofString "\nSHA-256: " = 0x0A :: ofString "SHA-256: " := rfl
    have hend : ofString "\n\n" = [0x0A, 0x0A] := rfl
    unfold fileLines
    rw [hhash, hend]
    simp only [List.append_assoc, List.cons_append, List.nil_append]
  have hkeyword : SingleLine (ofString "Name: ") ∧ SingleLine (ofString "SHA-256: ") := by
    decide
  rw [htext, lines_append (singleLine_append.2 ⟨hkeyword.1, h⟩),
    lines_append (singleLine_append.2 ⟨hkeyword.2, singleLine_hexString _⟩),
    lines_append singleLine_nil]

/-- The lines of files with trimmed names add these files with their hashes. -/
theorem foldl_fileLines {P : Platform Key} {fs : List (JString × List UInt8)}
    (h : ∀ f ∈ fs, Trimmed f.1) (hfs : (fs.map Prod.fst).Nodup) (m : Manifest)
    (hm : ∀ f ∈ fs, f.1 ∉ m.files.map Prod.fst) :
    (lines (fs.flatMap (fileLines P))).foldl parseLine (m, none) =
      ({ m with files := m.files ++ fs.map fun f => (f.1, hexString (P.sha256 f.2)) }, none) := by
  induction fs generalizing m with
  | nil =>
    rw [List.map_nil, List.append_nil]
    rfl
  | cons f fs ih =>
    obtain ⟨hline, htrim⟩ := h f List.mem_cons_self
    obtain ⟨hf, hfs⟩ := List.nodup_cons.1 hfs
    have hput := put_of_notMem (hexString (P.sha256 f.2)) (hm f List.mem_cons_self)
    -- three lines for each file: its name, its hash, and an empty one
    have hround : (lines ((f :: fs).flatMap (fileLines P))).foldl parseLine (m, none) =
        (lines (fs.flatMap (fileLines P))).foldl parseLine
          ({ m with files := m.files ++ [(f.1, hexString (P.sha256 f.2))] }, none) := by
      rw [List.flatMap_cons, lines_fileLines hline, List.foldl_cons, List.foldl_cons,
        List.foldl_cons, parseLine_name _ htrim, parseLine_hash _ _ (trim_hexString _), hput]
      rfl
    rw [hround, ih (fun f' hf' => h f' (List.mem_cons_of_mem _ hf')) hfs]
    · simp
    · intro f' hf' hmem
      rw [List.map_append, List.mem_append] at hmem
      rcases hmem with hmem | hmem
      · exact hm f' (List.mem_cons_of_mem _ hf') hmem
      · rw [List.map_singleton, List.mem_singleton] at hmem
        exact hf (hmem ▸ List.mem_map_of_mem hf')

theorem lines_buildManifest {P : Platform Key} {signer : JString} (h : SingleLine signer) (now : ℤ)
    (entries : List (JString × List UInt8)) :
    lines (buildManifest P signer now entries) = ofString "Manifest-Version: 1.0" ::
      (ofString "Signer: " ++ signer) ::
      (ofString "Created: " ++ ofString (String.ofList (Digits.intDigits now))) :: [] ::
      lines ((entries.insertionSort fun a b => a.1 ≤ b.1).flatMap (fileLines P)) := by
  have htext : buildManifest P signer now entries =
      ofString "Manifest-Version: 1.0" ++ 0x0A :: ((ofString "Signer: " ++ signer) ++ 0x0A ::
        ((ofString "Created: " ++ ofString (String.ofList (Digits.intDigits now))) ++ 0x0A ::
          ([] ++ 0x0A :: (entries.insertionSort fun a b => a.1 ≤ b.1).flatMap (fileLines P)))) := by
    have hversion : ofString "Manifest-Version: 1.0\nSigner: " =
        ofString "Manifest-Version: 1.0" ++ 0x0A :: ofString "Signer: " := rfl
    have hcreated : ofString "\nCreated: " = 0x0A :: ofString "Created: " := rfl
    have hend : ofString "\n\n" = [0x0A, 0x0A] := rfl
    unfold buildManifest
    rw [hversion, hcreated, hend]
    simp only [List.append_assoc, List.cons_append, List.nil_append]
  have hkeyword : SingleLine (ofString "Manifest-Version: 1.0") ∧
      SingleLine (ofString "Signer: ") ∧ SingleLine (ofString "Created: ") := by
    decide
  rw [htext, lines_append hkeyword.1, lines_append (singleLine_append.2 ⟨hkeyword.2.1, h⟩),
    lines_append (singleLine_append.2 ⟨hkeyword.2.2, singleLine_intDigits now⟩),
    lines_append singleLine_nil]

/-- What is read from a list with the signer on one line and trimmed names. -/
theorem parseManifest_buildManifest {P : Platform Key} {signer : JString} (h : SingleLine signer)
    (now : ℤ) {entries : List (JString × List UInt8)} (hnames : ∀ f ∈ entries, Trimmed f.1)
    (hentries : (entries.map Prod.fst).Nodup) :
    parseManifest (buildManifest P signer now entries) =
      ⟨some (trim (trimEnd (0x20 :: signer))), (entries.insertionSort fun a b => a.1 ≤ b.1).map
        fun f => (f.1, hexString (P.sha256 f.2))⟩ := by
  have hperm := List.perm_insertionSort (fun a b : JString × List UInt8 => a.1 ≤ b.1) entries
  have hversion : parseLine (⟨none, []⟩, none) (ofString "Manifest-Version: 1.0") =
      (⟨none, []⟩, none) := rfl
  have hempty : ∀ st, parseLine st [] = st := fun st => rfl
  unfold parseManifest
  rw [lines_buildManifest h, List.foldl_cons, List.foldl_cons, List.foldl_cons, List.foldl_cons,
    hversion, parseLine_signer, parseLine_created, hempty, foldl_fileLines]
  · rw [List.nil_append]
  · exact fun f hf => hnames f (hperm.mem_iff.1 hf)
  · exact (hperm.map Prod.fst).nodup_iff.2 hentries
  · exact fun f _ => List.not_mem_nil

/-! ### What any text gives -/

theorem trimmed_trim_drop {s : JString} (h : SingleLine s) (n : ℕ) :
    Trimmed (trim ((trim s).drop n)) := by
  refine ⟨fun u hu => h u ?_, trim_trim _⟩
  exact mem_of_mem_trim (List.mem_of_mem_drop (mem_of_mem_trim hu))

/-- All that has been read so far is trimmed. -/
structure AllTrimmed (st : Manifest × Option JString) : Prop where
  signer : ∀ s, st.1.signer = some s → Trimmed s
  files : ∀ x ∈ st.1.files, Trimmed x.1
  name : ∀ s, st.2 = some s → Trimmed s

theorem AllTrimmed.parseLine {st : Manifest × Option JString} (h : AllTrimmed st) {line : JString}
    (hline : SingleLine line) : AllTrimmed (parseLine st line) := by
  have htrimmed := trimmed_trim_drop hline
  unfold ModuleSignatureVerifier.parseLine
  simp only
  split_ifs
  · exact ⟨fun s hs => Option.some.inj hs ▸ htrimmed 7, h.files, h.name⟩
  · exact ⟨h.signer, h.files, fun s hs => Option.some.inj hs ▸ htrimmed 5⟩
  · cases hname : st.2 with
    | none => exact ⟨h.signer, h.files, fun s hs => by cases hs⟩
    | some name =>
      refine ⟨h.signer, fun x hx => ?_, fun s hs => by cases hs⟩
      have hx' : x ∈ putEntry name (trim ((trim line).drop 8)) st.1.files := by
        rw [← put_eq_putEntry]
        exact hx
      rcases mem_putEntry hx' with rfl | hx
      · exact h.name name hname
      · exact h.files x hx
  · exact h

theorem allTrimmed_nil : AllTrimmed (⟨none, []⟩, none) := by
  constructor <;> simp

theorem parseManifest_trimmed (text : JString) : AllTrimmed (parseManifest text, none) := by
  have hlines : Runs.Along parseLine (fun _ line => SingleLine line) (⟨none, []⟩, none)
      (lines text) := Runs.along_forall.2 fun _ hline => singleLine_of_mem_lines hline
  have hread : AllTrimmed (Runs.run parseLine (⟨none, []⟩, none) (lines text)) :=
    Runs.run_invariant_of (fun _ _ h hline => h.parseLine hline) allTrimmed_nil hlines
  exact ⟨hread.signer, hread.files, fun s hs => by cases hs⟩

theorem RoundTrips.trimmed {P : Platform Key} {signer : JString} {now : ℤ}
    {entries : List (JString × List UInt8)} (h : RoundTrips P signer now entries) :
    Trimmed signer ∧ ∀ f ∈ entries, Trimmed f.1 := by
  have hread := parseManifest_trimmed (buildManifest P signer now entries)
  refine ⟨hread.signer signer h.1, fun f hf => ?_⟩
  exact hread.files (f.1, hexString (P.sha256 f.2)) ((h.2 _ _).2 ⟨f.2, hf, rfl⟩)

/-- **The list of files is read back exactly when the signer and all names stand on one line each,
without white space around them.** -/
theorem roundTrips_iff (P : Platform Key) (signer : JString) (now : ℤ)
    {entries : List (JString × List UInt8)} (hentries : (entries.map Prod.fst).Nodup) :
    RoundTrips P signer now entries ↔
      (SingleLine signer ∧ trim signer = signer) ∧
        ∀ f ∈ entries, SingleLine f.1 ∧ trim f.1 = f.1 := by
  constructor
  · exact RoundTrips.trimmed
  · rintro ⟨hsigner, hnames⟩
    have hread := parseManifest_buildManifest (P := P) hsigner.1 now hnames hentries
    refine ⟨?_, fun name hash => ?_⟩
    · rw [hread, trim_value hsigner.2]
    · rw [hread, List.mem_map]
      constructor
      · rintro ⟨f, hf, hpair⟩
        obtain ⟨rfl, rfl⟩ := Prod.mk.inj hpair
        exact ⟨f.2, (List.perm_insertionSort _ _).mem_iff.1 hf, rfl⟩
      · rintro ⟨content, hmem, rfl⟩
        exact ⟨(name, content), (List.perm_insertionSort _ _).mem_iff.2 hmem, rfl⟩

/-- One file with a plain name. -/
theorem roundTrips_sample : RoundTrips samplePlatform (ofString "dev") 1722556800000
    [(ofString "module.json", ascii "\x7b\x7d")] := by
  have hmap : ([(ofString "module.json", ascii "\x7b\x7d")].map Prod.fst).Nodup :=
    List.nodup_singleton _
  refine (roundTrips_iff samplePlatform (ofString "dev") 1722556800000 hmap).2 ⟨by decide, ?_⟩
  rw [List.forall_mem_singleton]
  decide

/-- A file whose name goes on in a second line, and the signer that is read from it. -/
theorem not_roundTrips_injected :
    (parseManifest (buildManifest samplePlatform (ofString "dev") 1722556800000
      [(ofString "a\nSigner: AstraVeil", ascii "\x7b\x7d")])).signer =
        some (ofString "AstraVeil") ∧
      ¬ RoundTrips samplePlatform (ofString "dev") 1722556800000
        [(ofString "a\nSigner: AstraVeil", ascii "\x7b\x7d")] := by
  have hread : (parseManifest (buildManifest samplePlatform (ofString "dev") 1722556800000
      [(ofString "a\nSigner: AstraVeil", ascii "\x7b\x7d")])).signer =
        some (ofString "AstraVeil") := by
    decide +kernel
  refine ⟨hread, fun h => ?_⟩
  have hsigner := hread.symm.trans h.1
  rw [Option.some.injEq] at hsigner
  exact absurd hsigner (by decide)

end AstraVeil.Modules
