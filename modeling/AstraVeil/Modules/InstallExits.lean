import AstraVeil.Modules.Manager

/-!
# How an install ends

Some exits of `ModuleManager.install` delete the module's directory, others leave what has been
unpacked so far.  Which exit it is, and with which files, is a question about the archive, the fault
and what the directory held before (`layout`).

* `Goes`, `Cuts`, `Deletes`: the loop gets past an entry; it is cut off there, which leaves a tree;
  the directory is deleted, with what it holds by then;
* `unpackLoop_cases`: one of these is how the loop ends;
* `LeavesNothing`: the condition on a request under which no valid `module.json` stays behind
  without a completed install;
* `tidy_installOutcome`: under it `install` ends in such a way.
-/

namespace AstraVeil.Modules

open Utf16 KotlinString Finmaps AstraVeil.Core

variable {Key : Type} {D : Device Key}

/-! ### The files an archive describes -/

/-- An entry, unpacked into a tree. -/
def addEntry (t : FileTree) (e : ZipEntry) : FileTree :=
  if e.isDirectory then mkdirs (resolve e.name) t
  else (mkdirs (parentOf e.name) t).insert (resolve e.name) (.file e.content)

/-- A tree with these entries, unpacked one after the other. -/
def layout (base : FileTree) (es : List ZipEntry) : FileTree := es.foldl addEntry base

/-- The number of their bytes. -/
def volume (es : List ZipEntry) : ℕ :=
  (es.map fun e => if e.isDirectory then 0 else e.content.length).sum

@[simp] theorem layout_nil (base : FileTree) : layout base [] = base := rfl

@[simp] theorem volume_nil : volume [] = 0 := rfl

theorem layout_snoc (base : FileTree) (es : List ZipEntry) (e : ZipEntry) :
    layout base (es ++ [e]) = addEntry (layout base es) e := by
  simp [layout]

theorem volume_snoc (es : List ZipEntry) (e : ZipEntry) :
    volume (es ++ [e]) = volume es + if e.isDirectory then 0 else e.content.length := by
  simp [volume]

/-- Making directories touches no file. -/
theorem lookup_mkdirsFrom_file (cs : List JString) (parent p : List JString) (t : FileTree)
    (content : List UInt8) :
    (mkdirsFrom parent cs t).lookup p = some (.file content) ↔
      t.lookup p = some (.file content) := by
  induction cs generalizing parent t with
  | nil => rfl
  | cons c cs ih =>
    unfold mkdirsFrom
    split
    · rfl
    · exact ih _ _
    · next hnone =>
      rw [ih]
      by_cases hp : p = parent ++ [c]
      · rw [hp, AList.lookup_insert, hnone]
        simp
      · rw [AList.lookup_insert_ne hp]

/-! ### The copy loop -/

/-- The copy loop copies everything, or exceeds the total. -/
theorem copyLoop_spec (read : ℕ → ℕ) (written : List UInt8) {fuel total : ℕ} {rest : List UInt8}
    (hfuel : rest.length < fuel) (htotal : total ≤ maxTotalBytes) :
    (total + rest.length ≤ maxTotalBytes →
        copyLoop read fuel written total rest = (written ++ rest, some (total + rest.length))) ∧
      (maxTotalBytes < total + rest.length →
        (copyLoop read fuel written total rest).2 = none) := by
  induction fuel generalizing written total rest with
  | zero => omega
  | succ fuel ih =>
    unfold copyLoop
    by_cases hrest : rest = []
    · subst hrest
      rw [if_pos rfl]
      exact ⟨fun _ => by simp, fun h => absurd h (not_lt.2 htotal)⟩
    have hpos : 0 < rest.length := List.length_pos_iff.2 hrest
    simp only [if_neg hrest]
    -- the buffer takes at least one byte, so the fuel lasts
    obtain ⟨n, hn⟩ : ∃ n, n = min (max 1 (read total)) (min 8192 rest.length) := ⟨_, rfl⟩
    rw [← hn]
    by_cases hover : total + n > maxTotalBytes
    · rw [if_pos hover]
      exact ⟨fun h => absurd h (by omega), fun _ => rfl⟩
    · have hlen : (rest.drop n).length = rest.length - n := List.length_drop
      have hsum : total + n + (rest.length - n) = total + rest.length := by omega
      have hfuel' : (rest.drop n).length < fuel := by omega
      obtain ⟨hwhole, hexceeded⟩ := ih (written ++ rest.take n) hfuel' (not_lt.1 hover)
      rw [hlen, hsum] at hwhole hexceeded
      rw [if_neg hover]
      refine ⟨fun h => ?_, hexceeded⟩
      rw [hwhole h, List.append_assoc, List.take_append_drop]

section

variable {read : ℕ → ℕ} {total : ℕ} {content : List UInt8}

theorem copied_of_le (h : total + content.length ≤ maxTotalBytes) :
    copied read total content = (content, some (total + content.length)) :=
  (copyLoop_spec read [] (Nat.lt_succ_self _) (by omega)).1 h

theorem copied_of_gt (htotal : total ≤ maxTotalBytes)
    (h : maxTotalBytes < total + content.length) : (copied read total content).2 = none :=
  (copyLoop_spec read [] (Nat.lt_succ_self _) htotal).2 h

end

/-! ### One entry -/

variable {read : ℕ → ℕ} {base : FileTree} {pre : List ZipEntry} {e : ZipEntry}
  {fault : Option (EntryPoint × Bool)}

/-- The file of the entry cannot be opened: its path ends in a `.`, is a directory already, or does
not lie in one. -/
def Clashes (base : FileTree) (pre : List ZipEntry) (e : ZipEntry) : Prop :=
  openFile e.name (mkdirs (parentOf e.name) (layout base pre)) = none

instance (base : FileTree) (pre : List ZipEntry) (e : ZipEntry) : Decidable (Clashes base pre e) :=
  inferInstanceAs (Decidable (_ = none))

example : Clashes ∅ [] (ModuleSignatureVerifier.sampleEntry "lib/." []) ∧
    ¬ Clashes ∅ [] (ModuleSignatureVerifier.sampleEntry "./lib//a" []) := by
  decide

/-- The entry is packed suspiciously well. -/
def Suspicious (e : ZipEntry) : Prop :=
  e.compressedSize > 0 ∧ e.size > maxCompressionRatio * e.compressedSize

instance (e : ZipEntry) : Decidable (Suspicious e) := inferInstanceAs (Decidable (_ ∧ _))

/-- The loop gets past the entry when it comes to it without a fault. -/
def Passes (base : FileTree) (pre : List ZipEntry) (e : ZipEntry) : Prop :=
  isSafeName e.name = true ∧ (e.isDirectory = false →
    e.size ≤ maxSingleFileBytes ∧ ¬ Clashes base pre e ∧
      volume pre + e.content.length ≤ maxTotalBytes ∧ ¬ Suspicious e)

instance (base : FileTree) (pre : List ZipEntry) (e : ZipEntry) : Decidable (Passes base pre e) :=
  inferInstanceAs (Decidable (_ ∧ (_ → _ ∧ _ ∧ _ ∧ ¬ _)))

/-- The loop gets past the entry; a fault in the middle of a file does not strike a directory. -/
def Goes (base : FileTree) (pre : List ZipEntry) (e : ZipEntry)
    (fault : Option (EntryPoint × Bool)) : Prop :=
  Passes base pre e ∧
    (fault = none ∨ e.isDirectory = true ∧ ∀ crash, fault ≠ some (.start, crash))

/-- The entry is a file with a safe name and of acceptable size, and no fault comes before it. -/
structure IsOpened (e : ZipEntry) (fault : Option (EntryPoint × Bool)) : Prop where
  notStart : ∀ crash, fault ≠ some (.start, crash)
  safe : isSafeName e.name = true
  file : e.isDirectory = false
  size : e.size ≤ maxSingleFileBytes

/-- The loop is cut off at the entry, by an exception or by the death of the process, and the
directory stays with a tree. -/
inductive Cuts (base : FileTree) (pre : List ZipEntry) (e : ZipEntry)
    (fault : Option (EntryPoint × Bool)) : (crash : Bool) → FileTree → Prop
  /-- A fault before the entry. -/
  | start (crash : Bool) (hf : fault = some (.start, crash)) :
      Cuts base pre e fault crash (layout base pre)
  /-- `require` refuses its name. -/
  | unsafeName (hf : ∀ crash, fault ≠ some (.start, crash)) (hs : isSafeName e.name = false) :
      Cuts base pre e fault false (layout base pre)
  /-- A fault before the file is opened. -/
  | parents (crash : Bool) (ho : IsOpened e fault) (hf : fault = some (.parents, crash)) :
      Cuts base pre e fault crash (mkdirs (parentOf e.name) (layout base pre))
  /-- The file cannot be opened. -/
  | clash (crash : Bool) (ho : IsOpened e fault) (hc : Clashes base pre e)
      (hf : fault = none ∧ crash = false ∨ ∃ n, fault = some (.written n, crash)) :
      Cuts base pre e fault crash (mkdirs (parentOf e.name) (layout base pre))
  /-- A fault after some bytes. -/
  | written (crash : Bool) (ho : IsOpened e fault) (n : ℕ) (hc : ¬ Clashes base pre e)
      (hv : volume pre + min n e.content.length ≤ maxTotalBytes)
      (hf : fault = some (.written n, crash)) :
      Cuts base pre e fault crash (layout base (pre ++ [{ e with content := e.content.take n }]))

/-- The tree with what has been written of the entry when the total is exceeded. -/
def exceeded (read : ℕ → ℕ) (base : FileTree) (pre : List ZipEntry) (e : ZipEntry)
    (content : List UInt8) : FileTree :=
  layout base (pre ++ [{ e with content := (copied read (volume pre) content).1 }])

/-- The directory is deleted at the entry, and holds a tree by then. -/
inductive Deletes (read : ℕ → ℕ) (base : FileTree) (pre : List ZipEntry) (e : ZipEntry)
    (fault : Option (EntryPoint × Bool)) : FileTree → Prop
  /-- The file is too large. -/
  | tooLarge (hf : ∀ crash, fault ≠ some (.start, crash)) (hs : isSafeName e.name = true)
      (hd : e.isDirectory = false) (hz : e.size > maxSingleFileBytes) :
      Deletes read base pre e fault (layout base pre)
  /-- The total is exceeded while the file is written, even if an error was to come. -/
  | totalWritten (ho : IsOpened e fault) (n : ℕ) (crash : Bool) (hc : ¬ Clashes base pre e)
      (hv : volume pre + min n e.content.length > maxTotalBytes)
      (hf : fault = some (.written n, crash)) :
      Deletes read base pre e fault (exceeded read base pre e (e.content.take n))
  /-- The total is exceeded. -/
  | total (ho : IsOpened e fault) (hc : ¬ Clashes base pre e)
      (hv : volume pre + e.content.length > maxTotalBytes) (hf : fault = none) :
      Deletes read base pre e fault (exceeded read base pre e e.content)
  /-- The file is packed suspiciously well. -/
  | suspicious (ho : IsOpened e fault) (hc : ¬ Clashes base pre e)
      (hv : volume pre + e.content.length ≤ maxTotalBytes) (hr : Suspicious e)
      (hf : fault = none) : Deletes read base pre e fault (layout base (pre ++ [e]))

theorem layout_written (hd : e.isDirectory = false) (content : List UInt8) :
    layout base (pre ++ [{ e with content := content }]) =
      (mkdirs (parentOf e.name) (layout base pre)).insert (resolve e.name) (.file content) := by
  have hd' : ({ e with content := content } : ZipEntry).isDirectory = false := hd
  rw [layout_snoc, addEntry, hd']
  rfl

theorem openFile_of_not_clashes (h : ¬ Clashes base pre e) :
    openFile e.name (mkdirs (parentOf e.name) (layout base pre)) =
      some ((mkdirs (parentOf e.name) (layout base pre)).insert (resolve e.name) (.file [])) := by
  unfold Clashes openFile at h
  unfold openFile
  simp only at h ⊢
  split_ifs at h ⊢
  · exact absurd rfl h
  · exact absurd rfl h
  · rfl

theorem unpackEntry_parents {crash : Bool} (ho : IsOpened e (some (.parents, crash))) :
    unpackEntry read (layout base pre) (volume pre) e (some (.parents, crash)) =
      stop crash (mkdirs (parentOf e.name) (layout base pre)) := by
  simp only [unpackEntry, ho.safe, ho.file, not_lt.2 ho.size, if_false, Bool.true_eq_false,
    Bool.false_eq_true]

theorem unpackEntry_written {n : ℕ} {crash : Bool} (ho : IsOpened e (some (.written n, crash)))
    (hv : volume pre ≤ maxTotalBytes) :
    unpackEntry read (layout base pre) (volume pre) e (some (.written n, crash)) =
      if Clashes base pre e then stop crash (mkdirs (parentOf e.name) (layout base pre))
      else if volume pre + min n e.content.length ≤ maxTotalBytes then
        stop crash (layout base (pre ++ [{ e with content := e.content.take n }]))
      else .deleted (exceeded read base pre e (e.content.take n)) .totalTooLarge := by
  simp only [unpackEntry, ho.safe, ho.file, not_lt.2 ho.size, if_false, Bool.true_eq_false,
    Bool.false_eq_true]
  by_cases hc : Clashes base pre e
  · rw [if_pos hc, show openFile e.name _ = none from hc]
  have hlen : (e.content.take n).length = min n e.content.length := List.length_take
  rw [if_neg hc, openFile_of_not_clashes hc]
  simp only [AList.insert_insert]
  by_cases ht : volume pre + min n e.content.length ≤ maxTotalBytes
  · rw [if_pos ht, copied_of_le (by rw [hlen]; exact ht), layout_written ho.file]
  · rw [if_neg ht, copied_of_gt hv (by rw [hlen]; exact not_le.1 ht), exceeded,
      layout_written ho.file]

theorem unpackEntry_file (ho : IsOpened e none) (hv : volume pre ≤ maxTotalBytes) :
    unpackEntry read (layout base pre) (volume pre) e none =
      if Clashes base pre e then .left (mkdirs (parentOf e.name) (layout base pre)) .io
      else if volume pre + e.content.length ≤ maxTotalBytes then
        if Suspicious e then .deleted (layout base (pre ++ [e])) (.suspiciousRatio e.name)
        else .ok (layout base (pre ++ [e])) (volume (pre ++ [e]))
      else .deleted (exceeded read base pre e e.content) .totalTooLarge := by
  simp only [unpackEntry, ho.safe, ho.file, not_lt.2 ho.size, if_false, Bool.true_eq_false,
    Bool.false_eq_true]
  by_cases hc : Clashes base pre e
  · rw [if_pos hc, show openFile e.name _ = none from hc]
  have hvol : volume (pre ++ [e]) = volume pre + e.content.length := by
    rw [volume_snoc, ho.file]
    rfl
  have hlay : layout base (pre ++ [e]) = _ := layout_written ho.file e.content
  rw [if_neg hc, openFile_of_not_clashes hc]
  simp only [AList.insert_insert]
  by_cases ht : volume pre + e.content.length ≤ maxTotalBytes
  · rw [if_pos ht, copied_of_le ht, hvol, hlay]
    rfl
  · rw [if_neg ht, copied_of_gt hv (not_le.1 ht), exceeded, layout_written ho.file]

theorem unpackEntry_cuts (read : ℕ → ℕ) {crash : Bool} {tree : FileTree}
    (h : Cuts base pre e fault crash tree) (hv : volume pre ≤ maxTotalBytes) :
    ∃ err, unpackEntry read (layout base pre) (volume pre) e fault =
      if crash then .crashed tree else .left tree err := by
  cases h with
  | start crash hf =>
    rw [hf]
    exact ⟨.io, rfl⟩
  | unsafeName hf hs =>
    refine ⟨.unsafePath e.name, ?_⟩
    unfold unpackEntry
    split
    · next crash => exact absurd rfl (hf crash)
    · exact if_pos hs
  | parents crash ho hf =>
    subst hf
    exact ⟨.io, unpackEntry_parents ho⟩
  | clash crash ho hc hf =>
    rcases hf with ⟨rfl, rfl⟩ | ⟨n, rfl⟩
    · exact ⟨.io, (unpackEntry_file ho hv).trans (if_pos hc)⟩
    · exact ⟨.io, (unpackEntry_written ho hv).trans (if_pos hc)⟩
  | written crash ho n hc hv' hf =>
    subst hf
    refine ⟨.io, (unpackEntry_written ho hv).trans ?_⟩
    rw [if_neg hc, if_pos hv']
    rfl

theorem unpackEntry_deletes {tree : FileTree} (h : Deletes read base pre e fault tree)
    (hv : volume pre ≤ maxTotalBytes) :
    ∃ err, unpackEntry read (layout base pre) (volume pre) e fault = .deleted tree err := by
  cases h with
  | tooLarge hf hs hd hz =>
    refine ⟨.fileTooLarge e.name e.size, ?_⟩
    unfold unpackEntry
    split
    · next crash => exact absurd rfl (hf crash)
    · rw [if_neg (by simp [hs]), if_neg (by simp [hd]), if_pos hz]
  | totalWritten ho n crash hc hv' hf =>
    subst hf
    refine ⟨.totalTooLarge, (unpackEntry_written ho hv).trans ?_⟩
    rw [if_neg hc, if_neg (not_le.2 hv')]
  | total ho hc hv' hf =>
    subst hf
    refine ⟨.totalTooLarge, (unpackEntry_file ho hv).trans ?_⟩
    rw [if_neg hc, if_neg (not_le.2 hv')]
  | suspicious ho hc hv' hr hf =>
    subst hf
    refine ⟨.suspiciousRatio e.name, (unpackEntry_file ho hv).trans ?_⟩
    rw [if_neg hc, if_pos hv', if_pos hr]

theorem unpackEntry_goes (read : ℕ → ℕ) (h : Goes base pre e fault)
    (hv : volume pre ≤ maxTotalBytes) :
    unpackEntry read (layout base pre) (volume pre) e fault =
        .ok (layout base (pre ++ [e])) (volume (pre ++ [e])) ∧
      volume (pre ++ [e]) ≤ maxTotalBytes := by
  obtain ⟨⟨hs, hfile⟩, hf⟩ := h
  have hstart : ∀ crash, fault ≠ some (.start, crash) := by
    rcases hf with rfl | ⟨-, hf⟩
    · exact nofun
    · exact hf
  cases hd : e.isDirectory with
  | true =>
    have hvol : volume (pre ++ [e]) = volume pre := by
      rw [volume_snoc, hd]
      rfl
    refine ⟨?_, hvol ▸ hv⟩
    unfold unpackEntry
    split
    · next crash => exact absurd rfl (hstart crash)
    · rw [if_neg (by simp [hs]), if_pos hd, hvol, layout_snoc, addEntry, hd]
      rfl
  | false =>
    obtain ⟨hz, hc, ht, hr⟩ := hfile hd
    obtain rfl : fault = none := by
      rcases hf with hf | ⟨hd', -⟩
      · exact hf
      · rw [hd] at hd'
        cases hd'
    refine ⟨(unpackEntry_file ⟨hstart, hs, hd, hz⟩ hv).trans ?_, ?_⟩
    · rw [if_neg hc, if_pos ht, if_neg hr]
    · rw [volume_snoc, hd]
      exact ht

/-- Where the loop does not get past an entry, it is cut off there or deletes the directory. -/
theorem cuts_or_deletes (read : ℕ → ℕ) (h : ¬ Goes base pre e fault) :
    (∃ crash tree, Cuts base pre e fault crash tree) ∨
      ∃ tree, Deletes read base pre e fault tree := by
  by_cases hstart : ∃ crash, fault = some (.start, crash)
  · obtain ⟨crash, rfl⟩ := hstart
    exact .inl ⟨_, _, .start crash rfl⟩
  have hf : ∀ crash, fault ≠ some (.start, crash) := fun crash hc => hstart ⟨crash, hc⟩
  by_cases hs : isSafeName e.name = true
  swap
  · exact .inl ⟨_, _, .unsafeName hf (by simpa using hs)⟩
  by_cases hd : e.isDirectory = true
  · exact absurd ⟨⟨hs, fun hd' => by rw [hd] at hd'; cases hd'⟩, .inr ⟨hd, hf⟩⟩ h
  rw [Bool.not_eq_true] at hd
  by_cases hz : e.size ≤ maxSingleFileBytes
  swap
  · exact .inr ⟨_, .tooLarge hf hs hd (not_le.1 hz)⟩
  have ho : IsOpened e fault := ⟨hf, hs, hd, hz⟩
  rcases fault with - | ⟨point, crash⟩
  · by_cases hc : Clashes base pre e
    · exact .inl ⟨_, _, .clash false ho hc (.inl ⟨rfl, rfl⟩)⟩
    · by_cases ht : volume pre + e.content.length ≤ maxTotalBytes
      · by_cases hr : Suspicious e
        · exact .inr ⟨_, .suspicious ho hc ht hr rfl⟩
        · exact absurd ⟨⟨hs, fun _ => ⟨hz, hc, ht, hr⟩⟩, .inl rfl⟩ h
      · exact .inr ⟨_, .total ho hc (not_le.1 ht) rfl⟩
  · cases point with
    | start => exact absurd rfl (hf crash)
    | parents => exact .inl ⟨_, _, .parents crash ho rfl⟩
    | written n =>
      by_cases hc : Clashes base pre e
      · exact .inl ⟨_, _, .clash crash ho hc (.inr ⟨n, rfl⟩)⟩
      · by_cases ht : volume pre + min n e.content.length ≤ maxTotalBytes
        · exact .inl ⟨_, _, .written crash ho n hc ht rfl⟩
        · exact .inr ⟨_, .totalWritten ho n crash hc (not_le.1 ht) rfl⟩

/-! ### The loop -/

/-- The fault, if it strikes in the given round. -/
def strikes (fault : Option (ℕ × EntryPoint × Bool)) (round : ℕ) : Option (EntryPoint × Bool) :=
  match fault with
  | some (k, f) => if k = round then some f else none
  | none => none

/-- The fault, seen from the next round. -/
def later : Option (ℕ × EntryPoint × Bool) → Option (ℕ × EntryPoint × Bool)
  | some (k + 1, f) => some (k, f)
  | _ => none

theorem strikes_later (fault : Option (ℕ × EntryPoint × Bool)) (round : ℕ) :
    strikes (later fault) round = strikes fault (round + 1) := by
  rcases fault with - | ⟨k, f⟩
  · rfl
  · cases k <;> simp [strikes, later]

theorem strikes_iterate_later (fault : Option (ℕ × EntryPoint × Bool)) (n : ℕ) :
    strikes (later^[n] fault) 0 = strikes fault n := by
  induction n generalizing fault with
  | zero => rfl
  | succ n ih => rw [Function.iterate_succ_apply, ih, strikes_later]

theorem unpackLoop_cons (read : ℕ → ℕ) (fault : Option (ℕ × EntryPoint × Bool)) (e : ZipEntry)
    (es : List ZipEntry) (t : FileTree) (total : ℕ) :
    unpackLoop read fault (e :: es) t total =
      match unpackEntry read t total e (strikes fault 0) with
      | .ok t total => unpackLoop read (later fault) es t total
      | r => r := by
  rcases fault with - | ⟨k, f⟩
  · rfl
  · cases k <;> rfl

section Loop

variable {fault : Option (ℕ × EntryPoint × Bool)} {es post : List ZipEntry}

/-- The loop gets past all of these entries. -/
def Went (base : FileTree) (fault : Option (ℕ × EntryPoint × Bool)) (es : List ZipEntry) : Prop :=
  ∀ pre e post, es = pre ++ e :: post → Goes base pre e (strikes fault pre.length)

theorem went_nil (base : FileTree) (fault : Option (ℕ × EntryPoint × Bool)) :
    Went base fault [] := by
  intro pre e post h
  exact absurd h (by simp)

theorem went_snoc : Went base fault (es ++ [e]) ↔
    Went base fault es ∧ Goes base es e (strikes fault es.length) :=
  Runs.forall_cuts_concat

/-- The loop gets past all entries, or there is a first one that it does not get past. -/
theorem went_or_split (base : FileTree) (fault : Option (ℕ × EntryPoint × Bool))
    (es : List ZipEntry) :
    Went base fault es ∨ ∃ pre e post, es = pre ++ e :: post ∧ Went base fault pre ∧
      ¬ Goes base pre e (strikes fault pre.length) := by
  induction es using List.reverseRecOn with
  | nil => exact .inl (went_nil base fault)
  | append_singleton es e ih =>
    rcases ih with h | ⟨pre, e', post, rfl, hpre, hnot⟩
    · by_cases he : Goes base es e (strikes fault es.length)
      · exact .inl (went_snoc.2 ⟨h, he⟩)
      · exact .inr ⟨es, e, [], rfl, h, he⟩
    · exact .inr ⟨pre, e', post ++ [e], by simp, hpre, hnot⟩

/-- Entries that the loop gets past are unpacked, and the loop goes on behind them. -/
theorem unpackLoop_went (read : ℕ → ℕ) (h : Went base fault pre) :
    volume pre ≤ maxTotalBytes ∧ ∀ rest, unpackLoop read fault (pre ++ rest) base 0 =
      unpackLoop read (later^[pre.length] fault) rest (layout base pre) (volume pre) := by
  induction pre using List.reverseRecOn with
  | nil => exact ⟨Nat.zero_le _, fun rest => rfl⟩
  | append_singleton pre e ih =>
    obtain ⟨hpre, he⟩ := went_snoc.1 h
    obtain ⟨hv, hloop⟩ := ih hpre
    obtain ⟨hok, hv'⟩ := unpackEntry_goes read he hv
    refine ⟨hv', fun rest => ?_⟩
    rw [List.append_assoc, List.singleton_append, hloop, unpackLoop_cons, strikes_iterate_later,
      hok, List.length_append, List.length_singleton, Function.iterate_succ_apply']

theorem unpackLoop_at (read : ℕ → ℕ) (hes : es = pre ++ e :: post) (h : Went base fault pre) :
    unpackLoop read fault es base 0 =
      match unpackEntry read (layout base pre) (volume pre) e (strikes fault pre.length) with
      | .ok t total => unpackLoop read (later (later^[pre.length] fault)) post t total
      | r => r := by
  have hcons :=
    unpackLoop_cons read (later^[pre.length] fault) e post (layout base pre) (volume pre)
  rw [strikes_iterate_later] at hcons
  rw [hes, (unpackLoop_went read h).2]
  exact hcons

theorem unpackLoop_of_went (read : ℕ → ℕ) (h : Went base fault es) :
    unpackLoop read fault es base 0 = .ok (layout base es) (volume es) := by
  have hloop := (unpackLoop_went read h).2 []
  rw [List.append_nil] at hloop
  exact hloop

theorem unpackLoop_of_cuts (read : ℕ → ℕ) (hes : es = pre ++ e :: post) (h : Went base fault pre)
    {crash : Bool} {tree : FileTree}
    (hc : Cuts base pre e (strikes fault pre.length) crash tree) :
    ∃ err, unpackLoop read fault es base 0 = if crash then .crashed tree else .left tree err := by
  obtain ⟨err, heq⟩ := unpackEntry_cuts read hc (unpackLoop_went read h).1
  refine ⟨err, ?_⟩
  rw [unpackLoop_at read hes h, heq]
  cases crash <;> rfl

theorem unpackLoop_of_deletes (hes : es = pre ++ e :: post) (h : Went base fault pre)
    {tree : FileTree} (hd : Deletes read base pre e (strikes fault pre.length) tree) :
    ∃ err, unpackLoop read fault es base 0 = .deleted tree err := by
  obtain ⟨err, heq⟩ := unpackEntry_deletes hd (unpackLoop_went read h).1
  exact ⟨err, by rw [unpackLoop_at read hes h, heq]⟩

end Loop

/-- How the loop ends, and what the archive and the fault say about it. -/
inductive UnpackEnds (read : ℕ → ℕ) (base : FileTree) (fault : Option (ℕ × EntryPoint × Bool))
    (es : List ZipEntry) : Unpacked → Prop
  | ok (h : Went base fault es) :
      UnpackEnds read base fault es (.ok (layout base es) (volume es))
  | left {pre post : List ZipEntry} {e : ZipEntry} {tree : FileTree} (err : InstallError)
      (hes : es = pre ++ e :: post) (h : Went base fault pre)
      (hc : Cuts base pre e (strikes fault pre.length) false tree) :
      UnpackEnds read base fault es (.left tree err)
  | crashed {pre post : List ZipEntry} {e : ZipEntry} {tree : FileTree}
      (hes : es = pre ++ e :: post) (h : Went base fault pre)
      (hc : Cuts base pre e (strikes fault pre.length) true tree) :
      UnpackEnds read base fault es (.crashed tree)
  | deleted {pre post : List ZipEntry} {e : ZipEntry} {tree : FileTree} (err : InstallError)
      (hes : es = pre ++ e :: post) (h : Went base fault pre)
      (hd : Deletes read base pre e (strikes fault pre.length) tree) :
      UnpackEnds read base fault es (.deleted tree err)

theorem unpackLoop_cases (read : ℕ → ℕ) (base : FileTree)
    (fault : Option (ℕ × EntryPoint × Bool)) (es : List ZipEntry) :
    UnpackEnds read base fault es (unpackLoop read fault es base 0) := by
  rcases went_or_split base fault es with h | ⟨pre, e, post, hes, h, hnot⟩
  · rw [unpackLoop_of_went read h]
    exact .ok h
  · rcases cuts_or_deletes read hnot with ⟨crash, tree, hc⟩ | ⟨tree, hd⟩
    · obtain ⟨err, hloop⟩ := unpackLoop_of_cuts read hes h hc
      rw [hloop]
      cases crash with
      | true => exact .crashed hes h hc
      | false => exact .left err hes h hc
    · obtain ⟨err, hloop⟩ := unpackLoop_of_deletes hes h hd
      rw [hloop]
      exact .deleted err hes h hd

/-! ### The whole install -/

theorem manifestOf_empty : manifestOf D ∅ = none := rfl

/-- Deleting some of the files does not make the manifest valid. -/
theorem manifestOf_remains {survivors : Option (List JString → Bool)} {t t' : FileTree}
    (h : manifestOf D t = none) (hr : remains survivors t = some t') : manifestOf D t' = none := by
  obtain ⟨keep, -, rfl⟩ := Option.map_eq_some_iff.1 hr
  unfold manifestOf at h ⊢
  rw [lookup_collect]
  cases hl : t.lookup manifestPath with
  | none => rfl
  | some node =>
    rw [hl] at h
    rw [Option.bind_some]
    split_ifs
    · exact h
    · rfl

theorem manifestOf_rest {r : InstallRequest} {old : Option FileTree} {t : FileTree}
    (hold : ∀ t, old = some t → manifestOf D t = none) (h : r.rest old = some t) :
    manifestOf D t = none := by
  obtain ⟨t', ht', hr⟩ := Option.bind_eq_some_iff.1 h
  exact manifestOf_remains (hold t' ht') hr

theorem manifestOf_target {r : InstallRequest} {old : Option FileTree}
    (hold : ∀ t, old = some t → manifestOf D t = none) :
    manifestOf D (r.target old) = none := by
  unfold InstallRequest.target
  cases h : r.rest old with
  | none => exact manifestOf_empty
  | some t => exact manifestOf_rest hold h

/-- Unpacking starts from nothing where the older directory is deleted. -/
theorem target_of_wiped {r : InstallRequest} (h : r.wiped = none) (old : Option FileTree) :
    r.target old = ∅ := by
  unfold InstallRequest.target InstallRequest.rest
  rw [h]
  cases old <;> rfl

/-- The outcome leaves no valid `module.json` behind without having completed. -/
def Tidy (D : Device Key) : Outcome → Prop
  | .cleared _ rest _ _ => ∀ t, rest = some t → manifestOf D t = none
  | .left _ tree _ _ => manifestOf D tree = none
  | .registered _ _ _ _ save crash => save = .ok ∧ crash = false
  | .refused _ => True

/-- The checks of `install` before the mutex let the package through. -/
structure Admitted (D : Device Key) (r : InstallRequest) (zip : ZipFile)
    (manifest : ModuleManifest) : Prop where
  fileExists : r.fileExists = true
  isAvm : (ofString ".avm").isSuffixOf r.fileName = true
  archive : r.archive = .ok zip
  decoded : ∃ entry, zip.getEntry (ofString "module.json") = some entry ∧
    validateManifest D (D.platform.decode entry.content) = .ok manifest
  safeId : isModuleId manifest.name = true
  trusted : (TrustGate.evaluate r.sourceHash true manifest.api
    (verifySignature D r.archive)).isInstallable true = true

/-- What is admitted gets to the mutex, with its report and its level. -/
theorem installOutcome_of_admitted {D : Device Key} {r : InstallRequest} {zip : ZipFile}
    {manifest : ModuleManifest} (h : Admitted D r zip manifest) (installed : JString → Bool)
    (old : JString → Option FileTree) :
    installOutcome D r installed old =
      installLocked D r (installed manifest.name) (old manifest.name) zip manifest
        (TrustGate.evaluate r.sourceHash true manifest.api (verifySignature D r.archive))
        (resolveTrustLevel (verifySignature D r.archive)
          (ModuleSignatureVerifier.verify D.platform r.archive D.pinnedPublicKeyB64
            r.trustedKeys).trustLevel) := by
  obtain ⟨hex, havm, harch, ⟨entry, hentry, hman⟩, hid, htrust⟩ := h
  rw [harch] at htrust
  unfold installOutcome
  simp only [hex, havm, harch, hentry, hman, hid, htrust, if_false, Bool.true_eq_false]

/-- `install` refuses the package, or admits it and goes on under the mutex. -/
theorem installOutcome_cases (D : Device Key) (r : InstallRequest) (installed : JString → Bool)
    (old : JString → Option FileTree) :
    (∃ e, installOutcome D r installed old = .refused e) ∨
      ∃ zip manifest level, Admitted D r zip manifest ∧
        installOutcome D r installed old =
          installLocked D r (installed manifest.name) (old manifest.name) zip manifest
            (TrustGate.evaluate r.sourceHash true manifest.api (verifySignature D r.archive))
            level := by
  unfold installOutcome
  split_ifs with hex havm
  · exact Or.inl ⟨_, rfl⟩
  · exact Or.inl ⟨_, rfl⟩
  cases harch : r.archive with
  | error message => exact Or.inl ⟨_, rfl⟩
  | ok zip =>
    simp only
    cases hentry : zip.getEntry (ofString "module.json") with
    | none => exact Or.inl ⟨_, rfl⟩
    | some entry =>
      simp only
      cases hman : validateManifest D (D.platform.decode entry.content) with
      | error e => exact Or.inl ⟨_, rfl⟩
      | ok manifest =>
        simp only
        split_ifs with hid hgate
        · exact Or.inl ⟨_, rfl⟩
        · exact Or.inl ⟨_, rfl⟩
        · refine Or.inr ⟨zip, manifest, _, ⟨?_, ?_, harch, ⟨entry, hentry, hman⟩, ?_, ?_⟩, rfl⟩
          all_goals simp_all

/-- The fault, if it belongs to the loop. -/
def unpackFault : Option InstallFault → Option (ℕ × EntryPoint × Bool)
  | some (.unpack entry point crash) => some (entry, point, crash)
  | _ => none

/-- No fault strikes before the target directory is made. -/
def Prepares (r : InstallRequest) : Prop := ∀ crash, r.fault ≠ some (.prepared crash)

/-- `install` under the mutex, once the directory is prepared. -/
theorem installLocked_eq {r : InstallRequest} (old : Option FileTree) (zip : ZipFile)
    (manifest : ModuleManifest) (report : TrustReport) (level : TrustLevel) (hprep : Prepares r) :
    installLocked D r false old zip manifest report level =
      match unpack r.read (unpackFault r.fault) (r.target old) zip.entries with
      | .left tree e => .left manifest.name tree false e
      | .deleted tree e => cleared r manifest.name tree e
      | .crashed tree => .left manifest.name tree true .died
      | .ok tree _ =>
          match r.fault with
          | some .unpacked => .left manifest.name tree true .died
          | _ =>
              match validatePackage D tree r.outside with
              | none => cleared r manifest.name tree .badPackage
              | some _ => register D r manifest report level tree := by
  unfold installLocked
  rcases hf : r.fault with - | f
  · rfl
  · cases f with
    | prepared crash => exact absurd hf (hprep crash)
    | unpack entry point crash => rfl
    | unpacked => rfl
    | permissions crash => rfl
    | save result crash => rfl

/-- Nothing valid is left of a tree that is deleted. -/
def Clears (D : Device Key) (r : InstallRequest) (tree : FileTree) : Prop :=
  ∀ t, remains r.cleaned.survivors tree = some t → manifestOf D t = none

/-- Where the install is cut off, the files unpacked by then have no valid `module.json`; where it
deletes the directory, no valid one survives; and nothing goes wrong once the whole package is
unpacked and valid. -/
structure LeavesNothing (D : Device Key) (r : InstallRequest) (base : FileTree) (zip : ZipFile) :
    Prop where
  cut : ∀ pre e post crash tree, zip.entries = pre ++ e :: post →
    Went base (unpackFault r.fault) pre →
    Cuts base pre e (strikes (unpackFault r.fault) pre.length) crash tree →
    manifestOf D tree = none
  deletes : ∀ pre e post tree, zip.entries = pre ++ e :: post →
    Went base (unpackFault r.fault) pre →
    Deletes r.read base pre e (strikes (unpackFault r.fault) pre.length) tree → Clears D r tree
  unpacked : Went base (unpackFault r.fault) zip.entries → r.fault = some .unpacked →
    manifestOf D (layout base zip.entries) = none
  invalid : Went base (unpackFault r.fault) zip.entries → r.fault ≠ some .unpacked →
    validatePackage D (layout base zip.entries) r.outside = none →
    Clears D r (layout base zip.entries)
  permissions : Went base (unpackFault r.fault) zip.entries →
    (validatePackage D (layout base zip.entries) r.outside).isSome = true →
    ∀ crash, r.fault ≠ some (.permissions crash)
  save : Went base (unpackFault r.fault) zip.entries →
    (validatePackage D (layout base zip.entries) r.outside).isSome = true →
    ∀ result crash, r.fault = some (.save result crash) → result = .ok ∧ crash = false

/-- Nothing is cut off where all entries pass and there is no fault; if the package is not valid,
its directory is deleted. -/
theorem leavesNothing_of_went {r : InstallRequest} {base : FileTree} {zip : ZipFile}
    (hf : r.fault = none) (hw : Went base none zip.entries)
    (hclean : r.cleaned.survivors = none) : LeavesNothing D r base zip := by
  have hloop := unpackLoop_of_went r.read hw
  have hclears : ∀ tree, Clears D r tree := by
    intro tree t ht
    rw [hclean] at ht
    cases ht
  constructor
  case cut =>
    intro pre e post crash tree hes hpre hc
    rw [hf] at hpre hc
    obtain ⟨err, heq⟩ := unpackLoop_of_cuts r.read hes hpre hc
    have hne := hloop.symm.trans heq
    cases crash <;> cases hne
  case deletes => exact fun _ _ _ tree _ _ _ => hclears tree
  case invalid => exact fun _ _ _ => hclears _
  all_goals rw [hf]; nofun

theorem tidy_cleared {r : InstallRequest} {id : JString} {tree : FileTree} {e : InstallError}
    (h : Clears D r tree) : Tidy D (cleared r id tree e) := h

theorem tidy_register {r : InstallRequest} {manifest : ModuleManifest} {report : TrustReport}
    {level : TrustLevel} {tree : FileTree} (hperm : ∀ crash, r.fault ≠ some (.permissions crash))
    (hsave : ∀ result crash, r.fault = some (.save result crash) → result = .ok ∧ crash = false) :
    Tidy D (register D r manifest report level tree) := by
  unfold register
  rcases hf : r.fault with - | f
  · exact ⟨rfl, rfl⟩
  · cases f with
    | permissions crash => exact absurd hf (hperm crash)
    | save result crash => exact hsave result crash hf
    | prepared crash => exact ⟨rfl, rfl⟩
    | unpack entry point crash => exact ⟨rfl, rfl⟩
    | unpacked => exact ⟨rfl, rfl⟩

/-- Under the mutex; a directory that stands for no module was not valid before. -/
theorem tidy_installLocked {r : InstallRequest} {zip : ZipFile} {manifest : ModuleManifest}
    {report : TrustReport} {level : TrustLevel} {installed : Bool} {old : Option FileTree}
    (hold : installed = false → ∀ t, old = some t → manifestOf D t = none)
    (h : installed = false → Prepares r → zip.entries.length ≤ maxEntries →
      LeavesNothing D r (r.target old) zip) :
    Tidy D (installLocked D r installed old zip manifest report level) := by
  cases installed with
  | true => exact trivial
  | false =>
    by_cases hprep : Prepares r
    swap
    · obtain ⟨crash, hf⟩ : ∃ crash, r.fault = some (.prepared crash) := by
        by_contra hno
        exact hprep fun crash hf => hno ⟨crash, hf⟩
      unfold installLocked
      rw [hf]
      exact fun t ht => manifestOf_rest (hold rfl) ht
    rw [installLocked_eq old zip manifest report level hprep, unpack]
    by_cases hfew : zip.entries.length ≤ maxEntries
    swap
    · rw [if_pos (not_le.1 hfew)]
      exact manifestOf_target (hold rfl)
    have hl := h rfl hprep hfew
    have hends := unpackLoop_cases r.read (r.target old) (unpackFault r.fault) zip.entries
    rw [if_neg (not_lt.2 hfew)]
    generalize unpackLoop r.read (unpackFault r.fault) zip.entries (r.target old) 0 = u at hends ⊢
    cases hends with
    | left err hes hpre hc => exact hl.cut _ _ _ _ _ hes hpre hc
    | crashed hes hpre hc => exact hl.cut _ _ _ _ _ hes hpre hc
    | deleted err hes hpre hd => exact tidy_cleared (hl.deletes _ _ _ _ hes hpre hd)
    | ok hw =>
      simp only
      split
      · next hun => exact hl.unpacked hw hun
      · next hun =>
        cases hv : validatePackage D (layout (r.target old) zip.entries) r.outside with
        | none => exact tidy_cleared (hl.invalid hw hun hv)
        | some m =>
          have hsome :
              (validatePackage D (layout (r.target old) zip.entries) r.outside).isSome = true := by
            rw [hv]
            rfl
          exact tidy_register (hl.permissions hw hsome) (hl.save hw hsome)

theorem tidy_installOutcome {r : InstallRequest} {installed : JString → Bool}
    {old : JString → Option FileTree}
    (hold : ∀ id, installed id = false → ∀ t, old id = some t → manifestOf D t = none)
    (h : ∀ zip manifest, Admitted D r zip manifest → installed manifest.name = false →
      Prepares r → zip.entries.length ≤ maxEntries →
      LeavesNothing D r (r.target (old manifest.name)) zip) :
    Tidy D (installOutcome D r installed old) := by
  rcases installOutcome_cases D r installed old with ⟨e, he⟩ | ⟨zip, manifest, level, hadm, he⟩
  · rw [he]
    exact trivial
  · rw [he]
    exact tidy_installLocked (hold manifest.name) (h zip manifest hadm)

end AstraVeil.Modules
