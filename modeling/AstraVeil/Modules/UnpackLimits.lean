import AstraVeil.Modules.FailedInstall

/-!
# The limits of unpacking

`ModuleManager.install` limits the entries of a package, the size of a file and the bytes of all
files.  The size of a file is held against what the archive declares, the bytes of all files against
a count of those that are written.  Here unpacking keeps a log of its calls of `os.write`.

* `unpackLogged`, `unpackLogged_snd`: unpacking with the log, which changes nothing else;
* `Limits`: what the limits are for, on the bytes of the log;
* `Understated`: an entry that declares an acceptable size and is too long;
* `limits_install_iff`: the limits hold unless all checks are passed by a package with such an
  entry.
-/

namespace AstraVeil.Modules

open Utf16 KotlinString Finmaps

variable {Key : Type} {D : Device Key}

/-! ### Unpacking with a log -/

/-- A round of the loop over the entries, with the arguments of the calls of `os.write`. -/
structure Round where
  entry : ZipEntry
  chunks : List (List UInt8)

/-- The bytes written in the round. -/
def Round.written (r : Round) : List UInt8 := r.chunks.flatten

/-- All calls of `os.write`, in order. -/
def writes (log : List Round) : List (List UInt8) := log.flatMap Round.chunks

/-- `copyLoop` with its calls of `os.write`. -/
def copyLogged (read : ℕ → ℕ) :
    ℕ → List UInt8 → ℕ → List UInt8 → List (List UInt8) × List UInt8 × Option ℕ
  | 0, written, total, _ => ([], written, some total)
  | fuel + 1, written, total, rest =>
      if rest = [] then ([], written, some total)
      else
        let n := min (max 1 (read total)) (min 8192 rest.length)
        if total + n > maxTotalBytes then ([], written, none)
        else
          let r := copyLogged read fuel (written ++ rest.take n) (total + n) (rest.drop n)
          (rest.take n :: r.1, r.2)

/-- `copied` with its calls of `os.write`. -/
def copiedLogged (read : ℕ → ℕ) (total : ℕ) (content : List UInt8) :
    List (List UInt8) × List UInt8 × Option ℕ :=
  copyLogged read (content.length + 1) [] total content

/-- `unpackEntry` with its calls of `os.write`. -/
def unpackEntryLogged (read : ℕ → ℕ) (t : FileTree) (total : ℕ) (e : ZipEntry)
    (fault : Option (EntryPoint × Bool)) : List (List UInt8) × Unpacked :=
  match fault with
  | some (.start, crash) => ([], stop crash t)
  | _ =>
      if isSafeName e.name = false then ([], .left t (.unsafePath e.name))
      else if e.isDirectory then ([], .ok (mkdirs (resolve e.name) t) total)
      else if e.size > maxSingleFileBytes then ([], .deleted t (.fileTooLarge e.name e.size))
      else
        let t := mkdirs (parentOf e.name) t
        match fault with
        | some (.parents, crash) => ([], stop crash t)
        | some (.written n, crash) =>
            match openFile e.name t with
            | none => ([], stop crash t)
            | some t =>
                -- the fault strikes behind the first `n` bytes
                let copy := copiedLogged read total (e.content.take n)
                let t := t.insert (resolve e.name) (.file copy.2.1)
                (copy.1,
                  match copy.2.2 with
                  | none => .deleted t .totalTooLarge
                  | some _ => stop crash t)
        | _ =>
            match openFile e.name t with
            | none => ([], .left t .io)
            | some t =>
                let copy := copiedLogged read total e.content
                let t := t.insert (resolve e.name) (.file copy.2.1)
                (copy.1,
                  match copy.2.2 with
                  | none => .deleted t .totalTooLarge
                  | some total =>
                      if e.compressedSize > 0 ∧
                          e.size > maxCompressionRatio * e.compressedSize then
                        .deleted t (.suspiciousRatio e.name)
                      else .ok t total)

/-- `unpackLoop` with its log. -/
def unpackLoopLogged (read : ℕ → ℕ) :
    Option (ℕ × EntryPoint × Bool) → List ZipEntry → FileTree → ℕ → List Round × Unpacked
  | _, [], t, total => ([], .ok t total)
  | fault, e :: es, t, total =>
      match unpackEntryLogged read t total e (strikes fault 0) with
      | (chunks, .ok t total) =>
          let r := unpackLoopLogged read (later fault) es t total
          (⟨e, chunks⟩ :: r.1, r.2)
      | (chunks, r) => ([⟨e, chunks⟩], r)

/-- `unpack` with its log. -/
def unpackLogged (read : ℕ → ℕ) (fault : Option (ℕ × EntryPoint × Bool)) (t : FileTree)
    (entries : List ZipEntry) : List Round × Unpacked :=
  if entries.length > maxEntries then ([], .left t (.tooManyEntries entries.length))
  else unpackLoopLogged read fault entries t 0

variable {read : ℕ → ℕ}

/-- The copy loop, however the bytes come: the total stays within its limit, the file holds what is
written, and the result is that of `copyLoop`. -/
theorem copyLogged_spec (read : ℕ → ℕ) (fuel : ℕ) (written rest : List UInt8) {total : ℕ}
    (htotal : total ≤ maxTotalBytes) :
    total + (copyLogged read fuel written total rest).1.flatten.length ≤ maxTotalBytes ∧
      (copyLogged read fuel written total rest).2 = copyLoop read fuel written total rest ∧
      (copyLoop read fuel written total rest).1 =
        written ++ (copyLogged read fuel written total rest).1.flatten := by
  induction fuel generalizing written total rest with
  | zero => exact ⟨htotal, rfl, by simp [copyLoop, copyLogged]⟩
  | succ fuel ih =>
    unfold copyLogged copyLoop
    by_cases hrest : rest = []
    · rw [if_pos hrest, if_pos hrest]
      exact ⟨htotal, rfl, by simp⟩
    simp only [if_neg hrest]
    obtain ⟨n, hn⟩ : ∃ n, n = min (max 1 (read total)) (min 8192 rest.length) := ⟨_, rfl⟩
    rw [← hn]
    by_cases hover : total + n > maxTotalBytes
    · rw [if_pos hover, if_pos hover]
      exact ⟨htotal, rfl, by simp⟩
    · obtain ⟨hbound, hres, hfile⟩ := ih (written ++ rest.take n) (rest.drop n) (not_lt.1 hover)
      have htake : (rest.take n).length = n := by
        rw [List.length_take]
        omega
      rw [if_neg hover, if_neg hover]
      refine ⟨?_, hres, ?_⟩
      · rw [List.flatten_cons, List.length_append, htake, ← Nat.add_assoc]
        exact hbound
      · rw [hfile, List.flatten_cons, List.append_assoc]

/-- The same on an empty file; everything is copied if it fits. -/
theorem copiedLogged_spec (read : ℕ → ℕ) {total : ℕ} (content : List UInt8)
    (htotal : total ≤ maxTotalBytes) :
    total + (copiedLogged read total content).1.flatten.length ≤ maxTotalBytes ∧
      (total + content.length ≤ maxTotalBytes →
        (copiedLogged read total content).1.flatten = content) ∧
      (copiedLogged read total content).2 = copied read total content := by
  obtain ⟨hbound, hres, hfile⟩ :=
    copyLogged_spec read (content.length + 1) [] content htotal
  refine ⟨hbound, fun h => ?_, hres⟩
  have hall : (copied read total content).1 = content := by rw [copied_of_le h]
  exact (hfile.symm.trans hall)

/-! ### One round -/

/-- What a round writes and how it ends, given how it ends without the log. -/
structure RoundSpec (total : ℕ) (e : ZipEntry) (r : List (List UInt8) × Unpacked)
    (u : Unpacked) : Prop where
  bound : total + r.1.flatten.length ≤ maxTotalBytes
  whole : ∀ t' total', r.2 = .ok t' total' →
    total' = total + r.1.flatten.length ∧ r.1.flatten = if e.isDirectory then [] else e.content
  erased : r.2 = u

theorem roundSpec_failed {total : ℕ} {e : ZipEntry} {u : Unpacked} {chunks : List (List UInt8)}
    (hbound : total + chunks.flatten.length ≤ maxTotalBytes) (hu : ∀ t' total', u ≠ .ok t' total') :
    RoundSpec total e (chunks, u) u where
  bound := hbound
  whole := fun t' total' h => absurd h (hu t' total')
  erased := rfl

theorem stop_ne_ok (crash : Bool) (t t' : FileTree) (total : ℕ) : stop crash t ≠ .ok t' total := by
  cases crash <;> simp [stop]

/-- Without a fault, a file is copied as far as the total allows. -/
theorem roundSpec_file {t : FileTree} {total : ℕ} {e : ZipEntry} (htotal : total ≤ maxTotalBytes)
    (ho : IsOpened e none) :
    RoundSpec total e (unpackEntryLogged read t total e none)
      (unpackEntry read t total e none) := by
  obtain ⟨hbound, hwhole, hres⟩ := copiedLogged_spec read e.content htotal
  simp only [unpackEntryLogged, unpackEntry, ho.safe, ho.file, not_lt.2 ho.size, if_false,
    Bool.true_eq_false, Bool.false_eq_true]
  cases openFile e.name (mkdirs (parentOf e.name) t) with
  | none => exact roundSpec_failed htotal (by simp)
  | some t' =>
    simp only [hres]
    by_cases hfits : total + e.content.length ≤ maxTotalBytes
    · rw [copied_of_le hfits]
      by_cases hr : e.compressedSize > 0 ∧ e.size > maxCompressionRatio * e.compressedSize
      · simp only [if_pos hr]
        exact roundSpec_failed hbound (by simp)
      · simp only [if_neg hr]
        refine ⟨hbound, fun t'' total'' h => ?_, rfl⟩
        injection h with _ htot
        rw [hwhole hfits]
        simp [ho.file, htot]
    · simp only [copied_of_gt htotal (not_le.1 hfits)]
      exact roundSpec_failed hbound (by simp)

/-- A fault in the middle of a file: what is written by then has been counted. -/
theorem roundSpec_written {t : FileTree} {total n : ℕ} {e : ZipEntry} {crash : Bool}
    (htotal : total ≤ maxTotalBytes) (ho : IsOpened e (some (.written n, crash))) :
    RoundSpec total e (unpackEntryLogged read t total e (some (.written n, crash)))
      (unpackEntry read t total e (some (.written n, crash))) := by
  obtain ⟨hbound, -, hres⟩ := copiedLogged_spec read (e.content.take n) htotal
  simp only [unpackEntryLogged, unpackEntry, ho.safe, ho.file, not_lt.2 ho.size, if_false,
    Bool.true_eq_false, Bool.false_eq_true]
  cases openFile e.name (mkdirs (parentOf e.name) t) with
  | none => exact roundSpec_failed htotal (stop_ne_ok crash _)
  | some t' =>
    simp only [hres]
    refine roundSpec_failed hbound fun t'' total'' => ?_
    cases (copied read total (e.content.take n)).2 with
    | none => simp
    | some total' => exact stop_ne_ok crash _ t'' total''

/-- Nothing is written where no file is opened. -/
theorem roundSpec_unopened {t : FileTree} {total : ℕ} {e : ZipEntry}
    {fault : Option (EntryPoint × Bool)} (htotal : total ≤ maxTotalBytes)
    (ho : ¬ IsOpened e fault) :
    RoundSpec total e (unpackEntryLogged read t total e fault)
      (unpackEntry read t total e fault) := by
  unfold unpackEntryLogged unpackEntry
  rcases fault with - | ⟨start | parents | n, crash⟩
  case some.start => exact roundSpec_failed htotal (stop_ne_ok crash t)
  -- the other faults strike behind the checks
  all_goals
    by_cases hs : isSafeName e.name = false
    · simp only [if_pos hs]
      exact roundSpec_failed htotal (by simp)
    by_cases hd : e.isDirectory = true
    · simp only [if_neg hs, if_pos hd]
      refine ⟨htotal, fun t' total' h => ?_, rfl⟩
      injection h with _ htot
      simp [hd, htot]
    by_cases hz : e.size > maxSingleFileBytes
    · simp only [if_neg hs, if_neg hd, if_pos hz]
      exact roundSpec_failed htotal (by simp)
    exact absurd ⟨by simp, by simpa using hs, by simpa using hd, not_lt.1 hz⟩ ho

theorem roundSpec_unpackEntry (read : ℕ → ℕ) (t : FileTree) {total : ℕ}
    (htotal : total ≤ maxTotalBytes) (e : ZipEntry) (fault : Option (EntryPoint × Bool)) :
    RoundSpec total e (unpackEntryLogged read t total e fault)
      (unpackEntry read t total e fault) := by
  by_cases ho : IsOpened e fault
  · rcases fault with - | ⟨point, crash⟩
    · exact roundSpec_file htotal ho
    · cases point with
      | start => exact absurd rfl (ho.notStart crash)
      | written n => exact roundSpec_written htotal ho
      | parents =>
        simp only [unpackEntryLogged, unpackEntry, ho.safe, ho.file, not_lt.2 ho.size, if_false,
          Bool.true_eq_false, Bool.false_eq_true]
        exact roundSpec_failed htotal (stop_ne_ok crash _)
  · exact roundSpec_unopened htotal ho

/-! ### The loop -/

/-- What the loop writes and how it ends, given how it ends without the log. -/
structure LoopSpec (total : ℕ) (es : List ZipEntry) (r : List Round × Unpacked)
    (u : Unpacked) : Prop where
  bound : total + (writes r.1).flatten.length ≤ maxTotalBytes
  whole : ∀ t' total', r.2 = .ok t' total' → r.1.map Round.entry = es ∧
    ∀ round ∈ r.1, round.written = if round.entry.isDirectory then [] else round.entry.content
  erased : r.2 = u

theorem length_writes_cons (r : Round) (log : List Round) :
    (writes (r :: log)).flatten.length = r.written.length + (writes log).flatten.length := by
  simp [writes, Round.written]

/-- The round that ends the loop. -/
theorem RoundSpec.toLoopSpec {total : ℕ} {e : ZipEntry} {es : List ZipEntry}
    {chunks : List (List UInt8)} {r u : Unpacked} (h : RoundSpec total e (chunks, r) u)
    (hr : ∀ t' total', r ≠ .ok t' total') :
    LoopSpec total (e :: es) ([⟨e, chunks⟩], r) u where
  bound := by
    rw [length_writes_cons]
    exact h.bound
  whole := fun t' total' hok => absurd hok (hr t' total')
  erased := h.erased

/-- By induction on the entries; the total is what has been written so far. -/
theorem loopSpec_unpackLoop (read : ℕ → ℕ) (fault : Option (ℕ × EntryPoint × Bool))
    (es : List ZipEntry) (t : FileTree) {total : ℕ} (htotal : total ≤ maxTotalBytes) :
    LoopSpec total es (unpackLoopLogged read fault es t total)
      (unpackLoop read fault es t total) := by
  induction es generalizing fault t total with
  | nil => exact ⟨htotal, fun t' total' _ => ⟨rfl, by simp [unpackLoopLogged]⟩, rfl⟩
  | cons e es ih =>
    have hround := roundSpec_unpackEntry read t htotal e (strikes fault 0)
    rw [unpackLoop_cons]
    unfold unpackLoopLogged
    generalize unpackEntry read t total e (strikes fault 0) = u at hround ⊢
    generalize unpackEntryLogged read t total e (strikes fault 0) = r at hround ⊢
    obtain ⟨chunks, r⟩ := r
    obtain rfl : r = u := hround.erased
    cases r with
    | left t' err => exact hround.toLoopSpec (by simp)
    | deleted err => exact hround.toLoopSpec (by simp)
    | crashed t' => exact hround.toLoopSpec (by simp)
    | ok t' total' =>
      obtain ⟨htot, hwritten⟩ := hround.whole t' total' rfl
      have hloop := ih (later fault) t' (htot.le.trans hround.bound)
      refine ⟨?_, fun t'' total'' hok => ?_, hloop.erased⟩
      · have hsum : total + (Round.mk e chunks).written.length = total' := htot.symm
        rw [length_writes_cons, ← Nat.add_assoc, hsum]
        exact hloop.bound
      · obtain ⟨hentries, hrounds⟩ := hloop.whole t'' total'' hok
        refine ⟨by rw [List.map_cons, hentries], fun round hmem => ?_⟩
        rcases List.mem_cons.1 hmem with rfl | hmem
        · exact hwritten
        · exact hrounds round hmem

/-- The log changes nothing. -/
theorem unpackLogged_snd (read : ℕ → ℕ) (fault : Option (ℕ × EntryPoint × Bool)) (t : FileTree)
    (entries : List ZipEntry) :
    (unpackLogged read fault t entries).2 = unpack read fault t entries := by
  unfold unpackLogged unpack
  split_ifs
  · rfl
  · exact (loopSpec_unpackLoop read fault entries t (Nat.zero_le _)).erased

example : writes (unpackLogged (fun _ => 2) none ∅
    [ModuleSignatureVerifier.sampleEntry "lib/" [],
      ModuleSignatureVerifier.sampleEntry "lib/a" [1, 2, 3]]).1 = [[1, 2], [3]] := by
  decide

/-- However unpacking ends, the bytes written fit the limit on the total. -/
theorem length_writes_unpackLogged (read : ℕ → ℕ) (fault : Option (ℕ × EntryPoint × Bool))
    (t : FileTree) (entries : List ZipEntry) :
    (writes (unpackLogged read fault t entries).1).flatten.length ≤ maxTotalBytes := by
  unfold unpackLogged
  split_ifs
  · exact Nat.zero_le _
  · have hbound := (loopSpec_unpackLoop read fault entries t (Nat.zero_le _)).bound
    rwa [Nat.zero_add] at hbound

/-- Unpacking ends well where there are not too many entries and the loop gets past all of them. -/
theorem unpack_eq_ok_iff {fault : Option (ℕ × EntryPoint × Bool)} {base : FileTree}
    {entries : List ZipEntry} {tree : FileTree} {total : ℕ} :
    unpack read fault base entries = .ok tree total ↔
      entries.length ≤ maxEntries ∧ Went base fault entries ∧ tree = layout base entries ∧
        total = volume entries := by
  unfold unpack
  constructor
  · intro h
    split_ifs at h with hlen
    have hends := unpackLoop_cases read base fault entries
    rw [h] at hends
    cases hends with
    | ok hwent => exact ⟨not_lt.1 hlen, hwent, rfl, rfl⟩
  · rintro ⟨hlen, hwent, rfl, rfl⟩
    rw [if_neg (not_lt.2 hlen), unpackLoop_of_went read hwent]

/-- Every file of a layout was there before, or has the bytes of an entry. -/
theorem lookup_layout_file {base : FileTree} {entries : List ZipEntry} {path : List JString}
    {content : List UInt8} (h : (layout base entries).lookup path = some (.file content)) :
    base.lookup path = some (.file content) ∨
      ∃ e ∈ entries, e.isDirectory = false ∧ e.content = content := by
  induction entries using List.reverseRecOn with
  | nil => exact .inl h
  | append_singleton es e ih =>
    rw [layout_snoc] at h
    have hold : (layout base es).lookup path = some (.file content) →
        base.lookup path = some (.file content) ∨
          ∃ e' ∈ es ++ [e], e'.isDirectory = false ∧ e'.content = content := by
      intro hes
      refine (ih hes).imp_right ?_
      rintro ⟨e', hmem, he'⟩
      exact ⟨e', List.mem_append_left _ hmem, he'⟩
    unfold addEntry at h
    split_ifs at h with hd
    · exact hold ((lookup_mkdirsFrom_file _ _ _ _ _).1 h)
    · by_cases hp : path = resolve e.name
      · rw [hp, AList.lookup_insert] at h
        injection h with h
        injection h with h
        exact .inr ⟨e, by simp, by simpa using hd, h⟩
      · rw [AList.lookup_insert_ne hp] at h
        exact hold ((lookup_mkdirsFrom_file _ _ _ _ _).1 h)

/-! ### The limits -/

/-- The limits, on the bytes that are written and on the files that are new. -/
structure Limits (base : FileTree) (log : List Round) (u : Unpacked) : Prop where
  entries : ∀ tree total, u = .ok tree total → log.length ≤ maxEntries
  total : ∀ tree total, u = .ok tree total → (writes log).flatten.length ≤ maxTotalBytes
  single : ∀ tree total, u = .ok tree total →
    ∀ r ∈ log, (r.written.length : ℤ) ≤ maxSingleFileBytes
  onDisk : ∀ tree total, u = .ok tree total → ∀ path content,
    tree.lookup path = some (.file content) →
      base.lookup path = some (.file content) ∨ (content.length : ℤ) ≤ maxSingleFileBytes
  failing : (∀ tree total, u ≠ .ok tree total) →
    ∀ done, done <+: writes log → done.flatten.length ≤ maxTotalBytes

/-- A file that declares an acceptable size and is too long. -/
def Understated (e : ZipEntry) : Prop :=
  e.isDirectory = false ∧ e.size ≤ maxSingleFileBytes ∧ maxSingleFileBytes < e.content.length

section

variable {fault : Option (ℕ × EntryPoint × Bool)} {base : FileTree} {entries : List ZipEntry}

/-- What is logged when unpacking ends well: each entry, with its bytes if it is a file. -/
theorem rounds_of_ok {tree : FileTree} {total : ℕ}
    (h : unpack read fault base entries = .ok tree total) :
    (unpackLogged read fault base entries).1.map Round.entry = entries ∧
      ∀ r ∈ (unpackLogged read fault base entries).1,
        r.written = if r.entry.isDirectory then [] else r.entry.content := by
  have hlen : ¬ entries.length > maxEntries := not_lt.2 (unpack_eq_ok_iff.1 h).1
  have hok : (unpackLoopLogged read fault entries base 0).2 = .ok tree total := by
    rw [← h, ← unpackLogged_snd, unpackLogged, if_neg hlen]
  rw [unpackLogged, if_neg hlen]
  exact (loopSpec_unpackLoop read fault entries base (Nat.zero_le _)).whole tree total hok

/-- What the loop gets past has declared an acceptable size. -/
theorem understated_of_went (h : Went base fault entries) {e : ZipEntry} (he : e ∈ entries)
    (hd : e.isDirectory = false) (hlong : maxSingleFileBytes < e.content.length) :
    Understated e := by
  obtain ⟨pre, post, hes⟩ := List.append_of_mem he
  obtain ⟨⟨-, hfile⟩, -⟩ := h pre e post hes
  exact ⟨hd, (hfile hd).1, hlong⟩

theorem limits_unpackLogged
    (h : entries.length ≤ maxEntries → Went base fault entries → ∀ e ∈ entries, ¬ Understated e) :
    Limits base (unpackLogged read fault base entries).1
      (unpackLogged read fault base entries).2 := by
  rw [unpackLogged_snd]
  have hshort : ∀ tree total, unpack read fault base entries = .ok tree total →
      ∀ e ∈ entries, e.isDirectory = false → (e.content.length : ℤ) ≤ maxSingleFileBytes := by
    intro tree total hok e he hd
    obtain ⟨hlen, hwent, -, -⟩ := unpack_eq_ok_iff.1 hok
    by_contra hlong
    exact h hlen hwent e he (understated_of_went hwent he hd (not_le.1 hlong))
  refine ⟨fun tree total hok => ?_, fun _ _ _ => length_writes_unpackLogged read fault base entries,
    fun tree total hok r hr => ?_, fun tree total hok path content hfile => ?_,
    fun _ done hdone => ?_⟩
  · rw [← List.length_map Round.entry, (rounds_of_ok hok).1]
    exact (unpack_eq_ok_iff.1 hok).1
  · obtain ⟨hentries, hwritten⟩ := rounds_of_ok hok
    have hmem : r.entry ∈ entries := hentries ▸ List.mem_map_of_mem hr
    rw [hwritten r hr]
    split_ifs with hd
    · decide
    · exact hshort tree total hok r.entry hmem (by simpa using hd)
  · obtain ⟨-, -, rfl, -⟩ := unpack_eq_ok_iff.1 hok
    refine (lookup_layout_file hfile).imp_right ?_
    rintro ⟨e, he, hd, rfl⟩
    exact hshort _ _ hok e he hd
  · exact hdone.flatten.length_le.trans (length_writes_unpackLogged read fault base entries)

/-- An understated entry of a package that passes is written in full. -/
theorem not_limits_unpackLogged (hlen : entries.length ≤ maxEntries)
    (hwent : Went base fault entries) {e : ZipEntry} (he : e ∈ entries) (hu : Understated e) :
    ¬ Limits base (unpackLogged read fault base entries).1
      (unpackLogged read fault base entries).2 := by
  intro h
  have hok : unpack read fault base entries = .ok (layout base entries) (volume entries) :=
    unpack_eq_ok_iff.2 ⟨hlen, hwent, rfl, rfl⟩
  obtain ⟨hentries, hwritten⟩ := rounds_of_ok hok
  obtain ⟨r, hr, rfl⟩ := List.mem_map.1 (hentries.symm ▸ he)
  have hsingle := h.single _ _ ((unpackLogged_snd read fault base entries).trans hok) r hr
  rw [hwritten r hr, hu.1] at hsingle
  exact absurd hsingle (not_le.2 hu.2.2)

end

/-! ### The whole install -/

/-- `install` comes to unpacking the archive. -/
structure Unpacks (D : Device Key) (r : InstallRequest) (installed : JString → Bool)
    (zip : ZipFile) (manifest : ModuleManifest) : Prop where
  admitted : Admitted D r zip manifest
  fresh : installed manifest.name = false
  prepared : Prepares r

/-- The unpacking of the install, with its log. -/
def unpacking (r : InstallRequest) (old : Option FileTree) (zip : ZipFile) :
    List Round × Unpacked :=
  unpackLogged r.read (unpackFault r.fault) (r.target old) zip.entries

/-- The limits hold in the install. -/
def LimitsHold (D : Device Key) (r : InstallRequest) (installed : JString → Bool)
    (old : JString → Option FileTree) : Prop :=
  ∀ zip manifest, Unpacks D r installed zip manifest →
    Limits (r.target (old manifest.name)) (unpacking r (old manifest.name) zip).1
      (unpacking r (old manifest.name) zip).2

/-- **The limits on the entries and on the total always hold, also in an install that fails.  The
limit on a file is held against the declared size: it holds unless all checks are passed by a
package with an entry that understates its size.** -/
theorem limits_install_iff (D : Device Key) (r : InstallRequest) (installed : JString → Bool)
    (old : JString → Option FileTree) :
    LimitsHold D r installed old ↔
      ∀ zip manifest, Unpacks D r installed zip manifest → zip.entries.length ≤ maxEntries →
        Went (r.target (old manifest.name)) (unpackFault r.fault) zip.entries →
        ∀ e ∈ zip.entries, ¬ Understated e := by
  constructor
  · intro h zip manifest hunp hlen hwent e he hu
    exact not_limits_unpackLogged hlen hwent he hu (h zip manifest hunp)
  · intro h zip manifest hunp
    exact limits_unpackLogged (h zip manifest hunp)

/-! ### A package with a file that is too long -/

namespace App

/-- One byte more than a file may have; its header says that it is one byte long. -/
def overlong : ZipEntry :=
  ⟨ofString "pad", List.replicate (50 * 1024 * 1024 + 1) 0, 1, 50970⟩

/-- Installing the sample package with this file. -/
def overlongRequest : InstallRequest :=
  { sampleRequest none with
    archive := .ok (zipWith overlong)
    sourceHash := some (ofString
      "aca36a94dd837b29a8e9ab7e1854e5ff262ada5784f884c72a57dc0102c25d59") }

theorem length_overlong : overlong.content.length = 50 * 1024 * 1024 + 1 := List.length_replicate

theorem unpacks_overlong :
    Unpacks sampleDevice overlongRequest (fun _ => false) (zipWith overlong) sampleManifest where
  admitted :=
    { fileExists := rfl
      isAvm := by decide
      archive := rfl
      decoded := ⟨_, rfl, rfl⟩
      safeId := by decide
      trusted := by decide +kernel }
  fresh := rfl
  prepared := by simp [Prepares, overlongRequest, sampleRequest]

theorem understated_overlong : Understated overlong := by
  refine ⟨by decide, by decide, ?_⟩
  rw [length_overlong]
  decide

/-- Each check looks at the declared size or at the total. -/
theorem passes_overlong :
    Passes ∅ [ModuleSignatureVerifier.sampleEntry "module.json" (ascii sampleJson),
      ModuleSignatureVerifier.sampleEntry "ASTRAVEIL.SIG" sampleJsonSig] overlong := by
  refine ⟨by decide, fun _ => ⟨by decide, by decide, ?_, by decide⟩⟩
  have hvol : volume [ModuleSignatureVerifier.sampleEntry "module.json" (ascii sampleJson),
      ModuleSignatureVerifier.sampleEntry "ASTRAVEIL.SIG" sampleJsonSig] = 129 := by
    decide
  rw [hvol, length_overlong, maxTotalBytes]
  omega

theorem went_overlong : Went ∅ none (zipWith overlong).entries := by
  refine went_snoc.2
    ⟨went_snoc.2 ⟨went_snoc.2 ⟨went_nil ∅ none, ?_⟩, ?_⟩, passes_overlong, .inl rfl⟩
  · exact ⟨by decide, .inl rfl⟩
  · exact ⟨by decide, .inl rfl⟩

theorem not_limitsHold_overlong :
    ¬ LimitsHold sampleDevice overlongRequest (fun _ => false) fun _ => none := by
  intro h
  exact not_limits_unpackLogged (by decide) went_overlong (by simp [zipWith, ZipFile.ofEntries])
    understated_overlong (h _ _ unpacks_overlong)

end App

end AstraVeil.Modules
