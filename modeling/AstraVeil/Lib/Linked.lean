import AstraVeil.Lib.Finmap

/-!
# Sets and maps in insertion order

`LinkedHashSet` and `LinkedHashMap`: a list without repetitions, and the entries of a map where a
new key goes to the end and a new value of an old key stays in its place.

* `LinkedSet`, with `mem_add`, `mem_remove`, `mem_plus`, `mem_minus`;
* `put`, with `lookup_put`, `mem_put` and `erase_put`;
* `ext_of_keys`: a map is its keys, in order, and its values.
-/

namespace Linked

open Finmaps

variable {κ α : Type*}

/-- A set with the order in which its elements were added. -/
structure LinkedSet (α : Type*) where
  toList : List α
  nodup : toList.Nodup

namespace LinkedSet

instance : Membership α (LinkedSet α) := ⟨fun s a => a ∈ s.toList⟩

instance : EmptyCollection (LinkedSet α) := ⟨⟨[], List.nodup_nil⟩⟩

@[simp] theorem mem_toList {s : LinkedSet α} {a : α} : a ∈ s.toList ↔ a ∈ s := Iff.rfl

@[simp] theorem notMem_empty (a : α) : a ∉ (∅ : LinkedSet α) := List.not_mem_nil

/-- `isNotEmpty`. -/
def isNotEmpty (s : LinkedSet α) : Bool := !s.toList.isEmpty

theorem isNotEmpty_iff {s : LinkedSet α} : s.isNotEmpty = true ↔ ∃ a, a ∈ s := by
  rw [isNotEmpty, Bool.not_eq_true', List.isEmpty_eq_false_iff_exists_mem]
  rfl

variable [DecidableEq α]

instance (a : α) (s : LinkedSet α) : Decidable (a ∈ s) := inferInstanceAs (Decidable (a ∈ s.toList))

/-- `add`. -/
def add (s : LinkedSet α) (a : α) : LinkedSet α :=
  if h : a ∈ s.toList then s
  else ⟨s.toList ++ [a], s.nodup.append (List.nodup_singleton a) (by simpa using h)⟩

/-- `remove`. -/
def remove (s : LinkedSet α) (a : α) : LinkedSet α := ⟨s.toList.erase a, s.nodup.erase a⟩

@[simp] theorem mem_add {s : LinkedSet α} {a b : α} : b ∈ s.add a ↔ b ∈ s ∨ b = a := by
  unfold add
  split
  · rename_i h
    refine ⟨Or.inl, ?_⟩
    rintro (hb | rfl)
    · exact hb
    · exact h
  · show b ∈ s.toList ++ [a] ↔ b ∈ s.toList ∨ b = a
    simp

@[simp] theorem mem_remove {s : LinkedSet α} {a b : α} : b ∈ s.remove a ↔ b ∈ s ∧ b ≠ a := by
  show b ∈ s.toList.erase a ↔ b ∈ s.toList ∧ b ≠ a
  rw [s.nodup.mem_erase_iff, and_comm]

/-- The set with the elements of a list, added in their order. -/
def addAll (s : LinkedSet α) (l : List α) : LinkedSet α := l.foldl add s

/-- `toSet`. -/
def ofList (l : List α) : LinkedSet α := addAll ∅ l

/-- `+`. -/
def plus (s t : LinkedSet α) : LinkedSet α := s.addAll t.toList

/-- `-`. -/
def minus (s t : LinkedSet α) : LinkedSet α :=
  ⟨s.toList.filter fun a => decide (a ∉ t), s.nodup.filter _⟩

@[simp] theorem mem_addAll {s : LinkedSet α} {l : List α} {a : α} :
    a ∈ s.addAll l ↔ a ∈ s ∨ a ∈ l := by
  unfold addAll
  induction l generalizing s with
  | nil => simp
  | cons b l ih =>
    rw [List.foldl_cons, ih, mem_add, List.mem_cons, or_assoc]

@[simp] theorem mem_ofList {l : List α} {a : α} : a ∈ ofList l ↔ a ∈ l := by
  simp [ofList]

@[simp] theorem mem_plus {s t : LinkedSet α} {a : α} : a ∈ s.plus t ↔ a ∈ s ∨ a ∈ t := by
  simp [plus]

@[simp] theorem mem_minus {s t : LinkedSet α} {a : α} : a ∈ s.minus t ↔ a ∈ s ∧ a ∉ t := by
  show a ∈ s.toList.filter _ ↔ _
  simp

/-- The sum of two sets is the same in both orders, up to the order of the elements. -/
theorem plus_comm_perm (s t : LinkedSet α) : (s.plus t).toList.Perm (t.plus s).toList := by
  rw [List.perm_ext_iff_of_nodup (s.plus t).nodup (t.plus s).nodup]
  intro a
  rw [mem_toList, mem_toList, mem_plus, mem_plus, or_comm]

theorem isNotEmpty_minus_iff {s t : LinkedSet α} :
    (s.minus t).isNotEmpty = true ↔ ¬ ∀ a ∈ s, a ∈ t := by
  simp [isNotEmpty_iff]

end LinkedSet

/-- The keys of a map. -/
def keySet (m : Map κ α) : LinkedSet κ := ⟨m.keys, m.nodupKeys⟩

@[simp] theorem mem_keySet {m : Map κ α} {k : κ} : k ∈ keySet m ↔ k ∈ m := Iff.rfl

variable [DecidableEq κ]

/-- The entries after `m[k] = v`. -/
def putEntries (k : κ) (v : α) : List (Sigma fun _ : κ => α) → List (Sigma fun _ : κ => α)
  | [] => [⟨k, v⟩]
  | e :: es => if e.1 = k then ⟨k, v⟩ :: es else e :: putEntries k v es

theorem keys_putEntries (k : κ) (v : α) (es : List (Sigma fun _ : κ => α)) :
    (putEntries k v es).keys = if k ∈ es.keys then es.keys else es.keys ++ [k] := by
  induction es with
  | nil => rfl
  | cons e es ih =>
    rw [putEntries]
    by_cases he : e.1 = k
    · simp [he]
    · have hne : ¬ k = e.1 := fun h => he h.symm
      rw [if_neg he, List.keys_cons, ih, List.keys_cons]
      by_cases hk : k ∈ es.keys
      · simp [hk]
      · simp [hk, hne]

theorem dlookup_putEntries (k : κ) (v : α) (es : List (Sigma fun _ : κ => α)) (a : κ) :
    (putEntries k v es).dlookup a = if a = k then some v else es.dlookup a := by
  induction es with
  | nil =>
    by_cases ha : a = k
    · subst ha
      simp [putEntries]
    · rw [putEntries, if_neg ha]
      exact List.dlookup_cons_ne _ _ ha
  | cons e es ih =>
    obtain ⟨b, w⟩ := e
    rw [putEntries]
    by_cases hb : b = k
    · subst hb
      rw [if_pos rfl]
      by_cases ha : a = b
      · subst ha
        simp
      · rw [List.dlookup_cons_ne _ _ ha, List.dlookup_cons_ne _ _ ha, if_neg ha]
    · rw [if_neg hb]
      by_cases ha : a = b
      · subst ha
        simp [hb]
      · rw [List.dlookup_cons_ne _ _ ha, List.dlookup_cons_ne _ _ ha, ih]

/-- `m[k] = v`. -/
def put (m : Map κ α) (k : κ) (v : α) : Map κ α where
  entries := putEntries k v m.entries
  nodupKeys := by
    rw [List.NodupKeys, keys_putEntries]
    split
    · exact m.nodupKeys
    · rename_i h
      exact List.Nodup.append m.nodupKeys (List.nodup_singleton k) (by simpa using h)

theorem lookup_put (m : Map κ α) (k : κ) (v : α) (a : κ) :
    (put m k v).lookup a = if a = k then some v else m.lookup a :=
  dlookup_putEntries k v m.entries a

@[simp] theorem lookup_put_self (m : Map κ α) (k : κ) (v : α) : (put m k v).lookup k = some v := by
  rw [lookup_put, if_pos rfl]

theorem lookup_put_ne (m : Map κ α) {k a : κ} (v : α) (h : a ≠ k) :
    (put m k v).lookup a = m.lookup a := by
  rw [lookup_put, if_neg h]

@[simp] theorem mem_put {m : Map κ α} {k a : κ} {v : α} : a ∈ put m k v ↔ a ∈ m ∨ a = k := by
  rw [mem_iff_exists, mem_iff_exists, lookup_put]
  by_cases ha : a = k
  · simp [ha]
  · simp [ha]

theorem keys_put_of_mem {m : Map κ α} {k : κ} (h : k ∈ m) (v : α) : (put m k v).keys = m.keys :=
  (keys_putEntries k v m.entries).trans (if_pos h)

theorem kerase_putEntries (k : κ) (v : α) (es : List (Sigma fun _ : κ => α)) :
    (putEntries k v es).kerase k = es.kerase k := by
  induction es with
  | nil => simp [putEntries]
  | cons e es ih =>
    rw [putEntries]
    by_cases he : e.1 = k
    · subst he
      simp
    · have hne : ¬ k = e.1 := fun h => he h.symm
      rw [if_neg he, List.kerase_cons_ne hne, List.kerase_cons_ne hne, ih]

/-- A value put in and taken out again. -/
theorem erase_put (m : Map κ α) (k : κ) (v : α) : (put m k v).erase k = m.erase k :=
  AList.ext (kerase_putEntries k v m.entries)

/-- A map is its keys, in order, and its values. -/
theorem ext_of_keys {m m' : Map κ α} (hkeys : m.keys = m'.keys)
    (hlookup : ∀ k, m.lookup k = m'.lookup k) : m = m' := by
  have hentries : ∀ m : Map κ α, m.entries.map some =
      m.keys.map fun k => (m.lookup k).map (Sigma.mk k) := by
    intro m
    rw [show m.keys = m.entries.map (·.1) from rfl, List.map_map]
    refine List.map_congr_left fun e he => ?_
    have hlookup : m.lookup e.1 = some e.2 := AList.mem_lookup_iff.2 he
    simp [hlookup]
  refine AList.ext (List.map_injective_iff.2 (Option.some_injective _) ?_)
  rw [hentries, hentries, hkeys]
  exact List.map_congr_left fun k _ => by rw [hlookup]

end Linked
