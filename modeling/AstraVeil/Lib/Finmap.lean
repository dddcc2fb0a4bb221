import Mathlib.Data.List.AList
import Mathlib.Tactic

/-!
# Building finite maps

Maps are `AList`s, read through `AList.lookup`.  The ways a program builds one map from another,
each with the lookup of the result.

* `collect`: keep and change the values that a partial function accepts;
* `rename`: change keys and values;
* `associateBy`: a map from a list of values that know their keys;
* `fill`: add a default for the keys of a list that are missing.

`total` sums over the values.
-/

namespace Finmaps

variable {κ α β : Type*} [DecidableEq κ]

/-- The entries of a map, in some order. -/
abbrev Map (κ α : Type*) := AList (fun _ : κ => α)

theorem mem_iff_exists {m : Map κ α} {k : κ} : k ∈ m ↔ ∃ v, m.lookup k = some v := by
  rw [← AList.lookup_isSome, Option.isSome_iff_exists]

theorem lookup_eq_find? (m : Map κ α) (k : κ) :
    m.lookup k = (m.entries.find? fun e => decide (e.1 = k)).map fun e => e.2 := by
  obtain ⟨es, hnd⟩ := m
  unfold AList.lookup
  simp only
  induction es with
  | nil => rfl
  | cons e es ih =>
    obtain ⟨a, v⟩ := e
    by_cases hk : k = a
    · subst hk
      rw [List.dlookup_cons_eq]
      simp
    · have hne : ¬ a = k := fun e => hk e.symm
      rw [List.dlookup_cons_ne _ _ hk, ih (List.nodupKeys_cons.1 hnd).2, List.find?_cons]
      simp [hne]

theorem any_entries_iff {p : α → Bool} {m : Map κ α} :
    (m.entries.any fun e => p e.2) = true ↔ ∃ k v, m.lookup k = some v ∧ p v = true := by
  rw [List.any_eq_true]
  constructor
  · rintro ⟨⟨k, v⟩, he, h⟩
    exact ⟨k, v, AList.mem_lookup_iff.2 he, h⟩
  · rintro ⟨k, v, hv, h⟩
    exact ⟨⟨k, v⟩, AList.mem_lookup_iff.1 hv, h⟩

/-- A search over the values of two maps finds something in both or in neither, when it judges the
values of every key alike. -/
theorem any_entries_congr {p : α → Bool} {q : β → Bool} {m : Map κ α} {m' : Map κ β}
    (h : ∀ k, (m.lookup k).map p = (m'.lookup k).map q) :
    (m.entries.any fun e => p e.2) = m'.entries.any fun e => q e.2 := by
  have hsome : ∀ k, (∃ v, m.lookup k = some v ∧ p v = true) ↔
      ∃ w, m'.lookup k = some w ∧ q w = true := fun k => by
    rw [← Option.map_eq_some_iff, ← Option.map_eq_some_iff, h k]
  rw [Bool.eq_iff_iff, any_entries_iff, any_entries_iff]
  exact exists_congr hsome

/-- One pass over the entries, keeping what `f` accepts. -/
def collect (f : κ → α → Option β) (m : Map κ α) : Map κ β :=
  m.entries.foldr (fun e acc => match f e.1 e.2 with
    | some w => acc.insert e.1 w
    | none => acc) ∅

theorem lookup_collect (f : κ → α → Option β) (m : Map κ α) (k : κ) :
    (collect f m).lookup k = (m.lookup k).bind (f k) := by
  obtain ⟨es, hnd⟩ := m
  unfold collect AList.lookup
  simp only
  induction es with
  | nil => rfl
  | cons e es ih =>
    obtain ⟨a, v⟩ := e
    have hnd' := List.nodupKeys_cons.1 hnd
    have ih := ih hnd'.2
    rw [List.foldr_cons]
    by_cases hk : k = a
    · subst hk
      have hnone : List.dlookup k es = none := List.dlookup_eq_none.2 hnd'.1
      rw [List.dlookup_cons_eq, Option.bind_some]
      rw [hnone, Option.bind_none] at ih
      cases hf : f k v with
      | none => simpa [hf] using ih
      | some w =>
        simp only
        exact AList.lookup_insert _
    · rw [List.dlookup_cons_ne _ _ hk, ← ih]
      cases hf : f a v with
      | none => rfl
      | some w => exact AList.lookup_insert_ne hk

/-- Every entry with another key and value. -/
def rename (f : κ → κ) (g : α → α) (m : Map κ α) : Map κ α :=
  m.entries.foldr (fun e acc => acc.insert (f e.1) (g e.2)) ∅

theorem lookup_rename {f : κ → κ} {g : α → α} {m : Map κ α}
    (h : ∀ k v, m.lookup k = some v → f k = k ∧ g v = v) (k : κ) :
    (rename f g m).lookup k = m.lookup k := by
  have hsame : rename f g m = collect (fun _ v => some v) m := by
    unfold rename collect
    refine List.foldr_ext _ _ _ fun e he acc => ?_
    obtain ⟨hf, hg⟩ := h e.1 e.2 (AList.mem_lookup_iff.2 he)
    rw [hf, hg]
  rw [hsame, lookup_collect]
  cases m.lookup k <;> rfl

/-- The map of a list of values, a later one replacing an earlier one of the same key. -/
def associateBy (key : α → κ) (l : List α) : Map κ α := l.foldl (fun m v => m.insert (key v) v) ∅

theorem lookup_foldl_insert (key : α → κ) (l : List α) (m : Map κ α) (k : κ)
    (hnd : (l.map key).Nodup) :
    (l.foldl (fun m v => m.insert (key v) v) m).lookup k =
      (l.find? (key · = k)).or (m.lookup k) := by
  induction l generalizing m with
  | nil => rfl
  | cons v l ih =>
    rw [List.map_cons, List.nodup_cons] at hnd
    rw [List.foldl_cons, ih _ hnd.2, List.find?_cons]
    by_cases hk : key v = k
    · have hnone : l.find? (key · = k) = none := by
        rw [List.find?_eq_none]
        intro x hx hxk
        exact hnd.1 (List.mem_map.2 ⟨x, hx, by simpa [hk] using hxk⟩)
      rw [hnone, ← hk, AList.lookup_insert]
      simp
    · rw [AList.lookup_insert_ne (Ne.symm hk)]
      simp [hk]

theorem lookup_associateBy {key : α → κ} {l : List α} (hnd : (l.map key).Nodup) (k : κ) :
    (associateBy key l).lookup k = l.find? (key · = k) := by
  rw [associateBy, lookup_foldl_insert key l ∅ k hnd]
  simp

/-- The values of a map, each written down with its key, read back as that map. -/
theorem lookup_associateBy_entries {key : β → κ} {f : κ → α → β} (hkey : ∀ k v, key (f k v) = k)
    (m : Map κ α) (k : κ) :
    (associateBy key (m.entries.map fun e => f e.1 e.2)).lookup k = (m.lookup k).map (f k) := by
  have hkeys : (m.entries.map fun e => f e.1 e.2).map key = m.keys := by
    rw [List.map_map]
    exact List.map_congr_left fun e _ => hkey e.1 e.2
  have hpred : ((fun x => decide (key x = k)) ∘ fun e : (_ : κ) × α => f e.1 e.2) =
      fun e => decide (e.1 = k) := by
    funext e
    simp [hkey]
  rw [lookup_associateBy (by rw [hkeys]; exact m.nodupKeys), List.find?_map, hpred, lookup_eq_find?,
    Option.map_map]
  cases he : m.entries.find? fun e => decide (e.1 = k) with
  | none => rfl
  | some e =>
    have hek : e.1 = k := by simpa using List.find?_some he
    simp [hek]

/-- A default for every key of the list that the map does not have. -/
def fill (default : κ → α) (keys : List κ) (m : Map κ α) : Map κ α :=
  keys.foldl (fun m k => if k ∈ m then m else m.insert k (default k)) m

theorem lookup_fill (default : κ → α) (keys : List κ) (m : Map κ α) (k : κ) :
    (fill default keys m).lookup k =
      (m.lookup k).or (if k ∈ keys then some (default k) else none) := by
  unfold fill
  induction keys generalizing m with
  | nil => simp
  | cons a keys ih =>
    rw [List.foldl_cons, ih]
    by_cases ha : a ∈ m
    · rw [if_pos ha]
      by_cases hk : k = a
      · subst hk
        obtain ⟨v, hv⟩ := mem_iff_exists.1 ha
        simp [hv]
      · simp [hk]
    · rw [if_neg ha]
      by_cases hk : k = a
      · subst hk
        rw [AList.lookup_insert, AList.lookup_eq_none.2 ha]
        simp
      · rw [AList.lookup_insert_ne hk]
        simp [hk]

/-- A sum over the values of a map. -/
def total (f : α → ℕ) (m : Map κ α) : ℕ := (m.entries.map fun e => f e.2).sum

theorem total_insert (f : α → ℕ) (m : Map κ α) (k : κ) (v : α) :
    total f (m.insert k v) + ((m.lookup k).map f).getD 0 = total f m + f v := by
  obtain ⟨es, hnd⟩ := m
  unfold total AList.lookup
  rw [AList.entries_insert, List.map_cons, List.sum_cons]
  simp only
  induction es with
  | nil => simp
  | cons e es ih =>
    obtain ⟨a, w⟩ := e
    have hnd' := List.nodupKeys_cons.1 hnd
    by_cases hk : k = a
    · subst hk
      have hke : List.kerase k (⟨k, w⟩ :: es) = es := List.kerase_cons_eq rfl
      rw [hke, List.dlookup_cons_eq]
      simp only [Option.map_some, Option.getD_some, List.map_cons, List.sum_cons]
      omega
    · have ih := ih hnd'.2
      have hke : List.kerase k (⟨a, w⟩ :: es) = ⟨a, w⟩ :: List.kerase k es :=
        List.kerase_cons_ne hk
      rw [hke, List.dlookup_cons_ne _ _ hk]
      simp only [List.map_cons, List.sum_cons]
      omega

end Finmaps
