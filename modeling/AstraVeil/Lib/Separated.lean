import Mathlib.Tactic

/-!
# Records joined by a separator

A record is written as its fields with one separator symbol between them, `[s].intercalate xs`.
The separator is not escaped, so the fields can be read back only where they do not contain it.

* `count_intercalate`: the separators of a joined record are those between the fields and those
  inside them;
* `intercalate_inj`: a record whose fields are free of the separator is the only record with that
  many fields that is written this way;
* `resplit`: two neighbouring fields of which one contains the separator can be cut differently;
* `pinned_injective`: an injective function with finitely many prescribed values.
-/

namespace Separated

variable {α : Type*} [DecidableEq α]

theorem count_intercalate (s : α) (x : List α) (xs : List (List α)) :
    ([s].intercalate (x :: xs)).count s = ((x :: xs).map (List.count s)).sum + xs.length := by
  induction xs generalizing x with
  | nil => simp
  | cons y ys ih =>
    rw [List.intercalate_cons_cons, List.count_append, List.count_append, ih y]
    simp only [List.map_cons, List.sum_cons, List.length_cons, List.count_singleton_self]
    omega

omit [DecidableEq α] in
theorem mem_intercalate {s a : α} {xs : List (List α)} (h : a ∈ [s].intercalate xs) :
    (∃ x ∈ xs, a ∈ x) ∨ a = s := by
  induction xs with
  | nil => cases h
  | cons x xs ih =>
    cases xs with
    | nil => exact Or.inl ⟨x, List.mem_cons_self, by simpa using h⟩
    | cons y ys =>
      rw [List.intercalate_cons_cons, List.append_assoc, List.mem_append, List.singleton_append,
        List.mem_cons] at h
      rcases h with h | h | h
      · exact Or.inl ⟨x, List.mem_cons_self, h⟩
      · exact Or.inr h
      · exact (ih h).imp (fun ⟨z, hz, ha⟩ => ⟨z, List.mem_cons_of_mem _ hz, ha⟩) fun e => e

/-- Two records of the same number of fields, both free of the separator. -/
theorem intercalate_inj_of_free {s : α} {xs ys : List (List α)} (hlen : xs.length = ys.length)
    (hx : ∀ x ∈ xs, s ∉ x) (hy : ∀ y ∈ ys, s ∉ y)
    (h : [s].intercalate xs = [s].intercalate ys) : xs = ys := by
  induction xs generalizing ys with
  | nil => exact (List.length_eq_zero_iff.1 hlen.symm).symm
  | cons x xs ih =>
    obtain ⟨y, ys, rfl⟩ := List.exists_cons_of_length_eq_add_one hlen.symm
    have hlen' : xs.length = ys.length := Nat.succ.inj hlen
    cases xs with
    | nil =>
      obtain rfl := List.length_eq_zero_iff.1 hlen'.symm
      simpa using h
    | cons x' xs =>
      obtain ⟨y', ys, rfl⟩ := List.exists_cons_of_length_eq_add_one hlen'.symm
      rw [List.intercalate_cons_cons, List.intercalate_cons_cons, List.append_assoc,
        List.append_assoc, List.singleton_append, List.singleton_append] at h
      -- the first separator of both sides ends the first field
      have hfst : x = y := by
        have hx0 : s ∉ x := hx x List.mem_cons_self
        have hy0 : s ∉ y := hy y List.mem_cons_self
        have htw : ∀ z r : List α, s ∉ z → (z ++ s :: r).takeWhile (· ≠ s) = z := by
          intro z r hz
          rw [List.takeWhile_append_of_pos (fun a ha => by
            simpa using ne_of_mem_of_not_mem ha hz)]
          simp
        rw [← htw x _ hx0, h, htw y _ hy0]
      subst hfst
      have hrest := List.cons.inj (List.append_cancel_left h)
      rw [ih hlen' (fun z hz => hx z (List.mem_cons_of_mem _ hz))
        (fun z hz => hy z (List.mem_cons_of_mem _ hz)) hrest.2]

/-- The record is free of the separator, and is determined among the records of its length. -/
theorem intercalate_inj {s : α} {xs ys : List (List α)} (hlen : xs.length = ys.length)
    (hx : ∀ x ∈ xs, s ∉ x) (h : [s].intercalate xs = [s].intercalate ys) : xs = ys := by
  refine intercalate_inj_of_free hlen hx ?_ h
  intro y hy hs
  obtain ⟨z, ys', rfl⟩ := List.exists_cons_of_ne_nil (List.ne_nil_of_mem hy)
  obtain ⟨x, xs', rfl⟩ := List.exists_cons_of_length_eq_add_one hlen
  have hzero : ((x :: xs').map (List.count s)).sum = 0 :=
    List.sum_eq_zero fun n hn => by
      obtain ⟨w, hw, rfl⟩ := List.mem_map.1 hn
      exact List.count_eq_zero.2 (hx w hw)
  have hpos : 0 < ((z :: ys').map (List.count s)).sum :=
    (List.count_pos_iff.2 hs).trans_le
      (List.single_le_sum (fun _ _ => Nat.zero_le _) _ (List.mem_map_of_mem hy))
  have hcount := congrArg (List.count s) h
  rw [count_intercalate, count_intercalate, hzero] at hcount
  simp only [List.length_cons] at hlen
  omega

omit [DecidableEq α] in
/-- Two neighbouring fields of which one contains the separator have a second reading, in which
the first field is another one. -/
theorem resplit {s : α} {x y : List α} (h : s ∈ x ∨ s ∈ y) :
    ∃ x' y', x' ++ s :: y' = x ++ s :: y ∧ x' ≠ x := by
  rcases h with h | h
  · obtain ⟨a, b, rfl⟩ := List.append_of_mem h
    refine ⟨a, b ++ s :: y, by simp, fun e => ?_⟩
    have hlen := congrArg List.length e
    simp at hlen
  · obtain ⟨a, b, rfl⟩ := List.append_of_mem h
    refine ⟨x ++ s :: a, b, by simp, fun e => ?_⟩
    have hlen := congrArg List.length e
    simp at hlen

/-! ### Injective functions with prescribed values -/

/-- The table where it is defined, and otherwise a copy of the argument too long for the table. -/
def pinned (table : List (List α × List α)) (width : ℕ) (pad : α) (x : List α) : List α :=
  (table.lookup x).getD (List.replicate (width + 1) pad ++ x)

/-- Digests of `width` symbols that do not repeat leave the function injective. -/
theorem pinned_injective {table : List (List α × List α)} {width : ℕ} (pad : α)
    (hlen : ∀ e ∈ table, e.2.length = width) (hnd : (table.map Prod.snd).Nodup) :
    Function.Injective (pinned table width pad) := by
  have hmem : ∀ {x y}, table.lookup x = some y → (x, y) ∈ table := by
    intro x y h
    obtain ⟨l, k, hk, -⟩ := List.lookup_eq_some_iff.1 h
    simp [hk]
  intro x x' h
  unfold pinned at h
  cases hx : table.lookup x with
  | none =>
    cases hx' : table.lookup x' with
    | none =>
      rw [hx, hx'] at h
      exact List.append_cancel_left h
    | some y' =>
      rw [hx, hx'] at h
      have hl := congrArg List.length h
      have hw := hlen _ (hmem hx')
      simp at hl hw
      omega
  | some y =>
    cases hx' : table.lookup x' with
    | none =>
      rw [hx, hx'] at h
      have hl := congrArg List.length h
      have hw := hlen _ (hmem hx)
      simp at hl hw
      omega
    | some y' =>
      rw [hx, hx'] at h
      obtain rfl : y = y' := h
      have := List.inj_on_of_nodup_map hnd (hmem hx) (hmem hx') rfl
      exact congrArg Prod.fst this

end Separated
