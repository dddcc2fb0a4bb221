import AstraVeil.Lib.Graphs
import Mathlib.Algebra.BigOperators.Finprod

/-!
# Adjacency maps of one graph

Two adjacency maps may differ in their keys and still be maps of the same graph: an id without
children needs no entry.  `Agree` says that the children are the same, in the same order.

* `children_addTo`, `children_removeFrom`, `children_erase`: what a change of the map does to the
  children, with their order;
* `reach_congr`, `cycleFrom_congr`, `kahn_congr`: the three loops do the same on such maps.  Kahn's
  algorithm lists ids in the order it counts them, so here all edges have to end in the given ids.
-/

namespace Graphs

open Finmaps Linked Relation

variable {ι : Type*} [DecidableEq ι] {g g' : Adjacency ι}

/-! ### The children after a change -/

@[simp] theorem children_getOrPut (g : Adjacency ι) (c a : ι) :
    children (getOrPut g c) a = children g a := by
  unfold getOrPut
  split
  · rfl
  · rename_i hc
    unfold children
    rw [lookup_put]
    by_cases hac : a = c
    · subst hac
      rw [if_pos rfl, AList.lookup_eq_none.2 hc]
      rfl
    · rw [if_neg hac]

theorem children_addTo (g : Adjacency ι) (c d a : ι) :
    children (addTo g c d) a =
      if a = c ∧ d ∉ children g a then children g a ++ [d] else children g a := by
  unfold children addTo
  rw [lookup_put]
  by_cases hac : a = c
  · subst hac
    cases h : g.lookup a with
    | none => simp [LinkedSet.add]; rfl
    | some s =>
      by_cases hd : d ∈ s.toList
      · simp [LinkedSet.add, hd]
      · simp [LinkedSet.add, hd]
  · simp [hac]

theorem children_removeFrom (g : Adjacency ι) (c d a : ι) :
    children (removeFrom g c d) a =
      if a = c then (children g a).filter (· ≠ d) else children g a := by
  unfold removeFrom
  cases h : g.lookup c with
  | none =>
    by_cases hac : a = c
    · subst hac
      simp [children, h]
    · rw [if_neg hac]
  | some s =>
    unfold children
    rw [lookup_put]
    by_cases hac : a = c
    · subst hac
      rw [if_pos rfl, if_pos rfl, h]
      simp [LinkedSet.remove, s.nodup.erase_eq_filter, bne, beq_eq_decide]
    · rw [if_neg hac, if_neg hac]

theorem children_erase (g : Adjacency ι) (c a : ι) :
    children (g.erase c) a = if a = c then [] else children g a := by
  unfold children
  by_cases hac : a = c
  · subst hac
    rw [if_pos rfl, AList.lookup_erase]
    rfl
  · rw [if_neg hac, AList.lookup_erase_ne hac]

theorem children_foldl_removeFrom (l : List ι) (g : Adjacency ι) (d a : ι) :
    children (l.foldl (fun g c => removeFrom g c d) g) a =
      if a ∈ l then (children g a).filter (· ≠ d) else children g a := by
  induction l generalizing g with
  | nil => rfl
  | cons c l ih =>
    rw [List.foldl_cons, ih, children_removeFrom]
    by_cases hac : a = c
    · by_cases hal : a ∈ l <;> simp [hac, List.filter_filter]
    · simp [hac]

/-! ### Maps that agree -/

/-- The same children, in the same order. -/
def Agree (g g' : Adjacency ι) : Prop := ∀ a, children g a = children g' a

theorem Agree.edge (h : Agree g g') (a b : ι) : Edge g a b ↔ Edge g' a b := by
  rw [Edge, Edge, h a]

theorem Agree.getOrPut (h : Agree g g') (c : ι) : Agree (getOrPut g c) (getOrPut g' c) := by
  intro a
  rw [children_getOrPut, children_getOrPut, h a]

theorem Agree.addTo (h : Agree g g') (c d : ι) : Agree (addTo g c d) (addTo g' c d) := by
  intro a
  rw [children_addTo, children_addTo, h a]

theorem Agree.erase (h : Agree g g') (c : ι) : Agree (g.erase c) (g'.erase c) := by
  intro a
  rw [children_erase, children_erase, h a]

theorem Agree.foldl_removeFrom (h : Agree g g') (l : List ι) (d : ι) :
    Agree (l.foldl (fun g c => removeFrom g c d) g)
      (l.foldl (fun g c => removeFrom g c d) g') := by
  intro a
  rw [children_foldl_removeFrom, children_foldl_removeFrom, h a]

/-- An id without an entry adds nothing, so the sum is over all ids. -/
theorem pending_eq_finsum (g : Adjacency ι) (seen : List ι) :
    pending g seen = ∑ᶠ a, if a ∈ seen then 0 else (children g a).length := by
  have hsub : Function.support (fun a => if a ∈ seen then 0 else (children g a).length) ⊆
      ((g.keys.filter (· ∉ seen)).toFinset : Set ι) := by
    intro a ha
    rw [Function.mem_support] at ha
    rw [Finset.mem_coe, List.mem_toFinset, List.mem_filter]
    by_cases hseen : a ∈ seen
    · rw [if_pos hseen] at ha
      exact absurd rfl ha
    · rw [if_neg hseen] at ha
      refine ⟨?_, by simpa using hseen⟩
      by_contra hnot
      exact ha (by rw [children_of_notMem hnot]; rfl)
  rw [finsum_eq_sum_of_support_subset _ hsub, List.sum_toFinset _ (g.keys_nodup.filter _), pending]
  congr 1
  refine List.map_congr_left fun a ha => ?_
  have hseen : a ∉ seen := by simpa using (List.mem_filter.1 ha).2
  rw [if_neg hseen]

theorem pending_congr (h : Agree g g') (seen : List ι) : pending g seen = pending g' seen := by
  rw [pending_eq_finsum, pending_eq_finsum]
  refine finsum_congr fun a => ?_
  rw [h a]

theorem reachFrom_congr (h : Agree g g') (n : ℕ) (stack : List ι) (result : LinkedSet ι) :
    reachFrom g n stack result = reachFrom g' n stack result := by
  induction n generalizing stack result with
  | zero => rfl
  | succ n ih =>
    cases stack with
    | nil => rfl
    | cons a stack => rw [reachFrom, reachFrom, ih, ih, h a]

theorem reach_congr (h : Agree g g') (stack : List ι) (result : LinkedSet ι) :
    reach g stack result = reach g' stack result := by
  rw [reach, reach, pending_congr h, reachFrom_congr h]

theorem visit_congr (h : Agree g g') (n : ℕ) (inStack visited l : List ι) :
    visit g n inStack visited l = visit g' n inStack visited l := by
  induction n generalizing inStack visited l with
  | zero => cases l <;> rfl
  | succ n ih =>
    cases l with
    | nil => rfl
    | cons a rest => simp only [visit, ih, h a]

theorem cycleFrom_congr (h : Agree g g') (l : List ι) : cycleFrom g l = cycleFrom g' l := by
  rw [cycleFrom, cycleFrom, pending_congr h, visit_congr h]

/-! ### Kahn's algorithm -/

theorem length_waiting_congr (h : Agree g g') (b : ι) :
    (waiting g [] b).length = (waiting g' [] b).length := by
  have hperm : (waiting g [] b).Perm (waiting g' [] b) := by
    refine (List.perm_ext_iff_of_nodup (g.keys_nodup.filter _) (g'.keys_nodup.filter _)).2 ?_
    intro a
    rw [← waiting, ← waiting, mem_waiting, mem_waiting, h.edge a b]
  exact hperm.length_eq

theorem keys_foldl_count (l : List ι) (deg : Map ι ℤ) (hl : ∀ b ∈ l, b ∈ deg) :
    (l.foldl (fun deg b => put deg b ((deg.lookup b).getD 0 + 1)) deg).keys = deg.keys := by
  induction l generalizing deg with
  | nil => rfl
  | cons c l ih =>
    rw [List.foldl_cons, ih, keys_put_of_mem (hl c List.mem_cons_self)]
    exact fun b hb => mem_put.2 (Or.inl (hl b (List.mem_cons_of_mem c hb)))

theorem keys_foldl_entries (es : List (Sigma fun _ : ι => LinkedSet ι)) (deg : Map ι ℤ)
    (hes : ∀ e ∈ es, ∀ b ∈ e.2, b ∈ deg) :
    (es.foldl (fun deg e =>
      e.2.toList.foldl (fun deg b => put deg b ((deg.lookup b).getD 0 + 1)) deg) deg).keys =
        deg.keys := by
  induction es generalizing deg with
  | nil => rfl
  | cons e es ih =>
    have hkeys := keys_foldl_count e.2.toList deg (hes e List.mem_cons_self)
    rw [List.foldl_cons, ih, hkeys]
    intro e' he' b hb
    show b ∈ AList.keys _
    rw [hkeys]
    exact hes e' (List.mem_cons_of_mem e he') b hb

/-- Where all edges end in the given ids, no others are counted. -/
theorem keys_inDegrees {ids : List ι} (hids : ∀ a b, Edge g a b → b ∈ ids) :
    (inDegrees g ids).keys = (ids.foldl (fun deg a => put deg a 0) (∅ : Map ι ℤ)).keys := by
  refine keys_foldl_entries g.entries _ fun e he b hb => ?_
  have hedge : Edge g e.1 b := edge_iff.2 ⟨e.2, AList.mem_lookup_iff.2 he, hb⟩
  rw [mem_iff_exists]
  exact ⟨0, by rw [lookup_foldl_zero, if_pos (hids e.1 b hedge)]⟩

theorem inDegrees_congr (h : Agree g g') {ids : List ι} (hids : ∀ a b, Edge g a b → b ∈ ids) :
    inDegrees g ids = inDegrees g' ids := by
  have hids' : ∀ a b, Edge g' a b → b ∈ ids := fun a b hab => hids a b ((h.edge a b).2 hab)
  refine ext_of_keys ((keys_inDegrees hids).trans (keys_inDegrees hids').symm) fun b => ?_
  have htracked : Tracked g ids b ↔ Tracked g' ids b :=
    or_congr_right (exists_congr fun a => h.edge a b)
  by_cases hb : Tracked g ids b
  · rw [(lookup_inDegrees g ids b).1 hb, (lookup_inDegrees g' ids b).1 (htracked.1 hb),
      length_waiting_congr h]
  · rw [(lookup_inDegrees g ids b).2 hb, (lookup_inDegrees g' ids b).2 fun hb' =>
      hb (htracked.2 hb')]

theorem drain_congr (h : Agree g g') (n : ℕ) (st : Sorting ι) : drain g n st = drain g' n st := by
  induction n generalizing st with
  | zero => rfl
  | succ n ih =>
    obtain ⟨deg, queue, sorted⟩ := st
    cases queue with
    | nil => rfl
    | cons a queue =>
      simp only [drain, h a]
      exact ih _

theorem kahn_congr (h : Agree g g') {ids : List ι} (hids : ∀ a b, Edge g a b → b ∈ ids) :
    kahn g ids = kahn g' ids := by
  rw [kahn, kahn, drain_congr h, sortingOf, sortingOf, inDegrees_congr h hids]

end Graphs
