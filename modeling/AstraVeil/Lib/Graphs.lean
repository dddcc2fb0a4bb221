import AstraVeil.Lib.Linked
import Mathlib.Logic.Relation

/-!
# Directed graphs kept as adjacency maps

`children g a` are the ends of the edges that start in `a`; an id without an entry has none.
The ways a program changes such a map are read through `Edge`.
Three loops over such a map, with the number of rounds they need as their fuel:

* `reach`: what a stack reaches, `mem_reach`;
* `visit`: depth first search for a cycle, `exists_cycle_of_visit` and `acc_of_visit`;
* `drain`: Kahn's algorithm, `drain_spec`: it lists, once each and after their sources, the ids
  all of whose sources it lists.

The fuel of the first two is `pending g seen`, the number of edges that start in an id not seen
yet, and the number of ids still to look at.
-/

namespace Graphs

open Finmaps Linked Relation

variable {ι : Type*} [DecidableEq ι]

/-- For each id the ends of its edges. -/
abbrev Adjacency (ι : Type*) := Map ι (LinkedSet ι)

/-- `g[a] ?: emptySet()`. -/
def children (g : Adjacency ι) (a : ι) : List ι := ((g.lookup a).map LinkedSet.toList).getD []

/-- The edge relation. -/
def Edge (g : Adjacency ι) (a b : ι) : Prop := b ∈ children g a

instance (g : Adjacency ι) (a b : ι) : Decidable (Edge g a b) :=
  inferInstanceAs (Decidable (b ∈ children g a))

theorem edge_iff {g : Adjacency ι} {a b : ι} : Edge g a b ↔ ∃ s, g.lookup a = some s ∧ b ∈ s := by
  unfold Edge children
  cases h : g.lookup a with
  | none => simp
  | some s => simp

theorem children_nodup (g : Adjacency ι) (a : ι) : (children g a).Nodup := by
  unfold children
  cases g.lookup a with
  | none => exact List.nodup_nil
  | some s => exact s.nodup

theorem children_of_notMem {g : Adjacency ι} {a : ι} (h : a ∉ g) : children g a = [] := by
  unfold children
  rw [AList.lookup_eq_none.2 h]
  rfl

/-! ### Changing edges -/

/-- `g.getOrPut(a) { mutableSetOf() }`. -/
def getOrPut (g : Adjacency ι) (a : ι) : Adjacency ι := if a ∈ g then g else put g a ∅

/-- `g.getOrPut(a) { mutableSetOf() }.add(b)`. -/
def addTo (g : Adjacency ι) (a b : ι) : Adjacency ι := put g a (((g.lookup a).getD ∅).add b)

/-- `g[a]?.remove(b)`. -/
def removeFrom (g : Adjacency ι) (a b : ι) : Adjacency ι :=
  match g.lookup a with
  | none => g
  | some s => put g a (s.remove b)

@[simp] theorem not_edge_empty (a b : ι) : ¬ Edge (∅ : Adjacency ι) a b := by
  simp [edge_iff]

@[simp] theorem edge_getOrPut {g : Adjacency ι} {c a b : ι} :
    Edge (getOrPut g c) a b ↔ Edge g a b := by
  unfold getOrPut
  split
  · rfl
  · rename_i hc
    rw [edge_iff, edge_iff, lookup_put]
    by_cases hac : a = c
    · subst hac
      simp [AList.lookup_eq_none.2 hc]
    · simp [hac]

@[simp] theorem edge_addTo {g : Adjacency ι} {c d a b : ι} :
    Edge (addTo g c d) a b ↔ Edge g a b ∨ (a = c ∧ b = d) := by
  unfold addTo
  rw [edge_iff, edge_iff, lookup_put]
  by_cases hac : a = c
  · subst hac
    cases h : g.lookup a with
    | none => simp
    | some s => simp
  · simp [hac]

@[simp] theorem edge_removeFrom {g : Adjacency ι} {c d a b : ι} :
    Edge (removeFrom g c d) a b ↔ Edge g a b ∧ ¬ (a = c ∧ b = d) := by
  unfold removeFrom
  cases h : g.lookup c with
  | none =>
    refine ⟨fun he => ⟨he, ?_⟩, fun he => he.1⟩
    rintro ⟨rfl, -⟩
    obtain ⟨s, hs, -⟩ := edge_iff.1 he
    rw [h] at hs
    cases hs
  | some s =>
    simp only [edge_iff, lookup_put]
    by_cases hac : a = c
    · subst hac
      simp [h]
    · simp [hac]

@[simp] theorem edge_erase {g : Adjacency ι} {c a b : ι} :
    Edge (g.erase c) a b ↔ Edge g a b ∧ a ≠ c := by
  rw [edge_iff, edge_iff]
  by_cases hac : a = c
  · subst hac
    simp
  · simp [hac, AList.lookup_erase_ne hac]

/-- Removing one end from several ids. -/
theorem edge_foldl_removeFrom {g : Adjacency ι} {l : List ι} {d a b : ι} :
    Edge (l.foldl (fun g c => removeFrom g c d) g) a b ↔ Edge g a b ∧ ¬ (a ∈ l ∧ b = d) := by
  induction l generalizing g with
  | nil => simp
  | cons c l ih =>
    rw [List.foldl_cons, ih, edge_removeFrom, List.mem_cons]
    tauto

/-! ### Edges not looked at yet -/

/-- The number of edges that start in an id not seen yet. -/
def pending (g : Adjacency ι) (seen : List ι) : ℕ :=
  ((g.keys.filter (· ∉ seen)).map fun a => (children g a).length).sum

theorem pending_cons {g : Adjacency ι} {seen : List ι} {a : ι} (h : a ∉ seen) :
    pending g (a :: seen) + (children g a).length = pending g seen := by
  unfold pending
  have hsplit : g.keys.filter (· ∉ a :: seen) = (g.keys.filter (· ∉ seen)).erase a := by
    rw [(g.keys_nodup.filter _).erase_eq_filter, List.filter_filter]
    congr 1
    funext b
    simp [not_or, bne, beq_eq_decide]
  rw [hsplit]
  by_cases ha : a ∈ g
  · have hmem : a ∈ g.keys.filter (· ∉ seen) := by
      rw [List.mem_filter]
      exact ⟨ha, by simpa using h⟩
    have hperm := (List.perm_cons_erase hmem).map fun a => (children g a).length
    rw [hperm.sum_eq, List.map_cons, List.sum_cons, Nat.add_comm]
  · have hnot : a ∉ g.keys.filter (· ∉ seen) := fun hm => ha (List.mem_filter.1 hm).1
    rw [List.erase_of_not_mem hnot, children_of_notMem ha]
    rfl

theorem pending_le {g : Adjacency ι} {seen seen' : List ι} (h : seen ⊆ seen') :
    pending g seen' ≤ pending g seen := by
  unfold pending
  refine List.Sublist.sum_le_sum (List.Sublist.map _ ?_) (by simp)
  have heq : g.keys.filter (· ∉ seen') = (g.keys.filter (· ∉ seen)).filter (· ∉ seen') := by
    rw [List.filter_filter]
    refine List.filter_congr fun a _ => ?_
    by_cases ha : a ∈ seen'
    · simp [ha]
    · have hs : a ∉ seen := fun hm => ha (h hm)
      simp [ha, hs]
  rw [heq]
  exact List.filter_sublist

/-! ### What a stack reaches -/

/-- `while (stack.isNotEmpty())`: pop, and push the children of what was not there yet.  The head
of the list is the top of the stack. -/
def reachFrom (g : Adjacency ι) : ℕ → List ι → LinkedSet ι → LinkedSet ι
  | 0, _, result => result
  | _ + 1, [], result => result
  | n + 1, a :: stack, result =>
      if a ∈ result then reachFrom g n stack result
      else reachFrom g n ((children g a).reverse ++ stack) (result.add a)

/-- The loop with all the rounds it needs. -/
def reach (g : Adjacency ι) (stack : List ι) (result : LinkedSet ι) : LinkedSet ι :=
  reachFrom g (stack.length + pending g result.toList) stack result

theorem pending_add {g : Adjacency ι} {s : LinkedSet ι} {a : ι} (h : a ∉ s) :
    pending g (s.add a).toList + (children g a).length = pending g s.toList := by
  have hsub : ∀ b, b ∈ (s.add a).toList ↔ b ∈ a :: s.toList := by
    intro b
    rw [List.mem_cons, LinkedSet.mem_toList, LinkedSet.mem_add, LinkedSet.mem_toList, or_comm]
  have hnew : a ∉ s.toList := h
  rw [← pending_cons (g := g) hnew]
  have h1 := pending_le (g := g) (show (s.add a).toList ⊆ a :: s.toList from fun b => (hsub b).1)
  have h2 := pending_le (g := g) (show a :: s.toList ⊆ (s.add a).toList from fun b => (hsub b).2)
  omega

/-- Everything listed is reached. -/
theorem reached_of_mem {g : Adjacency ι} {n : ℕ} {stack : List ι} {result : LinkedSet ι} {b : ι}
    (h : b ∈ reachFrom g n stack result) :
    b ∈ result ∨ ∃ a ∈ stack, ReflTransGen (Edge g) a b := by
  induction n generalizing stack result with
  | zero => exact Or.inl h
  | succ n ih =>
    cases stack with
    | nil => exact Or.inl h
    | cons a stack =>
      rw [reachFrom] at h
      by_cases ha : a ∈ result
      · rw [if_pos ha] at h
        rcases ih h with hb | ⟨c, hc, hcb⟩
        · exact Or.inl hb
        · exact Or.inr ⟨c, List.mem_cons_of_mem a hc, hcb⟩
      · rw [if_neg ha] at h
        rcases ih h with hb | ⟨c, hc, hcb⟩
        · rcases LinkedSet.mem_add.1 hb with hb | rfl
          · exact Or.inl hb
          · exact Or.inr ⟨b, List.mem_cons_self, .refl⟩
        · rcases List.mem_append.1 hc with hc | hc
          · exact Or.inr ⟨a, List.mem_cons_self, .head (List.mem_reverse.1 hc) hcb⟩
          · exact Or.inr ⟨c, List.mem_cons_of_mem a hc, hcb⟩

/-- The children of what is listed are listed or wait on the stack; so at the end the list is
closed. -/
theorem reachFrom_closed {g : Adjacency ι} {n : ℕ} {stack : List ι} {result : LinkedSet ι}
    (hn : stack.length + pending g result.toList ≤ n)
    (hcl : ∀ a ∈ result, ∀ b, Edge g a b → b ∈ result ∨ b ∈ stack) :
    (∀ a, a ∈ result ∨ a ∈ stack → a ∈ reachFrom g n stack result) ∧
      ∀ a ∈ reachFrom g n stack result, ∀ b, Edge g a b → b ∈ reachFrom g n stack result := by
  induction n generalizing stack result with
  | zero =>
    obtain rfl : stack = [] := List.length_eq_zero_iff.1 (by omega)
    exact ⟨by simp [reachFrom], by simpa [reachFrom] using hcl⟩
  | succ n ih =>
    cases stack with
    | nil => exact ⟨by simp [reachFrom], by simpa [reachFrom] using hcl⟩
    | cons a stack =>
      rw [List.length_cons] at hn
      rw [reachFrom]
      by_cases ha : a ∈ result
      · rw [if_pos ha]
        have hcl' : ∀ c ∈ result, ∀ b, Edge g c b → b ∈ result ∨ b ∈ stack := by
          intro c hc b hcb
          rcases hcl c hc b hcb with hb | hb
          · exact Or.inl hb
          · rcases List.mem_cons.1 hb with rfl | hb
            · exact Or.inl ha
            · exact Or.inr hb
        obtain ⟨h1, h2⟩ := ih (by omega) hcl'
        refine ⟨?_, h2⟩
        rintro b (hb | hb)
        · exact h1 b (Or.inl hb)
        · rcases List.mem_cons.1 hb with rfl | hb
          · exact h1 b (Or.inl ha)
          · exact h1 b (Or.inr hb)
      · rw [if_neg ha]
        have hpend := pending_add (g := g) ha
        have hcl' : ∀ c ∈ result.add a, ∀ b, Edge g c b →
            b ∈ result.add a ∨ b ∈ (children g a).reverse ++ stack := by
          intro c hc b hcb
          rcases LinkedSet.mem_add.1 hc with hc | rfl
          · rcases hcl c hc b hcb with hb | hb
            · exact Or.inl (LinkedSet.mem_add.2 (Or.inl hb))
            · rcases List.mem_cons.1 hb with rfl | hb
              · exact Or.inl (LinkedSet.mem_add.2 (Or.inr rfl))
              · exact Or.inr (List.mem_append.2 (Or.inr hb))
          · exact Or.inr (List.mem_append.2 (Or.inl (List.mem_reverse.2 hcb)))
        obtain ⟨h1, h2⟩ := ih (by
          rw [List.length_append, List.length_reverse]
          omega) hcl'
        refine ⟨?_, h2⟩
        rintro b (hb | hb)
        · exact h1 b (Or.inl (LinkedSet.mem_add.2 (Or.inl hb)))
        · rcases List.mem_cons.1 hb with rfl | hb
          · exact h1 b (Or.inl (LinkedSet.mem_add.2 (Or.inr rfl)))
          · exact h1 b (Or.inr (List.mem_append.2 (Or.inr hb)))

/-- **From the children of an id the loop lists what the id reaches.** -/
theorem mem_reach {g : Adjacency ι} {a b : ι} :
    b ∈ reach g (children g a).reverse ∅ ↔ TransGen (Edge g) a b := by
  constructor
  · intro h
    rcases reached_of_mem h with hb | ⟨c, hc, hcb⟩
    · exact absurd hb (LinkedSet.notMem_empty b)
    · exact .head' (List.mem_reverse.1 hc) hcb
  · intro h
    have hrounds : (children g a).reverse.length + pending g (∅ : LinkedSet ι).toList ≤
        (children g a).reverse.length + pending g (∅ : LinkedSet ι).toList := le_rfl
    obtain ⟨hstart, hclosed⟩ := reachFrom_closed hrounds (by simp)
    induction h with
    | single hab => exact hstart _ (Or.inr (List.mem_reverse.2 hab))
    | tail _ hbc ih => exact hclosed _ ih _ hbc

/-! ### Looking for a cycle -/

/-- Depth first search from the ids of a list, one after the other: `none` when one of them is on
the path that leads to it, else the ids visited so far. -/
def visit (g : Adjacency ι) : ℕ → List ι → List ι → List ι → Option (List ι)
  | _, _, visited, [] => some visited
  | 0, _, visited, _ :: _ => some visited
  | n + 1, inStack, visited, a :: rest =>
      if a ∈ inStack then none
      else if a ∈ visited then visit g n inStack visited rest
      else
        match visit g n (a :: inStack) (a :: visited) (children g a) with
        | none => none
        | some visited => visit g n inStack visited rest

/-- A search that stops early has found a cycle. -/
theorem exists_cycle_of_visit {g : Adjacency ι} {n : ℕ} {inStack visited l : List ι}
    (hpath : ∀ a ∈ inStack, ∀ b ∈ l, TransGen (Edge g) a b)
    (h : visit g n inStack visited l = none) : ∃ a, TransGen (Edge g) a a := by
  induction n generalizing inStack visited l with
  | zero => cases l <;> simp [visit] at h
  | succ n ih =>
    cases l with
    | nil => simp [visit] at h
    | cons a rest =>
      have hrest : ∀ c ∈ inStack, ∀ b ∈ rest, TransGen (Edge g) c b :=
        fun c hc b hb => hpath c hc b (List.mem_cons_of_mem a hb)
      rw [visit] at h
      by_cases hin : a ∈ inStack
      · exact ⟨a, hpath a hin a List.mem_cons_self⟩
      rw [if_neg hin] at h
      by_cases hvis : a ∈ visited
      · rw [if_pos hvis] at h
        exact ih hrest h
      rw [if_neg hvis] at h
      cases hv : visit g n (a :: inStack) (a :: visited) (children g a) with
      | none =>
        refine ih (fun c hc b hb => ?_) hv
        rcases List.mem_cons.1 hc with rfl | hc
        · exact .single hb
        · exact (hpath c hc a List.mem_cons_self).tail hb
      | some v =>
        rw [hv] at h
        exact ih hrest h

/-- One id of a search that goes on: it was visited before, or its children are searched next. -/
theorem visit_cons_cases {g : Adjacency ι} {n : ℕ} {inStack visited rest v : List ι} {a : ι}
    (h : visit g (n + 1) inStack visited (a :: rest) = some v) :
    a ∉ inStack ∧ ((a ∈ visited ∧ visit g n inStack visited rest = some v) ∨
      (a ∉ visited ∧ ∃ w, visit g n (a :: inStack) (a :: visited) (children g a) = some w ∧
        visit g n inStack w rest = some v)) := by
  rw [visit] at h
  split_ifs at h with hin hvis
  · exact ⟨hin, Or.inl ⟨hvis, h⟩⟩
  · cases hw : visit g n (a :: inStack) (a :: visited) (children g a) with
    | none => simp [hw] at h
    | some w =>
      rw [hw] at h
      exact ⟨hin, Or.inr ⟨hvis, w, rfl, h⟩⟩

theorem subset_of_visit {g : Adjacency ι} {n : ℕ} {inStack visited l v : List ι}
    (h : visit g n inStack visited l = some v) : visited ⊆ v := by
  induction n generalizing inStack visited l v with
  | zero =>
    obtain rfl : visited = v := by cases l <;> simpa [visit] using h
    exact List.Subset.refl _
  | succ n ih =>
    cases l with
    | nil =>
      obtain rfl : visited = v := by simpa [visit] using h
      exact List.Subset.refl _
    | cons a rest =>
      obtain ⟨-, ⟨-, hrest⟩ | ⟨-, w, hw, hrest⟩⟩ := visit_cons_cases h
      · exact ih hrest
      · intro b hb
        exact ih hrest (ih hw (List.mem_cons_of_mem a hb))

/-- What a search leaves behind has no infinite path ahead of it. -/
theorem acc_of_visit {g : Adjacency ι} {n : ℕ} {inStack visited l v : List ι}
    (hn : pending g visited + l.length ≤ n)
    (hacc : ∀ a ∈ visited, a ∉ inStack → Acc (fun b a => Edge g a b) a)
    (h : visit g n inStack visited l = some v) :
    (∀ a ∈ v, a ∉ inStack → Acc (fun b a => Edge g a b) a) ∧
      ∀ a ∈ l, Acc (fun b a => Edge g a b) a := by
  induction n generalizing inStack visited l v with
  | zero =>
    obtain rfl : l = [] := List.length_eq_zero_iff.1 (by omega)
    obtain rfl : visited = v := by simpa [visit] using h
    exact ⟨hacc, by simp⟩
  | succ n ih =>
    cases l with
    | nil =>
      obtain rfl : visited = v := by simpa [visit] using h
      exact ⟨hacc, by simp⟩
    | cons a rest =>
      rw [List.length_cons] at hn
      obtain ⟨hin, ⟨hvis, hrest⟩ | ⟨hvis, w, hv, hrest⟩⟩ := visit_cons_cases h
      · obtain ⟨h1, h2⟩ := ih (by omega) hacc hrest
        exact ⟨h1, List.forall_mem_cons.2 ⟨hacc a hvis hin, h2⟩⟩
      · have hpend := pending_cons (g := g) hvis
        -- while the children are searched, `a` itself is on the path
        obtain ⟨hw, hchildren⟩ := ih (by omega) (fun c hc hcs => by
          rcases List.mem_cons.1 hc with rfl | hc
          · exact absurd List.mem_cons_self hcs
          · exact hacc c hc fun hm => hcs (List.mem_cons_of_mem a hm)) hv
        have ha : Acc (fun b a => Edge g a b) a := Acc.intro a hchildren
        have hsub : visited ⊆ w := fun b hb => subset_of_visit hv (List.mem_cons_of_mem a hb)
        have hle := pending_le (g := g) hsub
        obtain ⟨h1, h2⟩ := ih (by omega) (fun c hc hcs => by
          by_cases hca : c = a
          · exact hca ▸ ha
          · exact hw c hc (by simp [hca, hcs])) hrest
        exact ⟨h1, List.forall_mem_cons.2 ⟨ha, h2⟩⟩

/-- The search with all the rounds it needs. -/
def cycleFrom (g : Adjacency ι) (l : List ι) : Bool :=
  (visit g (pending g [] + l.length) [] [] l).isNone

theorem exists_cycle_of_cycleFrom {g : Adjacency ι} {l : List ι} (h : cycleFrom g l = true) :
    ∃ a, TransGen (Edge g) a a :=
  exists_cycle_of_visit (by simp) (Option.isNone_iff_eq_none.1 h)

theorem acc_of_not_cycleFrom {g : Adjacency ι} {l : List ι} (h : cycleFrom g l = false) :
    ∀ a ∈ l, Acc (fun b a => Edge g a b) a := by
  obtain ⟨v, hv⟩ : ∃ v, visit g (pending g [] + l.length) [] [] l = some v := by
    rw [cycleFrom, Option.isNone_eq_false_iff] at h
    exact Option.isSome_iff_exists.1 h
  exact (acc_of_visit le_rfl (by simp) hv).2

/-- An id with no infinite path ahead of it is on no cycle. -/
theorem not_transGen_self_of_acc {α : Type*} {r : α → α → Prop} {a : α}
    (h : Acc (fun b a => r a b) a) : ¬ TransGen r a a := by
  have hacc : Acc (TransGen fun b a => r a b) a := h.transGen
  intro hcycle
  have hswap : TransGen (fun b a => r a b) a a := transGen_swap.2 hcycle
  clear h hcycle
  induction hacc with
  | intro a _ ih => exact ih a hswap hswap

/-! ### Kahn's algorithm -/

/-- The number of edges into each id: 0 for the given ones, then one more for each edge. -/
def inDegrees (g : Adjacency ι) (ids : List ι) : Map ι ℤ :=
  g.entries.foldl (fun deg e =>
      e.2.toList.foldl (fun deg b => put deg b ((deg.lookup b).getD 0 + 1)) deg)
    (ids.foldl (fun deg a => put deg a 0) ∅)

/-- What the loop carries along. -/
structure Sorting (ι : Type*) where
  inDegree : Map ι ℤ
  queue : List ι
  sorted : List ι

/-- The inner loop: an edge to `b` is done. -/
def release (st : Map ι ℤ × List ι) (b : ι) : Map ι ℤ × List ι :=
  let newDegree := (st.1.lookup b).getD 1 - 1
  (put st.1 b newDegree, if newDegree = 0 then st.2 ++ [b] else st.2)

/-- `while (queue.isNotEmpty())`. -/
def drain (g : Adjacency ι) : ℕ → Sorting ι → Sorting ι
  | 0, st => st
  | n + 1, st =>
      match st.queue with
      | [] => st
      | a :: queue =>
          let r := (children g a).foldl release (st.inDegree, queue)
          drain g n ⟨r.1, r.2, st.sorted ++ [a]⟩

/-- The start of the loop. -/
def sortingOf (g : Adjacency ι) (ids : List ι) : Sorting ι :=
  let deg := inDegrees g ids
  ⟨deg, (deg.entries.filter (·.2 = 0)).map (·.1), []⟩

/-- The order the algorithm finds, with all the rounds it needs. -/
def kahn (g : Adjacency ι) (ids : List ι) : List ι :=
  (drain g (inDegrees g ids).keys.length (sortingOf g ids)).sorted

/-- The sources of the edges into `b` that are not done. -/
def waiting (g : Adjacency ι) (done : List ι) (b : ι) : List ι :=
  g.keys.filter fun a => Edge g a b ∧ a ∉ done

theorem mem_of_edge {g : Adjacency ι} {a b : ι} (h : Edge g a b) : a ∈ g := by
  obtain ⟨s, hs, -⟩ := edge_iff.1 h
  exact mem_iff_exists.2 ⟨s, hs⟩

theorem mem_waiting {g : Adjacency ι} {done : List ι} {a b : ι} :
    a ∈ waiting g done b ↔ Edge g a b ∧ a ∉ done := by
  rw [waiting, List.mem_filter, decide_eq_true_eq]
  exact ⟨fun h => h.2, fun h => ⟨mem_of_edge h.1, h⟩⟩

theorem waiting_eq_nil {g : Adjacency ι} {done : List ι} {b : ι} :
    waiting g done b = [] ↔ ∀ a, Edge g a b → a ∈ done := by
  rw [List.eq_nil_iff_forall_not_mem]
  refine forall_congr' fun a => ?_
  rw [mem_waiting, not_and, not_not]

theorem waiting_snoc (g : Adjacency ι) (done : List ι) (a b : ι) :
    waiting g (done ++ [a]) b = (waiting g done b).erase a := by
  rw [waiting, waiting, (g.keys_nodup.filter _).erase_eq_filter, List.filter_filter]
  refine List.filter_congr fun c _ => ?_
  by_cases hc : c = a
  · simp [hc]
  · simp [hc]

/-- One more source done: the degree goes down by one where there is an edge. -/
theorem length_waiting_snoc {g : Adjacency ι} {done : List ι} {a : ι} (ha : a ∉ done) (b : ι) :
    ((waiting g (done ++ [a]) b).length : ℤ) =
      if b ∈ children g a then ((waiting g done b).length : ℤ) - 1
      else ((waiting g done b).length : ℤ) := by
  rw [waiting_snoc]
  by_cases hb : b ∈ children g a
  · have hmem : a ∈ waiting g done b := mem_waiting.2 ⟨hb, ha⟩
    have hpos := List.length_pos_of_mem hmem
    rw [if_pos hb, List.length_erase_of_mem hmem]
    omega
  · have hmem : a ∉ waiting g done b := fun h => hb (mem_waiting.1 h).1
    rw [if_neg hb, List.erase_of_not_mem hmem]

/-- The inner loop over ids without repetitions: each degree goes down by one, and the ids whose
degree was one join the queue. -/
theorem foldl_release {l : List ι} (hl : l.Nodup) (deg : Map ι ℤ) (queue : List ι)
    (hdeg : ∀ b ∈ l, b ∈ deg) :
    (∀ b, (l.foldl release (deg, queue)).1.lookup b =
      if b ∈ l then (deg.lookup b).map (· - 1) else deg.lookup b) ∧
      (l.foldl release (deg, queue)).2 = queue ++ l.filter fun b => deg.lookup b = some 1 := by
  induction l generalizing deg queue with
  | nil => simp
  | cons c l ih =>
    obtain ⟨hc, hl⟩ := List.nodup_cons.1 hl
    obtain ⟨d, hd⟩ := mem_iff_exists.1 (hdeg c List.mem_cons_self)
    have hrel : release (deg, queue) c =
        (put deg c (d - 1), if d = 1 then queue ++ [c] else queue) := by
      simp only [release, hd, Option.getD_some, sub_eq_zero]
    have hne : ∀ b ∈ l, b ≠ c := fun b hb h => hc (h ▸ hb)
    obtain ⟨h1, h2⟩ := ih hl (put deg c (d - 1)) (if d = 1 then queue ++ [c] else queue)
      fun b hb => mem_put.2 (Or.inl (hdeg b (List.mem_cons_of_mem c hb)))
    rw [List.foldl_cons, hrel]
    refine ⟨fun b => ?_, ?_⟩
    · rw [h1 b]
      by_cases hbc : b = c
      · subst hbc
        simp [hc, hd]
      · simp [hbc, lookup_put_ne]
    · rw [h2, List.filter_cons, hd]
      have hfilter : (l.filter fun b => (put deg c (d - 1)).lookup b = some 1) =
          l.filter fun b => deg.lookup b = some 1 := by
        refine List.filter_congr fun b hb => ?_
        rw [lookup_put_ne deg _ (hne b hb)]
      rw [hfilter]
      by_cases hd1 : d = 1
      · simp [hd1]
      · simp [hd1]

/-- A number that comes into being with the first thing counted. -/
def bump : Option ℤ → ℕ → Option ℤ
  | o, 0 => o
  | o, n + 1 => some (o.getD 0 + (n + 1))

theorem bump_bump (o : Option ℤ) (m n : ℕ) : bump (bump o m) n = bump o (m + n) := by
  cases m with
  | zero => simp [bump]
  | succ m =>
    cases n with
    | zero => rfl
    | succ n =>
      show some (o.getD 0 + (m + 1) + (n + 1)) = some (o.getD 0 + ((m + 1 + n : ℕ) + 1))
      push_cast
      congr 1
      omega

theorem lookup_foldl_count {l : List ι} (hl : l.Nodup) (deg : Map ι ℤ) (b : ι) :
    (l.foldl (fun deg b => put deg b ((deg.lookup b).getD 0 + 1)) deg).lookup b =
      bump (deg.lookup b) (if b ∈ l then 1 else 0) := by
  induction l generalizing deg with
  | nil => rfl
  | cons c l ih =>
    obtain ⟨hc, hl⟩ := List.nodup_cons.1 hl
    rw [List.foldl_cons, ih hl, lookup_put]
    by_cases hbc : b = c
    · subst hbc
      simp [hc, bump]
    · simp [hbc]

theorem lookup_foldl_zero (ids : List ι) (deg : Map ι ℤ) (b : ι) :
    (ids.foldl (fun deg a => put deg a 0) deg).lookup b =
      if b ∈ ids then some 0 else deg.lookup b := by
  induction ids generalizing deg with
  | nil => simp
  | cons a ids ih =>
    rw [List.foldl_cons, ih, lookup_put]
    by_cases hb : b ∈ ids
    · simp [hb]
    · by_cases hba : b = a
      · simp [hba]
      · simp [hb, hba]

theorem lookup_foldl_entries (es : List (Sigma fun _ : ι => LinkedSet ι)) (deg : Map ι ℤ) (b : ι) :
    (es.foldl (fun deg e =>
        e.2.toList.foldl (fun deg b => put deg b ((deg.lookup b).getD 0 + 1)) deg) deg).lookup b =
      bump (deg.lookup b) (es.filter fun e => b ∈ e.2).length := by
  induction es generalizing deg with
  | nil => rfl
  | cons e es ih =>
    rw [List.foldl_cons, ih, lookup_foldl_count e.2.nodup, bump_bump, List.filter_cons]
    congr 1
    by_cases hb : b ∈ e.2
    · simp [hb, Nat.add_comm]
    · simp [hb]

theorem length_filter_entries (g : Adjacency ι) (b : ι) :
    (g.entries.filter fun e => b ∈ e.2).length = (waiting g [] b).length := by
  have hkeys : waiting g [] b = (g.entries.filter fun e => b ∈ e.2).map (·.1) := by
    rw [waiting, show g.keys = g.entries.map (·.1) from rfl, List.filter_map]
    congr 1
    refine List.filter_congr fun e he => ?_
    have hlookup : g.lookup e.1 = some e.2 := AList.mem_lookup_iff.2 he
    simp [edge_iff, hlookup]
  rw [hkeys, List.length_map]

/-- The ids the algorithm counts. -/
def Tracked (g : Adjacency ι) (ids : List ι) (b : ι) : Prop := b ∈ ids ∨ ∃ a, Edge g a b

theorem lookup_inDegrees (g : Adjacency ι) (ids : List ι) (b : ι) :
    (Tracked g ids b → (inDegrees g ids).lookup b = some ((waiting g [] b).length : ℤ)) ∧
      (¬ Tracked g ids b → (inDegrees g ids).lookup b = none) := by
  have heq : (inDegrees g ids).lookup b =
      bump (if b ∈ ids then some 0 else none) (waiting g [] b).length := by
    rw [inDegrees, lookup_foldl_entries, lookup_foldl_zero, length_filter_entries]
    rfl
  have hnil : (∀ a, ¬ Edge g a b) → waiting g [] b = [] := by
    intro h
    exact waiting_eq_nil.2 fun a ha => absurd ha (h a)
  rw [heq]
  constructor
  · intro ht
    cases hw : waiting g [] b with
    | nil =>
      have hb : b ∈ ids := by
        rcases ht with hb | ⟨a, ha⟩
        · exact hb
        · have := waiting_eq_nil.1 hw a ha
          cases this
      simp [hb, bump]
    | cons a l =>
      rw [List.length_cons, bump]
      split
      · simp
      · simp
  · intro ht
    have hb : b ∉ ids := fun h => ht (Or.inl h)
    rw [hnil fun a ha => ht (Or.inr ⟨a, ha⟩), if_neg hb]
    rfl

/-- What holds before every round: the degrees count the sources still to come, and the ids whose
sources are all listed are the ones listed or queued. -/
structure Sorting.Inv (g : Adjacency ι) (ids : List ι) (st : Sorting ι) : Prop where
  degree : ∀ b, Tracked g ids b → st.inDegree.lookup b = some ((waiting g st.sorted b).length : ℤ)
  nodup : (st.sorted ++ st.queue).Nodup
  ready : ∀ b, b ∈ st.sorted ++ st.queue ↔ Tracked g ids b ∧ ∀ a, Edge g a b → a ∈ st.sorted
  ordered : st.sorted.Pairwise fun a b => ¬ Edge g b a

theorem inv_sortingOf (g : Adjacency ι) (ids : List ι) : (sortingOf g ids).Inv g ids where
  degree b ht := (lookup_inDegrees g ids b).1 ht
  nodup := by
    have hsub : List.Sublist (((inDegrees g ids).entries.filter (·.2 = 0)).map (·.1))
        (inDegrees g ids).keys := List.filter_sublist.map _
    exact hsub.nodup (inDegrees g ids).keys_nodup
  ready b := by
    have hmem : b ∈ (sortingOf g ids).sorted ++ (sortingOf g ids).queue ↔
        (inDegrees g ids).lookup b = some 0 := by
      show b ∈ ((inDegrees g ids).entries.filter (·.2 = 0)).map (·.1) ↔ _
      rw [← Option.mem_def, AList.mem_lookup_iff, List.mem_map]
      constructor
      · rintro ⟨⟨c, v⟩, he, rfl⟩
        obtain ⟨he, hv⟩ := List.mem_filter.1 he
        obtain rfl : v = 0 := by simpa using hv
        exact he
      · intro he
        exact ⟨⟨b, 0⟩, List.mem_filter.2 ⟨he, by simp⟩, rfl⟩
    rw [hmem]
    by_cases ht : Tracked g ids b
    · rw [(lookup_inDegrees g ids b).1 ht, ← waiting_eq_nil, ← List.length_eq_zero_iff]
      simp only [Option.some.injEq, Nat.cast_eq_zero, ht, true_and]
      rfl
    · rw [(lookup_inDegrees g ids b).2 ht]
      simp [ht]
  ordered := List.Pairwise.nil

/-- A round keeps the invariant. -/
theorem Sorting.Inv.round {g : Adjacency ι} {ids : List ι} {deg : Map ι ℤ} {a : ι}
    {queue sorted : List ι} (h : Sorting.Inv g ids ⟨deg, a :: queue, sorted⟩) :
    Sorting.Inv g ids ⟨((children g a).foldl release (deg, queue)).1,
      ((children g a).foldl release (deg, queue)).2, sorted ++ [a]⟩ := by
  obtain ⟨hdeg, hnd, hready, hord⟩ := h
  simp only at hdeg hnd hready hord
  have ha : a ∉ sorted := by
    intro hm
    exact (List.nodup_append.1 hnd).2.2 a hm a List.mem_cons_self rfl
  have htracked : ∀ b ∈ children g a, Tracked g ids b := fun b hb => Or.inr ⟨a, hb⟩
  obtain ⟨hlookup, hqueue⟩ := foldl_release (children_nodup g a) deg queue fun b hb =>
    mem_iff_exists.2 ⟨_, hdeg b (htracked b hb)⟩
  have hlast : ∀ b ∈ children g a,
      (deg.lookup b = some 1 ↔ ∀ c, Edge g c b → c ∈ sorted ++ [a]) := by
    intro b hb
    have hlen := length_waiting_snoc (g := g) ha b
    rw [if_pos hb] at hlen
    rw [hdeg b (htracked b hb), ← waiting_eq_nil, ← List.length_eq_zero_iff, Option.some.injEq]
    omega
  have hnew : ∀ b, b ∈ (children g a).filter (fun b => deg.lookup b = some 1) ↔
      Edge g a b ∧ ∀ c, Edge g c b → c ∈ sorted ++ [a] := by
    intro b
    rw [List.mem_filter, decide_eq_true_eq]
    constructor
    · rintro ⟨hb, hd⟩
      exact ⟨hb, (hlast b hb).1 hd⟩
    · rintro ⟨hb, hd⟩
      exact ⟨hb, (hlast b hb).2 hd⟩
  rw [hqueue]
  refine ⟨fun b hb => ?_, ?_, fun b => ?_, ?_⟩
  · rw [hlookup b, hdeg b hb, length_waiting_snoc ha b]
    split
    · rfl
    · rfl
  · -- what joins the queue had `a` among its sources, so it was not there before
    rw [List.append_assoc, List.singleton_append, ← List.cons_append, ← List.append_assoc]
    refine hnd.append ((children_nodup g a).filter _) ?_
    intro b hb hb'
    obtain ⟨hab, -⟩ := (hnew b).1 hb'
    exact ha (((hready b).1 hb).2 a hab)
  · have hold : b ∈ sorted ++ [a] ++
          (queue ++ (children g a).filter fun b => deg.lookup b = some 1) ↔
        b ∈ sorted ++ a :: queue ∨ b ∈ (children g a).filter fun b => deg.lookup b = some 1 := by
      simp only [List.mem_append, List.mem_cons, or_assoc, List.not_mem_nil, or_false]
    rw [hold, hready, hnew]
    constructor
    · rintro (⟨ht, hall⟩ | ⟨hab, hall⟩)
      · exact ⟨ht, fun c hc => List.mem_append.2 (Or.inl (hall c hc))⟩
      · exact ⟨htracked b hab, hall⟩
    · rintro ⟨ht, hall⟩
      by_cases hab : Edge g a b
      · exact Or.inr ⟨hab, hall⟩
      · refine Or.inl ⟨ht, fun c hc => ?_⟩
        rcases List.mem_append.1 (hall c hc) with hs | hs
        · exact hs
        · exact absurd (List.mem_singleton.1 hs ▸ hc) hab
  · rw [List.pairwise_append]
    refine ⟨hord, List.pairwise_singleton _ a, ?_⟩
    intro b hb c hc hcb
    obtain rfl := List.mem_singleton.1 hc
    exact ha (((hready b).1 (List.mem_append.2 (Or.inl hb))).2 c hcb)

theorem Sorting.Inv.drain {g : Adjacency ι} {ids : List ι} {n : ℕ} {st : Sorting ι}
    (h : st.Inv g ids) : (drain g n st).Inv g ids := by
  induction n generalizing st with
  | zero => exact h
  | succ n ih =>
    obtain ⟨deg, queue, sorted⟩ := st
    cases queue with
    | nil => exact h
    | cons a queue => exact ih h.round

/-- With a round for every id that is not listed yet the queue runs empty. -/
theorem queue_drain {g : Adjacency ι} {ids all : List ι} (hall : ∀ b, Tracked g ids b → b ∈ all)
    {n : ℕ} {st : Sorting ι} (h : st.Inv g ids) (hn : all.length ≤ st.sorted.length + n) :
    (Graphs.drain g n st).queue = [] := by
  induction n generalizing st with
  | zero =>
    have hsub : st.sorted ++ st.queue ⊆ all := fun b hb => hall b ((h.ready b).1 hb).1
    have hle := (List.subperm_of_subset h.nodup hsub).length_le
    rw [List.length_append] at hle
    show st.queue = []
    exact List.length_eq_zero_iff.1 (by omega)
  | succ n ih =>
    obtain ⟨deg, queue, sorted⟩ := st
    cases queue with
    | nil => rfl
    | cons a queue =>
      refine ih h.round ?_
      simp only [List.length_append, List.length_singleton]
      simp only at hn
      omega

/-- **Kahn's algorithm lists each id at most once, no id before one of its sources, and exactly
the ids it counts whose sources it lists all.** -/
theorem kahn_spec (g : Adjacency ι) (ids : List ι) :
    (kahn g ids).Nodup ∧ (kahn g ids).Pairwise (fun a b => ¬ Edge g b a) ∧
      ∀ b, b ∈ kahn g ids ↔ Tracked g ids b ∧ ∀ a, Edge g a b → a ∈ kahn g ids := by
  have hinv := (inv_sortingOf g ids).drain (n := (inDegrees g ids).keys.length)
  have hall : ∀ b, Tracked g ids b → b ∈ (inDegrees g ids).keys :=
    fun b hb => mem_iff_exists.2 ⟨_, (lookup_inDegrees g ids b).1 hb⟩
  have hempty := queue_drain hall (inv_sortingOf g ids) (Nat.le_add_left _ _)
  obtain ⟨-, hnd, hready, hord⟩ := hinv
  rw [hempty, List.append_nil] at hnd hready
  exact ⟨hnd, hord, hready⟩

/-- In a list without a pair the wrong way round, the start of a pair stands first. -/
theorem idxOf_lt_of_pairwise {α : Type*} [BEq α] [LawfulBEq α] {l : List α} {r : α → α → Prop}
    (h : l.Pairwise fun a b => ¬ r b a) {a b : α} (ha : a ∈ l) (hb : b ∈ l) (hne : a ≠ b)
    (hab : r a b) : l.idxOf a < l.idxOf b := by
  by_contra hnot
  have hle : l.idxOf b < l.idxOf a := by
    refine lt_of_le_of_ne (not_lt.1 hnot) fun he => hne ?_
    exact (List.idxOf_inj ha).1 he.symm
  have hpair := List.pairwise_iff_getElem.1 h _ _ (List.idxOf_lt_length_iff.2 hb)
    (List.idxOf_lt_length_iff.2 ha) hle
  rw [List.getElem_idxOf, List.getElem_idxOf] at hpair
  exact hpair hab

/-- A finite graph without cycles has no infinite path back. -/
theorem acc_of_acyclic {g : Adjacency ι} (h : ∀ a, ¬ TransGen (Edge g) a a) (b : ι) :
    Acc (Edge g) b := by
  let r : { a // a ∈ g.keys } → { a // a ∈ g.keys } → Prop := fun a b => TransGen (Edge g) a.1 b.1
  have : IsTrans _ r := ⟨fun _ _ _ hab hbc => hab.trans hbc⟩
  have : Std.Irrefl r := ⟨fun a => h a.1⟩
  have hwf : WellFounded r := Finite.wellFounded_of_trans_of_irrefl r
  have hkeys : ∀ a : { a // a ∈ g.keys }, Acc (Edge g) a.1 := by
    intro a
    induction a using hwf.induction with
    | _ a ih => exact Acc.intro a.1 fun c hc => ih ⟨c, mem_of_edge hc⟩ (.single hc)
  exact Acc.intro b fun c hc => hkeys ⟨c, mem_of_edge hc⟩

/-- Where every edge starts in one of the ids and there is no infinite path back, all are
listed. -/
theorem mem_kahn_of_acc {g : Adjacency ι} {ids : List ι} (hedge : ∀ a b, Edge g a b → a ∈ ids)
    {b : ι} (hacc : Acc (Edge g) b) (hb : b ∈ ids) : b ∈ kahn g ids := by
  induction hacc with
  | intro b _ ih =>
    exact ((kahn_spec g ids).2.2 b).2 ⟨Or.inl hb, fun a ha => ih a ha (hedge a b ha)⟩

end Graphs
