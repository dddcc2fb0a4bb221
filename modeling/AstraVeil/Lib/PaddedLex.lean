import Mathlib.Order.PiLex
import Mathlib.Tactic

/-!
# The lexicographic order on padded lists

Lists of any length are compared as sequences: behind its end a list goes on with a value `d`.
The order of the sequences is Mathlib's order on `Lex (ℕ → α)`, a linear order.

* `before_iff_of_firstDiff`: the first place where two sequences differ decides;
* `before_iff_rest`: places where they agree do not matter;
* `before_iff_at`: a place before which they agree decides, or passes on to the rest;
* `strictWeakOrder_comap`: an order that compares keys is a strict weak order.
-/

namespace PaddedLex

variable {α β ι : Type*}

/-- The list, continued with `d`. -/
def padded (d : α) (l : List α) : ℕ → α := fun i => l.getD i d

@[simp] theorem padded_nil (d : α) (i : ℕ) : padded d [] i = d := by simp [padded]

@[simp] theorem padded_cons_zero (d a : α) (l : List α) : padded d (a :: l) 0 = a := by
  simp [padded]

@[simp] theorem padded_cons_succ (d a : α) (l : List α) (i : ℕ) :
    padded d (a :: l) (i + 1) = padded d l i := by
  simp [padded]

theorem padded_of_length_le {d : α} {l : List α} {i : ℕ} (h : l.length ≤ i) : padded d l i = d := by
  rw [padded, List.getD_eq_getElem?_getD, List.getElem?_eq_none h, Option.getD_none]

/-- One more `d` at the end changes nothing. -/
theorem padded_concat (d : α) (l : List α) : padded d (l ++ [d]) = padded d l := by
  induction l with
  | nil =>
    funext i
    cases i <;> simp
  | cons a l ih =>
    funext i
    cases i with
    | zero => rfl
    | succ i => exact congrFun ih i

theorem padded_map (f : α → β) (d : α) (l : List α) : padded (f d) (l.map f) = f ∘ padded d l := by
  funext i
  simp only [padded, List.getD_eq_getElem?_getD, List.getElem?_map, Function.comp_apply]
  cases l[i]? <;> rfl

/-- The first place where two sequences differ. -/
def FirstDiff (x y : ℕ → α) (i : ℕ) : Prop := x i ≠ y i ∧ ∀ j < i, x j = y j

theorem exists_firstDiff {x y : ℕ → α} (h : x ≠ y) : ∃ i, FirstDiff x y i := by
  classical
  have hex : ∃ i, x i ≠ y i := Function.ne_iff.1 h
  exact ⟨Nat.find hex, Nat.find_spec hex, fun j hj => not_not.1 (Nat.find_min hex hj)⟩

/-- `x` without its first `n` values. -/
def rest (n : ℕ) (x : ℕ → α) : ℕ → α := fun i => x (n + i)

@[simp] theorem rest_zero (x : ℕ → α) : rest 0 x = x := funext fun i => congrArg x (Nat.zero_add i)

theorem rest_rest (n m : ℕ) (x : ℕ → α) : rest m (rest n x) = rest (n + m) x :=
  funext fun i => congrArg x (Nat.add_assoc n m i).symm

section Order

variable [LinearOrder α] [LinearOrder β]

/-- `x` comes before `y` in the lexicographic order. -/
def Before (x y : ℕ → α) : Prop := toLex x < toLex y

theorem before_iff {x y : ℕ → α} : Before x y ↔ ∃ i, (∀ j < i, x j = y j) ∧ x i < y i := Iff.rfl

theorem not_before_self (x : ℕ → α) : ¬ Before x x := lt_irrefl (toLex x)

/-- Places where two sequences agree do not matter. -/
theorem before_iff_rest {x y : ℕ → α} {n : ℕ} (h : ∀ j < n, x j = y j) :
    Before x y ↔ Before (rest n x) (rest n y) := by
  rw [before_iff, before_iff]
  constructor
  · rintro ⟨i, heq, hlt⟩
    have hn : n ≤ i := by
      by_contra hi
      exact hlt.ne (h i (by omega))
    obtain ⟨k, rfl⟩ := Nat.exists_eq_add_of_le hn
    exact ⟨k, fun j hj => heq (n + j) (by omega), hlt⟩
  · rintro ⟨k, heq, hlt⟩
    refine ⟨n + k, fun j hj => ?_, hlt⟩
    by_cases hjn : j < n
    · exact h j hjn
    · obtain ⟨m, rfl⟩ := Nat.exists_eq_add_of_le (not_lt.1 hjn)
      exact heq m (by omega)

/-- The first place where two sequences differ decides. -/
theorem before_iff_of_firstDiff {x y : ℕ → α} {i : ℕ} (h : FirstDiff x y i) :
    Before x y ↔ x i < y i := by
  refine ⟨?_, fun hlt => ⟨i, h.2, hlt⟩⟩
  rintro ⟨k, heq, hlt⟩
  rcases lt_trichotomy k i with hk | rfl | hk
  · exact absurd (h.2 k hk) hlt.ne
  · exact hlt
  · exact absurd (heq i hk) h.1

/-- The order of two sequences at a place that decides or passes on to the rest. -/
theorem before_iff_at {x y : ℕ → α} {i : ℕ} (h : ∀ j < i, x j = y j) :
    Before x y ↔ x i < y i ∨ x i = y i ∧ Before (rest (i + 1) x) (rest (i + 1) y) := by
  by_cases hi : x i = y i
  · have hnext : ∀ j < i + 1, x j = y j := by
      intro j hj
      rcases Nat.lt_succ_iff_lt_or_eq.1 hj with hj | rfl
      · exact h j hj
      · exact hi
    simp [before_iff_rest hnext, hi]
  · simp [before_iff_of_firstDiff ⟨hi, h⟩, hi]

end Order

/-! ### Orders that compare keys -/

/-- A strict weak order: nothing is before itself, the order is transitive, and being
incomparable is an equivalence. -/
structure StrictWeakOrder (lt : ι → ι → Prop) : Prop where
  irrefl : ∀ a, ¬ lt a a
  trans : ∀ a b c, lt a b → lt b c → lt a c
  incomparable : Equivalence fun a b => ¬ lt a b ∧ ¬ lt b a

theorem strictWeakOrder_comap [LinearOrder β] {lt : ι → ι → Prop} (key : ι → β)
    (h : ∀ a b, lt a b ↔ key a < key b) : StrictWeakOrder lt := by
  have heq : ∀ a b, ¬ lt a b ∧ ¬ lt b a ↔ key a = key b := by
    intro a b
    rw [h, h, not_lt, not_lt, and_comm, ← le_antisymm_iff]
  refine ⟨fun a => ?_, fun a b c hab hbc => ?_, ⟨fun a => ?_, fun hab => ?_, fun hab hbc => ?_⟩⟩
  · rw [h]
    exact lt_irrefl _
  · rw [h] at hab hbc ⊢
    exact hab.trans hbc
  · exact (heq a a).2 rfl
  · exact (heq _ _).2 ((heq _ _).1 hab).symm
  · exact (heq _ _).2 (((heq _ _).1 hab).trans ((heq _ _).1 hbc))

/-- Along a chain of steps upwards one never comes back. -/
theorem StrictWeakOrder.acyclic {lt : ι → ι → Prop} (h : StrictWeakOrder lt) (a : ι) :
    ¬ Relation.TransGen lt a a := by
  have htrans : ∀ b, Relation.TransGen lt a b → lt a b := by
    intro b hb
    induction hb with
    | single hab => exact hab
    | tail _ hbc ih => exact h.trans _ _ _ ih hbc
  exact fun hcycle => h.irrefl a (htrans a hcycle)

end PaddedLex
