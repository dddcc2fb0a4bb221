import Mathlib.Tactic

/-!
# Runs of a deterministic step function

A system is a step function `step : S → A → S`; the environment chooses the actions.  A finite
run is the list of its actions, and `run step s as` is the state it ends in.

* `along_iff`: a condition along a run is a condition at every cut of it;
* `along_of_invariant`: a condition that implies another one on an invariant it keeps;
* `along_congr_of`: conditions that agree on an invariant hold along the same runs
  (`along_congr_on`: where the steps of the run are known to satisfy something else);
* `along_iff_cuts`: a condition that says exactly when one step keeps a property says along a run
  exactly when the property holds throughout;
* `prefixes_iff_along`, `prefixes_iff_along_on`: the same, for all states of the run;
* `run_invariant`: what every step preserves, every run preserves;
* `run_invariant_of`: the same for runs all of whose actions meet a side condition, which may
  depend on the state the action is taken in (`Along`).

A loop whose body may fail is `List.foldlM` in `Option`:

* `foldlM_total`: a body that never fails on the invariant gives a loop that never fails;
* `foldlM_invariant`: what the rounds that return preserve;
* `foldlM_visit`: the rule for a loop that does something to every element it visits, when the
  state only evolves along a preorder that keeps what was done.
-/

namespace Runs

variable {S A : Type*}

/-- The state after the actions `as`, taken in order. -/
def run (step : S → A → S) (s : S) (as : List A) : S := as.foldl step s

/-- Every action of the run satisfies `ok` in the state it is taken in. -/
def Along (step : S → A → S) (ok : S → A → Prop) : S → List A → Prop
  | _, [] => True
  | s, a :: as => ok s a ∧ Along step ok (step s a) as

variable {step : S → A → S}

@[simp] theorem run_nil (s : S) : run step s [] = s := rfl

@[simp] theorem run_cons (s : S) (a : A) (as : List A) :
    run step s (a :: as) = run step (step s a) as := rfl

theorem run_append (s : S) (as bs : List A) :
    run step s (as ++ bs) = run step (run step s as) bs := List.foldl_append

theorem along_append {ok : S → A → Prop} {s : S} {as bs : List A} :
    Along step ok s (as ++ bs) ↔ Along step ok s as ∧ Along step ok (run step s as) bs := by
  induction as generalizing s with
  | nil => simp [Along]
  | cons a as ih => simp [Along, ih, and_assoc]

theorem along_and {p q : S → A → Prop} {s : S} {as : List A} :
    Along step (fun s a => p s a ∧ q s a) s as ↔ Along step p s as ∧ Along step q s as := by
  induction as generalizing s with
  | nil => simp [Along]
  | cons a as ih =>
    simp only [Along, ih]
    tauto

/-- Steps that meet `p` keep the invariant, and on the invariant they meet `q`. -/
theorem along_of_invariant {I : S → Prop} {p q : S → A → Prop}
    (hstep : ∀ s a, I s → p s a → q s a ∧ I (step s a)) {s : S} {as : List A} (h0 : I s)
    (h : Along step p s as) : Along step q s as := by
  induction as generalizing s with
  | nil => trivial
  | cons a as ih =>
    obtain ⟨hq, hI⟩ := hstep s a h0 h.1
    exact ⟨hq, ih hI h.2⟩

/-- A condition on the actions alone. -/
theorem along_forall {ok : A → Prop} {s : S} {as : List A} :
    Along step (fun _ a => ok a) s as ↔ ∀ a ∈ as, ok a := by
  induction as generalizing s with
  | nil => simp [Along]
  | cons a as ih => simp [Along, ih]

/-- Two conditions that agree on an invariant which the second one keeps, on a run whose steps all
satisfy `c`. -/
theorem along_congr_on {I : S → Prop} {c p q : S → A → Prop}
    (hiff : ∀ s a, I s → c s a → (p s a ↔ q s a))
    (hkeep : ∀ s a, I s → c s a → q s a → I (step s a)) {s : S} {as : List A} (h0 : I s)
    (hc : Along step c s as) : Along step p s as ↔ Along step q s as := by
  induction as generalizing s with
  | nil => exact Iff.rfl
  | cons a as ih =>
    simp only [Along, hiff s a h0 hc.1]
    exact and_congr_right fun hq => ih (hkeep s a h0 hc.1 hq) hc.2

/-- Two conditions that agree on an invariant which the second one keeps. -/
theorem along_congr_of {I : S → Prop} {p q : S → A → Prop}
    (hiff : ∀ s a, I s → (p s a ↔ q s a)) (hkeep : ∀ s a, I s → q s a → I (step s a))
    {s : S} {as : List A} (h0 : I s) : Along step p s as ↔ Along step q s as :=
  along_congr_on (c := fun _ _ => True) (fun s a hI _ => hiff s a hI)
    (fun s a hI _ => hkeep s a hI) h0 (along_forall.2 fun _ _ => trivial)

/-- The cuts of a list with one more element at its end. -/
theorem forall_cuts_concat {P : List A → A → Prop} {as : List A} {a : A} :
    (∀ pre b post, as ++ [a] = pre ++ b :: post → P pre b) ↔
      (∀ pre b post, as = pre ++ b :: post → P pre b) ∧ P as a := by
  constructor
  · intro h
    refine ⟨fun pre b post hcut => h pre b (post ++ [a]) ?_, h as a [] rfl⟩
    rw [hcut, List.append_assoc]
    rfl
  · rintro ⟨h, ha⟩ pre b post hcut
    rcases List.eq_nil_or_concat post with rfl | ⟨post, x, rfl⟩
    · obtain ⟨rfl, hx⟩ := List.append_inj' hcut rfl
      obtain rfl := List.head_eq_of_cons_eq hx
      exact ha
    · have hcut' : as ++ [a] = (pre ++ b :: post) ++ [x] := by simpa using hcut
      exact h pre b post (List.append_inj' hcut' rfl).1

/-- What holds along a run holds wherever the run is cut. -/
theorem along_iff {ok : S → A → Prop} {s : S} {as : List A} :
    Along step ok s as ↔ ∀ pre a post, as = pre ++ a :: post → ok (run step s pre) a := by
  constructor
  · rintro h pre a post rfl
    exact (along_append.1 h).2.1
  · intro h
    induction as generalizing s with
    | nil => trivial
    | cons a as ih =>
      refine ⟨h [] a as rfl, ih fun pre b post hab => ?_⟩
      exact h (a :: pre) b post (by rw [hab]; rfl)

/-- A step invariant, under a side condition on the actions, is a run invariant. -/
theorem run_invariant_of {ok : S → A → Prop} {I : S → Prop}
    (hstep : ∀ s a, I s → ok s a → I (step s a)) {s : S} {as : List A}
    (h0 : I s) (hok : Along step ok s as) : I (run step s as) := by
  induction as generalizing s with
  | nil => exact h0
  | cons a as ih => exact ih (hstep s a h0 hok.1) hok.2

/-- A step invariant is a run invariant. -/
theorem run_invariant {I : S → Prop} (hstep : ∀ s a, I s → I (step s a)) {s : S}
    (h0 : I s) (as : List A) : I (run step s as) := by
  induction as generalizing s with
  | nil => exact h0
  | cons a as ih => exact ih (hstep s a h0)

/-- Where `ok` says exactly when a step keeps `I` and has the property `G`, it says along a run
exactly when all its steps do. -/
theorem along_iff_cuts {I : S → Prop} {G ok : S → A → Prop}
    (hstep : ∀ s a, I s → (I (step s a) ∧ G s a ↔ ok s a)) {s : S} {as : List A} (h0 : I s) :
    Along step ok s as ↔
      ∀ pre a post, as = pre ++ a :: post →
        I (run step s (pre ++ [a])) ∧ G (run step s pre) a := by
  induction as generalizing s with
  | nil => simp [Along]
  | cons a as ih =>
    constructor
    · rintro ⟨hok, hrest⟩ pre b post heq
      have hI := (hstep s a h0).2 hok
      cases pre with
      | nil =>
        obtain ⟨rfl, -⟩ := List.cons.inj heq
        exact hI
      | cons c pre =>
        obtain ⟨rfl, htail⟩ := List.cons.inj heq
        exact (ih hI.1).1 hrest pre b post htail
    · intro h
      have hI := h [] a as rfl
      refine ⟨(hstep s a h0).1 hI, (ih hI.1).2 fun pre b post heq => ?_⟩
      exact h (a :: pre) b post (by rw [heq]; rfl)

/-- Where `ok` says exactly when a step keeps `P`, it says along a run exactly when all states of
the run have `P`.  The steps of the run are known to satisfy `c`, and so to keep `I`. -/
theorem prefixes_iff_along_on {I P : S → Prop} {c ok : S → A → Prop}
    (hstep : ∀ s a, I s → P s → c s a → (P (step s a) ↔ ok s a))
    (hkeep : ∀ s a, I s → c s a → I (step s a)) {s : S} {as : List A} (h0 : I s) (hP : P s)
    (hc : Along step c s as) :
    (∀ pre post, as = pre ++ post → P (run step s pre)) ↔ Along step ok s as := by
  induction as generalizing s with
  | nil =>
    refine iff_of_true (fun pre post h => ?_) trivial
    rw [(List.append_eq_nil_iff.1 h.symm).1]
    exact hP
  | cons a as ih =>
    have hiff := hstep s a h0 hP hc.1
    constructor
    · intro h
      have hnext : P (step s a) := h [a] as rfl
      refine ⟨hiff.1 hnext, (ih (hkeep s a h0 hc.1) hnext hc.2).1 fun pre post heq => ?_⟩
      exact h (a :: pre) post (by rw [heq]; rfl)
    · rintro ⟨hok, hrest⟩ pre post heq
      cases pre with
      | nil => exact hP
      | cons b pre =>
        obtain ⟨rfl, htail⟩ := List.cons.inj heq
        exact (ih (hkeep s a h0 hc.1) (hiff.2 hok) hc.2).2 hrest pre post htail

/-- Where `ok` says exactly when a step keeps `I`, it says along a run exactly when all states of
the run have `I`. -/
theorem prefixes_iff_along {I : S → Prop} {ok : S → A → Prop}
    (hstep : ∀ s a, I s → (I (step s a) ↔ ok s a)) {s : S} {as : List A} (h0 : I s) :
    (∀ pre post, as = pre ++ post → I (run step s pre)) ↔ Along step ok s as :=
  prefixes_iff_along_on (I := fun _ => True) (c := fun _ _ => True)
    (fun s a _ h _ => hstep s a h) (fun _ _ _ _ => trivial) trivial h0
    (along_forall.2 fun _ _ => trivial)

/-! ### Loops with a body that may fail -/

variable {f : S → A → Option S}

theorem foldlM_total {I : S → Prop} (hf : ∀ s a, I s → ∃ s', f s a = some s' ∧ I s')
    {s : S} (h0 : I s) (l : List A) : ∃ s', l.foldlM f s = some s' ∧ I s' := by
  induction l generalizing s with
  | nil => exact ⟨s, rfl, h0⟩
  | cons a l ih =>
    obtain ⟨s₁, h₁, hI⟩ := hf s a h0
    obtain ⟨s₂, h₂, hI₂⟩ := ih hI
    exact ⟨s₂, by rw [List.foldlM_cons, h₁]; exact h₂, hI₂⟩

/-- What every round that returns preserves, a loop that returns preserves. -/
theorem foldlM_invariant {I : S → Prop} {s s' : S} {l : List A} (h : l.foldlM f s = some s')
    (h0 : I s) (hf : ∀ s a s', a ∈ l → I s → f s a = some s' → I s') : I s' := by
  induction l generalizing s with
  | nil => exact Option.some.inj h ▸ h0
  | cons a l ih =>
    rw [List.foldlM_cons] at h
    obtain ⟨s₁, h₁, hrest⟩ := Option.bind_eq_some_iff.1 h
    exact ih hrest (hf s a s₁ List.mem_cons_self h0 h₁)
      fun s b s' hb => hf s b s' (List.mem_cons_of_mem _ hb)

/-- Where every round evolves the state along `R` and establishes `P a` for the element `a` it
visits, and `P a` survives `R`, the loop ends with `P a` for all its elements. -/
theorem foldlM_visit {R : S → S → Prop} {P : A → S → Prop} (hrefl : ∀ s, R s s)
    (htrans : ∀ s₁ s₂ s₃, R s₁ s₂ → R s₂ s₃ → R s₁ s₃)
    (hkeep : ∀ a s₁ s₂, R s₁ s₂ → P a s₁ → P a s₂) {s : S} {l : List A}
    (hf : ∀ s', R s s' → ∀ a ∈ l, ∃ s'', f s' a = some s'' ∧ R s' s'' ∧ P a s'') :
    ∃ s', l.foldlM f s = some s' ∧ R s s' ∧ ∀ a ∈ l, P a s' := by
  induction l generalizing s with
  | nil => exact ⟨s, rfl, hrefl s, by simp⟩
  | cons a l ih =>
    obtain ⟨s₁, h₁, hR₁, hP₁⟩ := hf s (hrefl s) a List.mem_cons_self
    obtain ⟨s₂, h₂, hR₂, hP₂⟩ := ih fun s' hs' b hb =>
      hf s' (htrans _ _ _ hR₁ hs') b (List.mem_cons_of_mem _ hb)
    refine ⟨s₂, by rw [List.foldlM_cons, h₁]; exact h₂, htrans _ _ _ hR₁ hR₂, ?_⟩
    intro b hb
    rcases List.mem_cons.1 hb with rfl | hb
    · exact hkeep _ _ _ hR₂ hP₁
    · exact hP₂ b hb

end Runs
