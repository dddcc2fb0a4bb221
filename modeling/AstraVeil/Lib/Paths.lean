import Mathlib.Tactic

/-!
# Resolving relative paths

A path is a list of components: the directory itself, the one above it, or a name.  Followed from
a directory a path leads to `walk dir path`; at the root the way up leads nowhere.  What a path
does to any directory is to go up some times and then down along some names: `climb`.

* `walk_eq`: the two agree;
* `below_walk_iff`: when a path leads strictly below the directory it is followed from;
* `overlap_absolute_iff`: absolute paths overlap when one leads to the other's directory or below.
-/

namespace Paths

variable {α : Type*}

/-- A component of a path. -/
inductive Component (α : Type*)
  | here
  | up
  | name (a : α)
  deriving DecidableEq

/-- One component further. -/
def move (dir : List α) : Component α → List α
  | .here => dir
  | .up => dir.dropLast
  | .name a => dir ++ [a]

/-- Where a path leads. -/
def walk (dir : List α) (path : List (Component α)) : List α := path.foldl move dir

/-- One component further, for a way up and then down. -/
def extend (r : ℕ × List α) : Component α → ℕ × List α
  | .here => r
  | .up => if r.2.isEmpty then (r.1 + 1, []) else (r.1, r.2.dropLast)
  | .name a => (r.1, r.2 ++ [a])

/-- How many times a path goes up, and the names it goes down along from there. -/
def climb (path : List (Component α)) : ℕ × List α := path.foldl extend (0, [])

/-- `p` is strictly below `dir`. -/
def Below (dir p : List α) : Prop := dir <+: p ∧ dir ≠ p

/-- The directory reached by going up and then down. -/
def reached (dir : List α) (r : ℕ × List α) : List α := dir.take (dir.length - r.1) ++ r.2

theorem move_reached (dir : List α) (r : ℕ × List α) (c : Component α) :
    move (reached dir r) c = reached dir (extend r c) := by
  obtain ⟨ups, names⟩ := r
  cases c with
  | here => rfl
  | name a => simp [move, reached, extend]
  | up =>
    cases names with
    | nil =>
      show (dir.take (dir.length - ups) ++ []).dropLast = dir.take (dir.length - (ups + 1)) ++ []
      rw [List.append_nil, List.append_nil, List.dropLast_eq_take, List.take_take,
        List.length_take]
      congr 1
      omega
    | cons a names =>
      show (dir.take (dir.length - ups) ++ a :: names).dropLast =
        dir.take (dir.length - ups) ++ (a :: names).dropLast
      rw [List.dropLast_append_of_ne_nil (List.cons_ne_nil a names)]

theorem foldl_move_reached (dir : List α) (r : ℕ × List α) (path : List (Component α)) :
    path.foldl move (reached dir r) = reached dir (path.foldl extend r) := by
  induction path generalizing r with
  | nil => rfl
  | cons c path ih => rw [List.foldl_cons, move_reached, ih, List.foldl_cons]

/-- Where a path leads is up and then down. -/
theorem walk_eq (dir : List α) (path : List (Component α)) :
    walk dir path = reached dir (climb path) := by
  rw [climb, ← foldl_move_reached, reached, Nat.sub_zero, List.take_length, List.append_nil]
  rfl

theorem below_append_left (p x y : List α) : Below (p ++ x) (p ++ y) ↔ Below x y := by
  unfold Below
  rw [List.prefix_append_right_inj, Ne, List.append_cancel_left_eq]

/-- **A path leads strictly below a directory exactly when the names it goes down along start with
those it went up through, and go on.** -/
theorem below_walk_iff (dir : List α) (path : List (Component α)) :
    Below dir (walk dir path) ↔
      Below (dir.drop (dir.length - (climb path).1)) (climb path).2 := by
  rw [walk_eq, reached]
  generalize climb path = r
  calc Below dir (dir.take (dir.length - r.1) ++ r.2)
      ↔ Below (dir.take (dir.length - r.1) ++ dir.drop (dir.length - r.1))
          (dir.take (dir.length - r.1) ++ r.2) := by rw [List.take_append_drop]
    _ ↔ Below (dir.drop (dir.length - r.1)) r.2 := below_append_left _ _ _

/-! ### Overlap -/

/-- A path with its `.` and `..` resolved, and whether it starts at the root.  What a relative path
goes up stays in front. -/
def normal (absolute : Bool) (path : List (Component α)) : Bool × List (Component α) :=
  if absolute then (true, (walk [] path).map .name)
  else (false, List.replicate (climb path).1 .up ++ (climb path).2.map .name)

/-- Two resolved paths of one kind are the same, or one continues the other. -/
def Overlap (p q : Bool × List (Component α)) : Prop := p.1 = q.1 ∧ (p.2 <+: q.2 ∨ q.2 <+: p.2)

instance [DecidableEq α] (p q : Bool × List (Component α)) : Decidable (Overlap p q) :=
  inferInstanceAs (Decidable (_ ∧ _))

theorem Overlap.refl (p : Bool × List (Component α)) : Overlap p p :=
  ⟨rfl, Or.inl (List.prefix_refl p.2)⟩

theorem name_injective : Function.Injective (Component.name (α := α)) :=
  fun _ _ h => Component.name.inj h

theorem overlap_absolute_iff {p q : List (Component α)} :
    Overlap (normal true p) (normal true q) ↔
      walk [] p <+: walk [] q ∨ walk [] q <+: walk [] p := by
  simp [Overlap, normal, List.prefix_map_iff_of_injective name_injective]

/-- Going down leads below. -/
theorem prefix_foldl_move {rest : List (Component α)} (hrest : ∀ c ∈ rest, c ≠ .up)
    (dir : List α) : dir <+: rest.foldl move dir := by
  induction rest generalizing dir with
  | nil => exact List.prefix_refl dir
  | cons c rest ih =>
    rw [List.forall_mem_cons] at hrest
    refine List.IsPrefix.trans ?_ (ih hrest.2 _)
    cases c with
    | here => exact List.prefix_refl dir
    | up => exact absurd rfl hrest.1
    | name a => exact List.prefix_append dir [a]

theorem foldl_extend_down {rest : List (Component α)} (hrest : ∀ c ∈ rest, c ≠ .up)
    (r : ℕ × List α) :
    (rest.foldl extend r).1 = r.1 ∧ r.2 <+: (rest.foldl extend r).2 := by
  induction rest generalizing r with
  | nil => exact ⟨rfl, List.prefix_refl r.2⟩
  | cons c rest ih =>
    rw [List.forall_mem_cons] at hrest
    obtain ⟨hups, hnames⟩ := ih hrest.2 (extend r c)
    rw [List.foldl_cons, hups]
    cases c with
    | here => exact ⟨rfl, hnames⟩
    | up => exact absurd rfl hrest.1
    | name a => exact ⟨rfl, (List.prefix_append r.2 [a]).trans hnames⟩

/-- A path overlaps every path that goes on from it without going up. -/
theorem overlap_normal_append (absolute : Bool) (path : List (Component α))
    {rest : List (Component α)} (hrest : ∀ c ∈ rest, c ≠ .up) :
    Overlap (normal absolute path) (normal absolute (path ++ rest)) := by
  cases absolute with
  | true =>
    rw [overlap_absolute_iff, walk, walk, List.foldl_append]
    exact Or.inl (prefix_foldl_move hrest _)
  | false =>
    obtain ⟨hups, hnames⟩ := foldl_extend_down hrest (climb path)
    have hclimb : climb (path ++ rest) = rest.foldl extend (climb path) := by
      rw [climb, List.foldl_append]
      rfl
    refine ⟨rfl, Or.inl ?_⟩
    show List.replicate _ _ ++ _ <+: List.replicate _ _ ++ _
    rw [hclimb, hups, List.prefix_append_right_inj,
      List.prefix_map_iff_of_injective name_injective]
    exact hnames

end Paths
