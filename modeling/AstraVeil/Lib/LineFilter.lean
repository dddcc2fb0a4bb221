import Mathlib.Tactic

/-!
# Rewriting a text line by line

A text over any alphabet, cut at a terminator `nl`: a line runs to the next terminator and takes
it with it, and the last line may lack one.  `rewriteLines nl f` replaces every line by what `f`
makes of it; a filter drops the lines it does not keep.

* `rewriteLines_eq`: rewriting is `f` on each of `lines nl raw`, whose concatenation is `raw`;
* `infix_iff_lines`: a word without the terminator occurs in a text when it occurs in a line;
* `lines_rewriteLines`: the lines of the rewritten text, for an `f` that keeps a line, drops it
  or writes another terminated one;
* `not_infix_filterLines`, `lines_filterLines`: what a filter removes and what it leaves alone.
-/

namespace LineFilter

variable {α : Type*} [DecidableEq α] {nl : α}

/-- The lines of a text, each with its terminator where it has one. -/
def lines (nl : α) : List α → List (List α)
  | [] => []
  | c :: cs =>
    (c :: cs).take ((c :: cs).idxOf nl + 1) :: lines nl ((c :: cs).drop ((c :: cs).idxOf nl + 1))
termination_by raw => raw.length
decreasing_by simp

/-- Every line replaced by what `f` makes of it. -/
def rewriteLines (nl : α) (f : List α → List α) : List α → List α
  | [] => []
  | c :: cs =>
    f ((c :: cs).take ((c :: cs).idxOf nl + 1)) ++
      rewriteLines nl f ((c :: cs).drop ((c :: cs).idxOf nl + 1))
termination_by raw => raw.length
decreasing_by simp

/-- The lines that `hide` does not select. -/
def filterLines (nl : α) (hide : List α → Bool) : List α → List α :=
  rewriteLines nl fun line => if hide line then [] else line

/-- A line that ends in its only terminator. -/
def Terminated (nl : α) (line : List α) : Prop := ∃ body, nl ∉ body ∧ line = body ++ [nl]

theorem rewriteLines_eq (f : List α → List α) (raw : List α) :
    rewriteLines nl f raw = (lines nl raw).flatMap f := by
  induction raw using lines.induct nl with
  | case1 => simp [rewriteLines, lines]
  | case2 c cs ih => rw [rewriteLines, lines, List.flatMap_cons, ih]

omit [DecidableEq α] in
/-- What comes before the first terminator. -/
theorem exists_first_line {raw : List α} (h : nl ∈ raw) :
    ∃ body rest, nl ∉ body ∧ raw = body ++ nl :: rest := by
  obtain ⟨body, rest, rfl, hbody⟩ := List.eq_append_cons_of_mem h
  exact ⟨body, rest, hbody, rfl⟩

theorem lines_terminated_append {line : List α} (h : Terminated nl line) (rest : List α) :
    lines nl (line ++ rest) = line :: lines nl rest := by
  obtain ⟨body, hbody, rfl⟩ := h
  have hidx : (body ++ [nl] ++ rest).idxOf nl = body.length := by
    simp [List.idxOf_append, hbody]
  obtain ⟨c, cs, hcs⟩ : ∃ c cs, body ++ [nl] ++ rest = c :: cs :=
    List.exists_cons_of_ne_nil (by simp)
  rw [hcs, lines, ← hcs, hidx]
  have hlen : body.length + 1 = (body ++ [nl]).length := by simp
  rw [hlen, List.take_left, List.drop_left]

theorem lines_unterminated {line : List α} (hne : line ≠ []) (h : nl ∉ line) :
    lines nl line = [line] := by
  obtain ⟨c, cs, rfl⟩ := List.exists_cons_of_ne_nil hne
  rw [lines, List.idxOf_eq_length h, List.take_of_length_le (Nat.le_succ _),
    List.drop_of_length_le (Nat.le_succ _), lines]

variable (nl) in
/-- Induction on the lines of a text. -/
theorem lines_induction {P : List α → Prop} (nil : P [])
    (last : ∀ line, line ≠ [] → nl ∉ line → P line)
    (cons : ∀ line rest, Terminated nl line → P rest → P (line ++ rest)) (raw : List α) :
    P raw := by
  induction hn : raw.length using Nat.strong_induction_on generalizing raw with
  | _ n ih =>
    by_cases hnl : nl ∈ raw
    · obtain ⟨body, rest, hbody, rfl⟩ := exists_first_line hnl
      have hsplit : body ++ nl :: rest = (body ++ [nl]) ++ rest := by simp
      rw [hsplit]
      refine cons _ _ ⟨body, hbody, rfl⟩ (ih rest.length ?_ rest rfl)
      rw [← hn, List.length_append, List.length_cons]
      omega
    · rcases eq_or_ne raw [] with rfl | hne
      · exact nil
      · exact last raw hne hnl

theorem terminated_or_last {raw line : List α} (h : line ∈ lines nl raw) :
    Terminated nl line ∨ line ≠ [] ∧ nl ∉ line := by
  induction raw using lines_induction nl with
  | nil => simp [lines] at h
  | last l hne hl =>
    rw [lines_unterminated hne hl, List.mem_singleton] at h
    exact h ▸ Or.inr ⟨hne, hl⟩
  | cons l rest hl ih =>
    rw [lines_terminated_append hl, List.mem_cons] at h
    rcases h with rfl | h
    · exact Or.inl hl
    · exact ih h

theorem ne_nil_of_mem_lines {raw line : List α} (h : line ∈ lines nl raw) : line ≠ [] := by
  rcases terminated_or_last h with ⟨body, -, rfl⟩ | ⟨hne, -⟩
  · simp
  · exact hne

section Words

omit [DecidableEq α]

/-- A word without the terminator does not cross the end of a line. -/
theorem infix_terminated_append {word line rest : List α} (hword : nl ∉ word)
    (hline : Terminated nl line) :
    word <:+: line ++ rest ↔ word <:+: line ∨ word <:+: rest := by
  obtain ⟨body, -, rfl⟩ := hline
  refine ⟨fun h => ?_, ?_⟩
  · rcases List.infix_append_iff_ne_nil.1 h with h | h | ⟨u, v, hu, -, rfl, hsuff, -⟩
    · exact Or.inl h
    · exact Or.inr h
    · -- the part of the word in the line would end in the terminator
      exfalso
      obtain ⟨t, ht⟩ := hsuff
      obtain ⟨u', c, rfl⟩ := List.eq_nil_or_concat u |>.resolve_left hu
      have hc : c = nl := by
        rw [List.concat_eq_append, ← List.append_assoc] at ht
        simpa using (List.append_inj' ht rfl).2
      subst hc
      exact hword (by simp)
  · rintro (h | h)
    · exact List.infix_append_of_infix_left h
    · exact List.infix_append_of_infix_right h

end Words

/-- A word without the terminator occurs in a text when it occurs in one of its lines. -/
theorem infix_iff_lines {word : List α} (hword : nl ∉ word) (hne : word ≠ []) (raw : List α) :
    word <:+: raw ↔ ∃ line ∈ lines nl raw, word <:+: line := by
  induction raw using lines_induction nl with
  | nil => simp [lines, hne]
  | last l hl hnl => simp [lines_unterminated hl hnl]
  | cons l rest hl ih =>
    rw [infix_terminated_append hword hl, lines_terminated_append hl, ih]
    simp only [List.mem_cons, exists_eq_or_imp]

/-- The lines after rewriting, where a line is kept, dropped or replaced by a terminated one. -/
theorem lines_rewriteLines {f : List α → List α} {raw : List α}
    (hf : ∀ line ∈ lines nl raw, f line = line ∨ f line = [] ∨ Terminated nl (f line)) :
    lines nl (rewriteLines nl f raw) = ((lines nl raw).map f).filter (· ≠ []) := by
  induction raw using lines_induction nl with
  | nil => simp [rewriteLines, lines]
  | last l hne hl =>
    rw [rewriteLines_eq, lines_unterminated hne hl, List.flatMap_singleton, List.map_singleton]
    rcases hf l (by simp [lines_unterminated hne hl]) with h | h | h
    · simp [h, lines_unterminated hne hl, hne]
    · simp [h, lines]
    · have hnil : f l ≠ [] := by
        obtain ⟨body, -, hbody⟩ := h
        simp [hbody]
      simpa [lines, hnil] using lines_terminated_append h []
  | cons l rest hl ih =>
    have hrest : ∀ line ∈ lines nl rest, f line = line ∨ f line = [] ∨ Terminated nl (f line) :=
      fun line hline => hf line (by simp [lines_terminated_append hl, hline])
    have hcons : rewriteLines nl f (l ++ rest) = f l ++ rewriteLines nl f rest := by
      rw [rewriteLines_eq, lines_terminated_append hl, List.flatMap_cons, ← rewriteLines_eq]
    rw [hcons, lines_terminated_append hl, List.map_cons]
    have hterm : f l = [] ∨ Terminated nl (f l) := by
      rcases hf l (by simp [lines_terminated_append hl]) with h | h | h
      · exact Or.inr (h.symm ▸ hl)
      · exact Or.inl h
      · exact Or.inr h
    rcases hterm with h | h
    · simp [h, ih hrest]
    · have hnil : f l ≠ [] := by
        obtain ⟨body, -, hbody⟩ := h
        simp [hbody]
      rw [lines_terminated_append h, ih hrest, List.filter_cons_of_pos (by simpa using hnil)]

theorem lines_filterLines (hide : List α → Bool) (raw : List α) :
    lines nl (filterLines nl hide raw) = (lines nl raw).filter fun line => !hide line := by
  rw [filterLines, lines_rewriteLines fun line _ => by by_cases h : hide line <;> simp [h]]
  rw [List.filter_map]
  have hsel : (lines nl raw).filter ((· ≠ []) ∘ fun line => if hide line then [] else line) =
      (lines nl raw).filter fun line => !hide line := by
    refine List.filter_congr fun line hline => ?_
    have := ne_nil_of_mem_lines hline
    by_cases h : hide line <;> simp [h, this]
  rw [hsel]
  refine (List.map_congr_left fun line hline => ?_).trans (List.map_id _)
  have hkept := (List.mem_filter.1 hline).2
  simp only [Bool.not_eq_true'] at hkept
  simp [hkept]

/-- No word whose lines are all hidden occurs after filtering. -/
theorem not_infix_filterLines {hide : List α → Bool} {word : List α} (hword : nl ∉ word)
    (hne : word ≠ []) (hhide : ∀ line, word <:+: line → hide line = true) (raw : List α) :
    ¬ word <:+: filterLines nl hide raw := by
  rw [infix_iff_lines hword hne, lines_filterLines]
  rintro ⟨line, hline, hocc⟩
  have hkept := (List.mem_filter.1 hline).2
  simp [hhide line hocc] at hkept

end LineFilter
